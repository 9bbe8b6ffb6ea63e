import Contender.Scenario.BatchNonces
import Contender.Scenario.NonceRealignment
import Contender.Semantics.Execution

/-!
# The nonces of cancelled runs

`Contender::spam` selects between `spam_rpc` and the external cancel token. When the
token fires, `spam_rpc` is dropped at the await it has reached, and the nonce map of the
scenario stays as it was there. Every `prepare_tx_request` takes its nonce before it
awaits anything, and a batch is handed to the send tasks only once all of its
transactions have been prepared; so a run that is dropped in between has taken nonces
for transactions that are never sent.

A run is followed here through its awaits: what is listed as an event happens without
one. Beside the scenario stand the nonces the run started from, the transactions it has
handed over, and the shifts it has applied.

## Main results

* `noGap_of_run` — when a cancelled run leaves no gap
-/

namespace Contender

open EStateM ScenarioM Semantics

/-- Where the latest spam run is. -/
inductive RunPhase
  /-- Awaiting the chunks, the cursor or the tasks of the batch before. -/
  | waiting
  /-- In `prepare_spam`: some transactions have their nonces, others are left. -/
  | preparing (taken rest : List NamedTxRequest)
  /-- `execute_spammer` has returned. -/
  | finishing
  /-- `sync_nonces` has written a nonce. -/
  | syncing
  | returned
  /-- The external token has fired. -/
  | cancelled
  deriving DecidableEq, Repr

/-- A scenario with its latest run. -/
structure TrackedRun where
  scenario : TestScenario
  phase : RunPhase
  /-- A batch has been handed over and not been collected. -/
  pending : Bool
  /-- The nonces before the run. -/
  base : AssocMap Address Nat
  /-- The transactions handed to send tasks. -/
  dispatched : List NamedTxRequest
  /-- The nonce shifts applied. -/
  shifts : Address → Int

/-- What a run does between two awaits. -/
inductive RunEvent
  | start
  | collect (batch : PendingBatch)
  | prepare (requests : List ExecutionRequest)
  | take
  /-- `execute_spam`. -/
  | dispatch
  | sent
  | sync (address : Address) (nonce : Nat)
  | finish
  /-- An error is returned, or a task panics. -/
  | fail
  | cancel
  /-- Everything but the nonces may change. -/
  | between (scenario : TestScenario)

namespace TrackedRun

/-- A scenario before its first run. -/
def init (scenario : TestScenario) : TrackedRun where
  scenario
  phase := .returned
  pending := false
  base := scenario.nonces
  dispatched := []
  shifts _ := 0

/-- The total shift that a batch has for an address. -/
def totalShift (batch : PendingBatch) (a : Address) : Int :=
  (((nonceAdjustments batch.shiftNonce).getD ∅).lookup a).getD 0

/-- A run is going on. -/
def Running (r : TrackedRun) : Prop := r.phase ≠ .returned ∧ r.phase ≠ .cancelled

instance (r : TrackedRun) : Decidable r.Running := inferInstanceAs (Decidable (_ ∧ _))

def step (r : TrackedRun) : RunEvent → Option TrackedRun
  | .start =>
    if r.Running then none
    else some
      { r with
        phase := .waiting, pending := false
        base := r.scenario.nonces, dispatched := [], shifts := fun _ => 0 }
  | .collect batch =>
    if r.phase = .waiting ∧ r.pending = true then
      match TestScenario.collectPendingBatch batch r.scenario with
      | .ok _ scenario =>
        some { r with
          scenario, pending := false, shifts := fun a => r.shifts a + totalShift batch a }
      | .error _ scenario => some { r with scenario, phase := .returned }
    else none
  | .prepare requests =>
    if r.phase = .waiting ∧ r.pending = false then
      some { r with phase := .preparing [] (requests.flatMap ExecutionRequest.txs) }
    else none
  | .take =>
    match r.phase with
    | .preparing taken (req :: rest) =>
      match TestScenario.takeNonce req.tx r.scenario with
      | .ok _ scenario => some { r with scenario, phase := .preparing (taken ++ [req]) rest }
      | .error _ scenario => some { r with scenario, phase := .returned }
    | _ => none
  | .dispatch =>
    match r.phase with
    | .preparing taken [] =>
      some { r with phase := .waiting, pending := true, dispatched := r.dispatched ++ taken }
    | _ => none
  | .sent =>
    if r.phase = .waiting ∧ r.pending = false then some { r with phase := .finishing } else none
  | .sync address nonce =>
    if r.phase = .finishing ∨ r.phase = .syncing then
      some { r with
        phase := .syncing
        scenario := { r.scenario with nonces := r.scenario.nonces.insert address nonce } }
    else none
  | .finish =>
    if r.phase = .finishing ∨ r.phase = .syncing then some { r with phase := .returned } else none
  | .fail => if r.Running then some { r with phase := .returned } else none
  | .cancel => if r.Running then some { r with phase := .cancelled } else none
  | .between scenario =>
    some { r with
      scenario := { scenario with
        nonces := r.scenario.nonces, setcodeSigner := r.scenario.setcodeSigner } }

/-- The transactions that have a nonce and have not been handed over. -/
def taken (r : TrackedRun) : List NamedTxRequest :=
  match r.phase with
  | .preparing taken _ => taken
  | _ => []

/-- The local nonce of an address. -/
def nonce (r : TrackedRun) (a : Address) : Nat := (r.scenario.nonces.lookup a).getD 0

/-- The address of the setCode signer. -/
def signer (r : TrackedRun) : Address := r.scenario.setcodeSigner.address

/-- A cancelled run has left no gap: the nonce of every sender has advanced by its
transactions handed over and by the shifts. The setCode signer counts as a sender when no
other sender has advanced its nonce. -/
def NoGap (r : TrackedRun) : Prop :=
  r.phase = .cancelled → ∀ a, (∀ req ∈ r.dispatched, TestScenario.SparesNonce r.signer a req.tx) →
    (r.nonce a : Int) =
      (r.base.lookup a).getD 0 + TestScenario.sentBy a r.dispatched + r.shifts a

/-- What the steps of a run have to meet: it is not cancelled while it holds nonces of
transactions that have not been handed over, nor once `sync_nonces` has written; and no
shift leads out of `u64`. -/
def Clean (r : TrackedRun) : RunEvent → Prop
  | .cancel => r.taken = [] ∧ r.phase ≠ .syncing
  | .collect batch => ∀ adjustments ∈ nonceAdjustments batch.shiftNonce, ∀ a,
      ∀ total ∈ adjustments.lookup a, 0 ≤ r.nonce a + total ∧ r.nonce a + total < 2 ^ 64
  | _ => True

/-! ### One step -/

/-- The nonces of a run that has not synced are those it took. -/
def Active (r : TrackedRun) : Prop := r.Running ∧ r.phase ≠ .syncing

/-- The nonces are accounted for by the transactions that took one, handed over or not. -/
def Accounted (r : TrackedRun) : Prop :=
  ∀ a, (r.nonce a : Int) = (r.base.lookup a).getD 0 +
    TestScenario.advancesOf r.signer a (r.dispatched ++ r.taken) + r.shifts a

variable {r r' : TrackedRun} {event : RunEvent}

theorem advancesOf_append (signer a : Address) (l m : List NamedTxRequest) :
    TestScenario.advancesOf signer a (l ++ m) =
      TestScenario.advancesOf signer a l + TestScenario.advancesOf signer a m :=
  List.countP_append

/-- Where nobody else advances the nonce, only an address's own transactions do. -/
theorem advancesOf_eq_sentBy {signer a : Address} {reqs : List NamedTxRequest}
    (hspares : ∀ req ∈ reqs, TestScenario.SparesNonce signer a req.tx) :
    TestScenario.advancesOf signer a reqs = TestScenario.sentBy a reqs := by
  apply List.countP_congr
  intro req hreq
  rw [decide_eq_true_iff, decide_eq_true_iff]
  constructor
  · rintro (hsends | ⟨hsigner, hauth⟩)
    · exact hsends
    · exact hspares req hreq hsigner hauth
  · exact Or.inl

theorem shiftedNonce_of_fits {n : Nat} {total : Int} (hlow : 0 ≤ n + total)
    (hhigh : n + total < 2 ^ 64) : (shiftedNonce n total : Int) = n + total := by
  unfold shiftedNonce satAddU64
  split_ifs with hneg
  · omega
  · omega

/-- Taking a nonce advances it, and the setCode signer's for an authorization. -/
theorem nonce_of_takeNonce {req : NamedTxRequest} {s t : TestScenario} {p : Address × Nat}
    (h : TestScenario.takeNonce req.tx s = .ok p t) (a : Address) :
    (t.nonces.lookup a).getD 0 = (s.nonces.lookup a).getD 0 +
      TestScenario.advancesOf s.setcodeSigner.address a [req] := by
  obtain ⟨sender, nonce⟩ := p
  obtain ⟨hsender, hnonce, -, hadvanced⟩ := TestScenario.takeNonce_eq_ok h
  have hlookup : t.nonces.lookup a = _ := hadvanced.lookup a
  rw [hlookup, TestScenario.advancesOf, List.countP_singleton]
  by_cases hadvances : TestScenario.Advances s.setcodeSigner.address a req.tx
  · have hsome : (s.nonces.lookup a).isSome := by
      rcases hadvances with hsends | ⟨rfl, -⟩
      · obtain rfl := Option.some.inj (hsends.symm.trans hsender)
        rw [hnonce]
        rfl
      · exact hadvanced.tracked
    obtain ⟨n, hn⟩ := Option.isSome_iff_exists.mp hsome
    rw [if_pos (show TestScenario.Advances s.nonceState.2 a req.tx from hadvances),
      if_pos (by simpa using hadvances)]
    change ((s.nonces.lookup a).map (· + 1)).getD 0 = _
    rw [hn]
    rfl
  · rw [if_neg (show ¬TestScenario.Advances s.nonceState.2 a req.tx from hadvances),
      if_neg (by simpa using hadvances)]
    rfl

theorem signer_of_takeNonce {req : NamedTxRequest} {s t : TestScenario} {p : Address × Nat}
    (h : TestScenario.takeNonce req.tx s = .ok p t) :
    t.setcodeSigner.address = s.setcodeSigner.address :=
  (TestScenario.takeNonce_eq_ok h).2.2.2.setcodeSigner

theorem keeps_takeBackGas (batch : PendingBatch) :
    Keeps (fun s => (s.nonces, s.setcodeSigner)) (TestScenario.takeBackGas batch) := by
  unfold TestScenario.takeBackGas
  split
  · refine Keeps.update fun s => ?_
    split <;> rfl
  · exact Keeps.pure _

/-- Collecting a batch applies its shifts. -/
theorem nonce_of_collect {batch : PendingBatch} {s t : TestScenario} {u : Unit}
    (h : TestScenario.collectPendingBatch batch s = .ok u t)
    (hfits : ∀ adjustments ∈ nonceAdjustments batch.shiftNonce, ∀ a,
      ∀ total ∈ adjustments.lookup a, 0 ≤ (s.nonces.lookup a).getD 0 + total ∧
        (s.nonces.lookup a).getD 0 + total < 2 ^ 64) (a : Address) :
    t.setcodeSigner = s.setcodeSigner ∧
      ((t.nonces.lookup a).getD 0 : Int) = (s.nonces.lookup a).getD 0 + totalShift batch a := by
  simp only [TestScenario.collectPendingBatch, bind_eq_ok, ofExcept_eq_ok, get_eq_ok, okOr_eq_ok,
    modify_eq_ok] at h
  obtain ⟨_, _, ⟨-, rfl⟩, _, _, ⟨rfl, rfl⟩, adder, _, ⟨-, rfl⟩, _, _, rfl, adjustments, _,
    ⟨hsum, rfl⟩, _, v, rfl, hrest⟩ := h
  obtain ⟨hnonces, hsigner⟩ := Prod.mk.inj ((keeps_takeBackGas batch).of_ok hrest)
  refine ⟨hsigner, ?_⟩
  rw [hnonces, lookup_applyAdjustments adjustments.nodupKeys, totalShift, hsum]
  change _ = _ + ((adjustments.entries.dlookup a).getD 0 : Int)
  cases htotal : adjustments.entries.dlookup a with
  | none => simp
  | some total =>
    obtain ⟨hlow, hhigh⟩ := hfits adjustments hsum a total htotal
    exact shiftedNonce_of_fits hlow hhigh

theorem Accounted.take {req : NamedTxRequest} {taken rest : List NamedTxRequest}
    {s : TestScenario} {p : Address × Nat} (h : r.Accounted)
    (hphase : r.phase = .preparing taken (req :: rest))
    (htake : TestScenario.takeNonce req.tx r.scenario = .ok p s) :
    Accounted { r with scenario := s, phase := .preparing (taken ++ [req]) rest } := by
  intro a
  have hbefore := h a
  have hnonce := nonce_of_takeNonce htake a
  have hsigner := signer_of_takeNonce htake
  simp only [TrackedRun.nonce, TrackedRun.signer, TrackedRun.taken, hphase] at hbefore ⊢
  rw [hsigner, ← List.append_assoc, advancesOf_append, hnonce]
  push_cast
  omega

theorem Accounted.collect {batch : PendingBatch} {s : TestScenario} {u : Unit}
    (h : r.Accounted) (hclean : r.Clean (.collect batch))
    (hcollect : TestScenario.collectPendingBatch batch r.scenario = .ok u s) :
    Accounted { r with
      scenario := s, pending := false, shifts := fun a => r.shifts a + totalShift batch a } := by
  intro a
  have hbefore := h a
  obtain ⟨hsigner, hnonce⟩ := nonce_of_collect hcollect hclean a
  change ((s.nonces.lookup a).getD 0 : Int) = (r.base.lookup a).getD 0 +
    TestScenario.advancesOf s.setcodeSigner.address a (r.dispatched ++ r.taken) +
      (r.shifts a + totalShift batch a)
  rw [hsigner, hnonce]
  simp only [TrackedRun.nonce, TrackedRun.signer] at hbefore
  omega

theorem Accounted.dispatch {taken : List NamedTxRequest} (h : r.Accounted)
    (hphase : r.phase = .preparing taken []) :
    Accounted
      { r with phase := .waiting, pending := true, dispatched := r.dispatched ++ taken } := by
  intro a
  have hbefore := h a
  simp only [TrackedRun.taken, hphase] at hbefore
  simpa [TrackedRun.taken, TrackedRun.nonce, TrackedRun.signer] using hbefore

/-- A run that holds no nonces of its own is accounted for by what was handed over. -/
theorem Accounted.noGap (h : r.Accounted) (htaken : r.taken = []) :
    NoGap { r with phase := .cancelled } := by
  intro _ a hspares
  have hbefore := h a
  have hcount : TestScenario.advancesOf r.signer a r.dispatched =
      TestScenario.sentBy a r.dispatched := advancesOf_eq_sentBy hspares
  rw [htaken, List.append_nil, hcount] at hbefore
  exact hbefore

/-- What holds at every point of a clean run. -/
structure Sound (r : TrackedRun) : Prop where
  accounted : r.Active → r.Accounted
  noGap : r.NoGap

theorem Sound.of_returned (hphase : r.phase = .returned) : Sound r :=
  ⟨fun h => absurd hphase h.1.1, fun h => by rw [hphase] at h; cases h⟩

theorem Sound.of_active (h : r.Accounted) (hphase : r.phase ≠ .cancelled) : Sound r :=
  ⟨fun _ => h, fun hcancelled => absurd hcancelled hphase⟩

theorem Sound.step (h : Sound r) (hclean : r.Clean event) (hstep : r.step event = some r') :
    Sound r' := by
  cases event with
  | start =>
    simp only [TrackedRun.step] at hstep
    split_ifs at hstep
    obtain rfl := Option.some.inj hstep
    exact .of_active
      (fun a => by simp [TrackedRun.nonce, TrackedRun.taken, TestScenario.advancesOf]) (by simp)
  | collect batch =>
    simp only [TrackedRun.step] at hstep
    split_ifs at hstep with hwaiting
    split at hstep
    · rename_i u s hcollect
      obtain rfl := Option.some.inj hstep
      have hactive : r.Active := by simp [Active, Running, hwaiting.1]
      exact .of_active ((h.accounted hactive).collect hclean hcollect) (by simp [hwaiting.1])
    · obtain rfl := Option.some.inj hstep
      exact .of_returned rfl
  | prepare requests =>
    simp only [TrackedRun.step] at hstep
    split_ifs at hstep with hwaiting
    obtain rfl := Option.some.inj hstep
    have hbefore := h.accounted (by simp [Active, Running, hwaiting.1])
    refine .of_active (fun a => ?_) (by simp)
    have hnonce := hbefore a
    simp only [TrackedRun.taken, hwaiting.1] at hnonce
    exact hnonce
  | take =>
    simp only [TrackedRun.step] at hstep
    split at hstep
    · rename_i taken req rest hphase
      split at hstep
      · rename_i p s htake
        obtain rfl := Option.some.inj hstep
        have hactive : r.Active := by simp [Active, Running, hphase]
        exact .of_active ((h.accounted hactive).take hphase htake) (by simp)
      · obtain rfl := Option.some.inj hstep
        exact .of_returned rfl
    · cases hstep
  | dispatch =>
    simp only [TrackedRun.step] at hstep
    split at hstep
    · rename_i taken hphase
      obtain rfl := Option.some.inj hstep
      have hactive : r.Active := by simp [Active, Running, hphase]
      exact .of_active ((h.accounted hactive).dispatch hphase) (by simp)
    · cases hstep
  | sent =>
    simp only [TrackedRun.step] at hstep
    split_ifs at hstep with hwaiting
    obtain rfl := Option.some.inj hstep
    have hbefore := h.accounted (by simp [Active, Running, hwaiting.1])
    refine .of_active (fun a => ?_) (by simp)
    have hnonce := hbefore a
    simp only [TrackedRun.taken, hwaiting.1] at hnonce
    exact hnonce
  | sync address nonce =>
    simp only [TrackedRun.step] at hstep
    split_ifs at hstep
    obtain rfl := Option.some.inj hstep
    exact ⟨fun hactive => absurd rfl hactive.2, fun hcancelled => by cases hcancelled⟩
  | finish =>
    simp only [TrackedRun.step] at hstep
    split_ifs at hstep
    obtain rfl := Option.some.inj hstep
    exact .of_returned rfl
  | fail =>
    simp only [TrackedRun.step] at hstep
    split_ifs at hstep
    obtain rfl := Option.some.inj hstep
    exact .of_returned rfl
  | cancel =>
    simp only [TrackedRun.step] at hstep
    split_ifs at hstep with hrunning
    obtain rfl := Option.some.inj hstep
    obtain ⟨htaken, hsyncing⟩ := hclean
    exact ⟨fun hactive => absurd rfl hactive.1.2,
      (h.accounted ⟨hrunning, hsyncing⟩).noGap htaken⟩
  | between scenario =>
    obtain rfl := Option.some.inj hstep
    exact ⟨fun hactive => h.accounted hactive, h.noGap⟩

/-- **Cancelled runs.** Over every sequence of spam runs on one scenario whose steps are
clean, every run that was cancelled has left no gap. -/
theorem noGap_of_run {scenario : TestScenario} {events : List RunEvent}
    (hrun : Execution.run step (init scenario) events = some r)
    (hclean : Execution.Along step Clean (init scenario) events) : r.NoGap := by
  have hsound : Sound r :=
    Execution.invariant (fun _ _ _ hok hstep h => h.step hok hstep) (.of_returned rfl) hrun hclean
  exact hsound.noGap

/-! ### The awaits of a preparation -/

/-- What only the nonces of a preparation change. -/
def nonceFields (s : TestScenario) : AssocMap Address Nat × PrivateKeySigner :=
  (s.nonces, s.setcodeSigner)

theorem untouched_nonceFields : Untouched nonceFields :=
  ⟨fun _ _ => rfl, fun _ _ => rfl, fun _ _ => rfl, fun _ _ => rfl⟩

/-- A change that leaves the nonces alone. -/
theorem step_between {s : TestScenario} (h : nonceFields s = nonceFields r.scenario) :
    r.step (.between s) = some { r with scenario := s } := by
  obtain ⟨hnonces, hsigner⟩ := Prod.mk.inj h
  rw [TrackedRun.step, ← hnonces, ← hsigner]

/-- Preparing a request is taking its nonce, and then a change that leaves the nonces
alone. -/
theorem run_prepareSigned {env : Env} {gasPrice blobGasPrice : Nat} {req : NamedTxRequest}
    {signed : TxHash × NamedTxRequest} {t : TestScenario} {taken rest : List NamedTxRequest}
    (h : TestScenario.prepareSigned env gasPrice blobGasPrice req r.scenario = .ok signed t)
    (hphase : r.phase = .preparing taken (req :: rest)) :
    Execution.run step r [.take, .between t] =
      some { r with scenario := t, phase := .preparing (taken ++ [req]) rest } := by
  simp only [TestScenario.prepareSigned, TestScenario.prepareTxRequest, bind_eq_ok, okOr_eq_ok,
    ofExcept_eq_ok, get_eq_ok, pure_eq_ok] at h
  obtain ⟨_, _, ⟨p, u, htake, _, _, hgas, _, _, ⟨rfl, rfl⟩, _, _, ⟨-, rfl⟩, _, _, ⟨-, rfl⟩, -, rfl⟩,
    _, _, ⟨-, rfl⟩, -, rfl⟩ := h
  have htook : r.step .take =
      some { r with scenario := u, phase := .preparing (taken ++ [req]) rest } := by
    simp only [TrackedRun.step, hphase, htake]
  have hkept := (TestScenario.keeps_updateGasMap untouched_nonceFields env req.tx
    blobGasPrice).of_ok hgas
  refine Execution.run_cons_eq_some.mpr ⟨_, htook, ?_⟩
  rw [Execution.run_singleton]
  exact step_between hkept

theorem exists_run_mapM {env : Env} {gasPrice blobGasPrice : Nat} {reqs : List NamedTxRequest}
    {signed : List (TxHash × NamedTxRequest)} {t : TestScenario} {taken : List NamedTxRequest}
    (h : reqs.mapM (TestScenario.prepareSigned env gasPrice blobGasPrice) r.scenario =
      .ok signed t) (hphase : r.phase = .preparing taken reqs) :
    ∃ events, Execution.run step r events =
      some { r with scenario := t, phase := .preparing (taken ++ reqs) [] } := by
  induction reqs generalizing r signed taken with
  | nil =>
    obtain ⟨-, rfl⟩ := mapM_nil_eq_ok.mp h
    refine ⟨[], ?_⟩
    rw [Execution.run_nil, List.append_nil, ← hphase]
  | cons req reqs ih =>
    obtain ⟨p, u, rest, hhead, htail, rfl⟩ := mapM_cons_eq_ok.mp h
    have hfirst := run_prepareSigned hhead hphase
    obtain ⟨events, hevents⟩ :=
      ih (r := { r with scenario := u, phase := .preparing (taken ++ [req]) reqs }) htail rfl
    refine ⟨[.take, .between u] ++ events, ?_⟩
    rw [List.append_assoc] at hevents
    exact Execution.run_append_eq_some.mpr ⟨_, hfirst, hevents⟩

/-- `prepare_spam`, as the steps between its awaits. -/
theorem exists_run_prepareSpam {env : Env} {requests : List ExecutionRequest}
    {payloads : List ExecutionPayload} {t : TestScenario}
    (h : TestScenario.prepareSpam env requests r.scenario = .ok payloads t)
    (hphase : r.phase = .waiting) (hpending : r.pending = false) :
    ∃ events, Execution.run step r (.prepare requests :: events) =
      some { r with
        scenario := t, phase := .preparing (requests.flatMap ExecutionRequest.txs) [] } := by
  obtain ⟨traced, htraced, -⟩ := TestScenario.prepareSpam_eq_ok_iff.mp h
  obtain ⟨⟨gasPrice, blobGasPrice⟩, u, hprices, hloop⟩ := bind_eq_ok.mp htraced
  have hstart : r.step (.prepare requests) =
      some { r with phase := .preparing [] (requests.flatMap ExecutionRequest.txs) } := by
    rw [TrackedRun.step, if_pos ⟨hphase, hpending⟩]
  have hkept := (TestScenario.keeps_batchGasPrices untouched_nonceFields env).of_ok hprices
  obtain ⟨events, hevents⟩ := exists_run_mapM
    (r := { r with
      scenario := u, phase := .preparing [] (requests.flatMap ExecutionRequest.txs) })
    (TestScenario.mapM_prepareTraced_flatten hloop) rfl
  refine ⟨.between u :: events, ?_⟩
  exact Execution.run_cons_eq_some.mpr ⟨_, hstart,
    Execution.run_cons_eq_some.mpr ⟨_, step_between hkept, hevents⟩⟩

/-! ### One transfer -/

namespace OneTransfer

def sender : Address := 0xdead

def scenario : TestScenario where
  nonces := (AList.insert sender 0 ∅).insert 1 0
  gasLimits := ∅
  signerMap := AList.insert sender ⟨7, sender⟩ ∅
  setcodeSigner := ⟨1, 1⟩
  txType := .legacy
  chainId := 1
  gasPrice := some 1000
  gasPriceAdder := 0
  lastFetchedGasPrice := none
  lastFetchedBlobGasPrice := none
  hasBundleClient := false
  rpcCalls := 0

def request : NamedTxRequest where
  tx := { fromAddr := some sender, toKind := some (.call 9) }

/-- A run that is cancelled while its transfer waits for a gas estimate. -/
def unsent : List RunEvent := [.start, .prepare [.tx request], .take, .cancel]

/-- A run that waits for the next tick. -/
def handedOver : List RunEvent := [.start, .prepare [.tx request], .take, .dispatch]

/-- The nonce of a transfer that was not sent is gone. -/
theorem not_noGap_unsent :
    ∃ r, Execution.run step (init scenario) unsent = some r ∧ r.phase = .cancelled ∧ ¬r.NoGap := by
  refine ⟨_, rfl, rfl, fun h => ?_⟩
  have hnonce := h rfl sender fun req hreq => by cases hreq
  exact absurd hnonce (by decide)

/-- A transfer that was handed over has used its nonce. -/
theorem noGap_handedOver :
    ∃ r, Execution.run step (init scenario) (handedOver ++ [.cancel]) = some r ∧
      r.phase = .cancelled ∧ r.NoGap := by
  have hwaiting : (Execution.run step (init scenario) handedOver).map TrackedRun.phase =
      some .waiting := rfl
  obtain ⟨r, hr, hphase⟩ := Option.map_eq_some_iff.mp hwaiting
  have hcancel : r.step .cancel = some { r with phase := .cancelled } := by
    rw [TrackedRun.step, if_pos (by simp [Running, hphase])]
  have hrun := Execution.run_append_eq_some.mpr ⟨r, hr, (Execution.run_singleton _ _).trans hcancel⟩
  refine ⟨_, hrun, rfl, noGap_of_run hrun (Execution.Along.append ?_ hr ⟨?_, fun _ _ => trivial⟩)⟩
  · refine Execution.along_of_forall fun event hevent s => ?_
    simp only [handedOver, List.mem_cons, List.not_mem_nil, or_false] at hevent
    rcases hevent with rfl | rfl | rfl | rfl <;> trivial
  · exact ⟨by simp [TrackedRun.taken, hphase], by simp [hphase]⟩

end OneTransfer

end TrackedRun

end Contender
