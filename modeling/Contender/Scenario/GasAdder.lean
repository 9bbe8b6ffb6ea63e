import Contender.Scenario.GasBumps
import Contender.Scenario.GasLimits

/-!
# The gas price adder of a run

`collect_pending_batch` is all that moves the gas price adder after the start: it
adds gas bumps, and takes back a tenth after a batch that was sent completely. The
adder is signed, and `prepare_spam` has a branch for a negative one, but a run that
starts from zero never gets there: bumps are added, and what is taken back is a
tenth of what there is.

A call may fail on the way, and keeps what it has written by then. The scenario
after a call is its last one, however the call ends.
-/

namespace Contender

open EStateM ScenarioM

/-- What happens to a scenario while it spams. -/
inductive AdderEvent
  | prepare (env : Env) (requests : List ExecutionRequest)
  | collect (batch : PendingBatch)

namespace AdderEvent

/-- The gas bumps that the event reads. -/
def bumps : AdderEvent → List Nat
  | .prepare _ _ => []
  | .collect batch => batch.addGas

/-- The scenario after the event. -/
def apply (scenario : TestScenario) : AdderEvent → TestScenario
  | .prepare env requests => (TestScenario.prepareSpam env requests scenario).state
  | .collect batch => (TestScenario.collectPendingBatch batch scenario).state

/-- The scenario after a sequence of events. -/
def play (scenario : TestScenario) (events : List AdderEvent) : TestScenario :=
  events.foldl apply scenario

/-- All gas bumps of a sequence of events. -/
def allBumps (events : List AdderEvent) : List Nat := events.flatMap bumps

end AdderEvent

/-! ### Preparing a batch -/

namespace TestScenario

theorem untouched_gasPriceAdder : Untouched gasPriceAdder :=
  ⟨fun _ _ => rfl, fun _ _ => rfl, fun _ _ => rfl, fun _ _ => rfl⟩

theorem keeps_prepareTxRequest (env : Env) (gasPrice blobGasPrice : Nat)
    (tx : TransactionRequest) :
    Keeps gasPriceAdder (prepareTxRequest env gasPrice blobGasPrice tx) := by
  refine (keeps_takeNonce (fun _ _ => rfl) tx).bind fun _ => ?_
  refine (keeps_updateGasMap untouched_gasPriceAdder env tx blobGasPrice).bind fun _ => ?_
  exact Keeps.get.bind fun _ => (keeps_okOr _ _).bind fun _ => (keeps_okOr _ _).bind fun _ =>
    Keeps.pure _

theorem keeps_prepareSigned (env : Env) (gasPrice blobGasPrice : Nat) (req : NamedTxRequest) :
    Keeps gasPriceAdder (prepareSigned env gasPrice blobGasPrice req) :=
  (keeps_prepareTxRequest env gasPrice blobGasPrice req.tx).bind fun _ =>
    (keeps_ofExcept _ _).bind fun _ => Keeps.pure _

theorem keeps_preparePayload (env : Env) (gasPrice blobGasPrice : Nat)
    (request : ExecutionRequest) :
    Keeps gasPriceAdder (preparePayload env gasPrice blobGasPrice request) := by
  cases request with
  | tx req => exact (keeps_prepareSigned env gasPrice blobGasPrice req).bind fun _ => Keeps.pure _
  | bundle reqs =>
    have hsigned : Keeps gasPriceAdder
        (reqs.mapM (prepareSigned env gasPrice blobGasPrice) >>= fun signed =>
          pure (ExecutionPayload.signedTxBundle (signed.map Prod.fst) reqs)) :=
      (Keeps.mapM (keeps_prepareSigned env gasPrice blobGasPrice) reqs).bind fun _ => Keeps.pure _
    apply Keeps.get.bind
    intro scenario
    split
    · exact Keeps.bind (Keeps.throw _) fun _ => hsigned
    · exact hsigned

/-- Preparing a batch reads the adder and leaves it as it is. -/
theorem keeps_prepareSpam (env : Env) (requests : List ExecutionRequest) :
    Keeps gasPriceAdder (prepareSpam env requests) :=
  (keeps_batchGasPrices untouched_gasPriceAdder env).bind fun prices =>
    Keeps.mapM (keeps_preparePayload env prices.1 prices.2) requests

end TestScenario

/-! ### Collecting a batch -/

/-- Bumps of a batch move the adder up, by no more than their sum, and the sum
stays in range. -/
theorem foldlM_bumpGas_le {start adder : Int} {bumps : List Nat} (hstart : 0 ≤ start)
    (hle : start ≤ adder) (hbumps : ∀ b ∈ bumps, IsBump b)
    (hfits : adder + bumps.sum < 2 ^ 127) :
    ∃ next, bumps.foldlM (bumpGas start) adder = some next ∧
      adder ≤ next ∧ next ≤ adder + bumps.sum := by
  induction bumps generalizing adder with
  | nil => exact ⟨adder, rfl, le_rfl, by simp⟩
  | cons b bumps ih =>
    obtain ⟨hb, hbumps⟩ := List.forall_mem_cons.mp hbumps
    rw [List.sum_cons, Nat.cast_add] at hfits ⊢
    have hwanted : addI128 (asI128 b) start = some (b + start) := by
      rw [asI128_of_isBump hb]
      exact addI128_eq_some.mpr ⟨⟨by omega, by omega⟩, rfl⟩
    have hstep : bumpGas start adder b =
        if adder ≥ b + start then some adder else addI128 adder b := by
      unfold bumpGas
      rw [hwanted, asI128_of_isBump hb]
      rfl
    rw [List.foldlM_cons, hstep]
    split_ifs with hreached
    · -- the batch has raised the adder as far already
      obtain ⟨next, hnext, hlow, hhigh⟩ := ih hle hbumps (by omega)
      exact ⟨next, hnext, hlow, by omega⟩
    · have hsum : addI128 adder b = some (adder + b) :=
        addI128_eq_some.mpr ⟨⟨by omega, by omega⟩, rfl⟩
      have hraised : start ≤ adder + b := by omega
      obtain ⟨next, hnext, hlow, hhigh⟩ := ih hraised hbumps (by omega)
      rw [hsum]
      exact ⟨next, hnext, by omega, by omega⟩

theorem gasAfterBumps_le {start : Int} {bumps : List Nat} (hstart : 0 ≤ start)
    (hbumps : ∀ b ∈ bumps, IsBump b) (hfits : start + bumps.sum < 2 ^ 127) :
    ∃ next, gasAfterBumps start bumps = some next ∧ start ≤ next ∧ next ≤ start + bumps.sum :=
  foldlM_bumpGas_le hstart le_rfl hbumps hfits

/-- Taking back a tenth rounds towards zero. -/
theorem add_tdiv_neg_ten {adder : Int} (h : 0 ≤ adder) :
    adder + adder.tdiv (-10) = adder - adder / 10 := by
  rw [Int.tdiv_neg, Int.tdiv_eq_ediv_of_nonneg h, Int.sub_eq_add_neg]

/-- The adder that a batch leaves behind when its bumps have made it `adder`. -/
def PendingBatch.takenBack (batch : PendingBatch) (adder : Int) : Int :=
  if batch.successes = batch.numPayloads then adder - adder / 10 else adder

theorem PendingBatch.takenBack_bounds (batch : PendingBatch) {adder : Int} (h : 0 ≤ adder) :
    0 ≤ batch.takenBack adder ∧ batch.takenBack adder ≤ adder := by
  unfold takenBack
  split_ifs <;> omega

namespace TestScenario

theorem takeBackGas_adder (batch : PendingBatch) {s : TestScenario} (h : 0 ≤ s.gasPriceAdder) :
    ∃ t, takeBackGas batch s = .ok () t ∧
      t.gasPriceAdder = batch.takenBack s.gasPriceAdder := by
  unfold takeBackGas PendingBatch.takenBack
  split_ifs with hall
  · refine ⟨_, modify_eq_ok.mpr rfl, ?_⟩
    split_ifs with hpos
    · exact add_tdiv_neg_ten h
    · omega
  · exact ⟨s, pure_eq_ok.mpr ⟨rfl, rfl⟩, rfl⟩

/-- How collecting a batch ends: before the bumps are read, between the bumps and
the end, or at the end. -/
theorem collectPendingBatch_adder {batch : PendingBatch} {s : TestScenario} {next : Int}
    (hnonneg : 0 ≤ next) (hnext : gasAfterBumps s.gasPriceAdder batch.addGas = some next) :
    (batch.awaited ≠ .ok () ∧ ∃ e, collectPendingBatch batch s = .error e s) ∨
      (nonceAdjustments batch.shiftNonce = none ∧
        ∃ e t, collectPendingBatch batch s = .error e t ∧ t.gasPriceAdder = next) ∨
      ∃ t, collectPendingBatch batch s = .ok () t ∧
        t.gasPriceAdder = batch.takenBack next := by
  cases hawaited : batch.awaited with
  | error message =>
    refine .inl ⟨by simp, .batchFailed message, ?_⟩
    unfold collectPendingBatch
    rw [hawaited]
    rfl
  | ok u =>
    let bumped : TestScenario := { s with gasPriceAdder := next }
    have hrun : collectPendingBatch batch s =
        (okOr .panic (nonceAdjustments batch.shiftNonce) >>= fun adjustments =>
          modify (fun scenario => { scenario with
            nonces := applyAdjustments adjustments.entries scenario.nonces }) >>= fun _ =>
          takeBackGas batch) bumped := by
      unfold collectPendingBatch
      rw [hawaited]
      change (okOr .panic (gasAfterBumps s.gasPriceAdder batch.addGas) >>= _) s = _
      rw [hnext]
      rfl
    cases hadjust : nonceAdjustments batch.shiftNonce with
    | none =>
      rw [hadjust] at hrun
      exact .inr (.inl ⟨rfl, .panic, bumped, hrun, rfl⟩)
    | some adjustments =>
      rw [hadjust] at hrun
      let shifted : TestScenario :=
        { bumped with nonces := applyAdjustments adjustments.entries bumped.nonces }
      obtain ⟨t, ht, hadder⟩ := takeBackGas_adder batch (s := shifted) hnonneg
      exact .inr (.inr ⟨t, hrun.trans ht, hadder⟩)

end TestScenario

/-! ### Runs -/

namespace AdderEvent

/-- One event moves the adder up by at most its bumps, and never below zero. -/
theorem apply_adder {event : AdderEvent} {s : TestScenario} (hstart : 0 ≤ s.gasPriceAdder)
    (hbumps : ∀ b ∈ event.bumps, IsBump b)
    (hfits : s.gasPriceAdder + event.bumps.sum < 2 ^ 127) :
    0 ≤ (apply s event).gasPriceAdder ∧
      (apply s event).gasPriceAdder ≤ s.gasPriceAdder + event.bumps.sum := by
  cases event with
  | prepare env requests =>
    have hkept : (apply s (.prepare env requests)).gasPriceAdder = s.gasPriceAdder :=
      TestScenario.keeps_prepareSpam env requests s
    rw [hkept]
    exact ⟨hstart, by simp [bumps]⟩
  | collect batch =>
    obtain ⟨next, hnext, hlow, hhigh⟩ := gasAfterBumps_le hstart hbumps hfits
    have htaken := batch.takenBack_bounds (hstart.trans hlow)
    simp only [apply, bumps] at hhigh ⊢
    rcases TestScenario.collectPendingBatch_adder (hstart.trans hlow) hnext with
      ⟨-, e, hrun⟩ | ⟨-, e, t, hrun, hadder⟩ | ⟨t, hrun, hadder⟩
    · rw [hrun]
      exact ⟨hstart, hlow.trans hhigh⟩
    · rw [hrun]
      change 0 ≤ t.gasPriceAdder ∧ t.gasPriceAdder ≤ _
      rw [hadder]
      exact ⟨hstart.trans hlow, hhigh⟩
    · rw [hrun]
      change 0 ≤ t.gasPriceAdder ∧ t.gasPriceAdder ≤ _
      rw [hadder]
      exact ⟨htaken.1, htaken.2.trans hhigh⟩

/-- Along a run the adder stays between zero and the sum of the bumps. -/
theorem play_adder {events : List AdderEvent} {s : TestScenario} (hstart : 0 ≤ s.gasPriceAdder)
    (hbumps : ∀ b ∈ allBumps events, IsBump b)
    (hfits : s.gasPriceAdder + (allBumps events).sum < 2 ^ 127) :
    0 ≤ (play s events).gasPriceAdder ∧
      (play s events).gasPriceAdder ≤ s.gasPriceAdder + (allBumps events).sum := by
  induction events generalizing s with
  | nil => exact ⟨hstart, by simp [play, allBumps]⟩
  | cons event events ih =>
    rw [allBumps, List.flatMap_cons, List.sum_append, Nat.cast_add] at hfits ⊢
    rw [allBumps, List.flatMap_cons, List.forall_mem_append] at hbumps
    obtain ⟨hlow, hhigh⟩ := apply_adder hstart hbumps.1 (by omega)
    have hrest : (apply s event).gasPriceAdder + (allBumps events).sum < 2 ^ 127 := by
      unfold allBumps
      omega
    obtain ⟨hplayLow, hplayHigh⟩ := ih hlow hbumps.2 hrest
    refine ⟨hplayLow, hplayHigh.trans ?_⟩
    unfold allBumps
    omega

/-- **The adder of a run.** In a run from adder zero whose bumps sum to less than
`2 ^ 127`, the adder is never negative, no bump overflows, prices are never lowered,
and a batch that was sent completely and without bumps takes back a tenth. -/
theorem adder_of_run {s : TestScenario} {done rest : List AdderEvent}
    (hstart : s.gasPriceAdder = 0) (hbumps : ∀ b ∈ allBumps (done ++ rest), IsBump b)
    (hfits : (allBumps (done ++ rest)).sum < 2 ^ 127) :
    0 ≤ (play s done).gasPriceAdder ∧
      (∀ price, TestScenario.adjustedGasPrice (play s done).gasPriceAdder price =
        toU128 (price + (play s done).gasPriceAdder.toNat)) ∧
      ∀ batch events, rest = .collect batch :: events →
        (∃ next, gasAfterBumps (play s done).gasPriceAdder batch.addGas = some next ∧
          0 ≤ next) ∧
        (batch.addGas = [] → batch.successes = batch.numPayloads → batch.awaited = .ok () →
          (nonceAdjustments batch.shiftNonce).isSome →
            ∃ t, TestScenario.collectPendingBatch batch (play s done) = .ok () t ∧
              t.gasPriceAdder =
                (play s done).gasPriceAdder - (play s done).gasPriceAdder / 10) := by
  rw [allBumps, List.flatMap_append] at hbumps hfits
  rw [List.sum_append] at hfits
  rw [List.forall_mem_append] at hbumps
  have hdone : s.gasPriceAdder + (allBumps done).sum < 2 ^ 127 := by
    rw [hstart]
    unfold allBumps
    omega
  obtain ⟨hlow, hhigh⟩ := play_adder hstart.ge hbumps.1 hdone
  rw [hstart] at hhigh
  refine ⟨hlow, fun price => if_neg (by omega), ?_⟩
  rintro batch events rfl
  rw [List.flatMap_cons, List.forall_mem_append] at hbumps
  rw [List.flatMap_cons, List.sum_append] at hfits
  have hbatch : (play s done).gasPriceAdder + batch.addGas.sum < 2 ^ 127 := by
    have : (bumps (.collect batch)).sum = batch.addGas.sum := rfl
    unfold allBumps at hhigh
    omega
  obtain ⟨next, hnext, hraised, -⟩ :
      ∃ next, gasAfterBumps (play s done).gasPriceAdder batch.addGas = some next ∧
        (play s done).gasPriceAdder ≤ next ∧ _ :=
    gasAfterBumps_le hlow hbumps.2.1 hbatch
  refine ⟨⟨next, hnext, hlow.trans hraised⟩, fun hnone hall hawaited hadjust => ?_⟩
  rcases TestScenario.collectPendingBatch_adder (hlow.trans hraised) hnext with
    ⟨hfailed, -⟩ | ⟨hoverflow, -⟩ | ⟨t, hrun, hadder⟩
  · exact absurd hawaited hfailed
  · rw [hoverflow] at hadjust
    cases hadjust
  · rw [hnone] at hnext
    obtain rfl := Option.some.inj hnext
    exact ⟨t, hrun, by rw [hadder, PendingBatch.takenBack, if_pos hall]⟩

/-! ### A bump and a batch that is sent completely -/

namespace BumpedOnce

def scenario : TestScenario where
  nonces := ∅
  gasLimits := ∅
  signerMap := ∅
  setcodeSigner := ⟨1, 1⟩
  txType := .legacy
  chainId := 1
  gasPrice := none
  gasPriceAdder := 0
  lastFetchedGasPrice := none
  lastFetchedBlobGasPrice := none
  hasBundleClient := false
  rpcCalls := 0

/-- One of two transactions is rejected as underpriced. -/
def bumped : PendingBatch := ⟨.ok (), [100000005], [], 1, 2⟩

/-- Both transactions are sent. -/
def sent : PendingBatch := ⟨.ok (), [], [], 2, 2⟩

theorem play_bumped : (play scenario [.collect bumped]).gasPriceAdder = 100000005 := rfl

theorem adder_of_sent :
    scenario.gasPriceAdder = 0 ∧ (play scenario [.collect bumped]).gasPriceAdder = 100000005 ∧
      ∃ t, TestScenario.collectPendingBatch sent (play scenario [.collect bumped]) = .ok () t ∧
        t.gasPriceAdder = 90000005 := by
  have hbumps : ∀ b ∈ allBumps ([.collect bumped] ++ [.collect sent]), IsBump b := by
    unfold IsBump
    decide
  obtain ⟨-, -, hrest⟩ := @adder_of_run scenario [.collect bumped] [.collect sent] rfl hbumps
    (by decide)
  obtain ⟨t, hrun, hadder⟩ := (hrest sent [] rfl).2 rfl rfl rfl rfl
  rw [play_bumped] at hadder
  exact ⟨rfl, play_bumped, t, hrun, hadder⟩

end BumpedOnce

end AdderEvent

end Contender
