import Contender.Scenario.BatchNonces
import Contender.Semantics.Execution

/-!
# The gas limits of a run

`update_gas_map` caches the gas limit of a request under the hash of its call
data, and the cache is never emptied. A request that finds an entry gets the limit
of the request that made it, whatever gas that one set, whomever it called and
with what value.

A run is a sequence of `prepare_tx_request` calls on one scenario. Between two
calls the scenario may change in any way, apart from the cache. The calls that
filled the cache are recorded beside the scenario.

## Main results

* `ownLimit_of_run` — when every prepared transaction gets a limit of its own
-/

namespace Contender

open EStateM ScenarioM

/-- The arguments of `prepare_tx_request`. -/
structure PrepareCall where
  tx : TransactionRequest
  gasPrice : Nat
  blobGasPrice : Nat
  deriving DecidableEq, Repr

namespace PrepareCall

def key (env : Env) (call : PrepareCall) : BitVec 256 := call.tx.key env

/-- The request an estimate is asked for. -/
def request (call : PrepareCall) : TransactionRequest := call.tx.forEstimate call.blobGasPrice

/-- The two requests have the same recipient, call data and value. -/
def SameTarget (asked call : PrepareCall) : Prop :=
  asked.tx.toKind = call.tx.toKind ∧ asked.tx.input.getD [] = call.tx.input.getD [] ∧
    asked.tx.value.getD 0 = call.tx.value.getD 0

instance (asked call : PrepareCall) : Decidable (SameTarget asked call) :=
  inferInstanceAs (Decidable (_ ∧ _ ∧ _))

/-- The two requests set the same gas, or both set none and call the same. -/
def Agrees (filler call : PrepareCall) : Prop :=
  filler.tx.gas = call.tx.gas ∧ (call.tx.gas = none → SameTarget filler call)

instance (filler call : PrepareCall) : Decidable (Agrees filler call) :=
  inferInstanceAs (Decidable (_ ∧ (_ → _)))

theorem Agrees.refl (call : PrepareCall) : Agrees call call :=
  ⟨rfl, fun _ => ⟨rfl, rfl, rfl⟩⟩

/-- A limit the call may put into the cache: the gas it sets, or an answer of the
node. -/
def MayFill (env : Env) (call : PrepareCall) (limit : Nat) : Prop :=
  call.tx.gas = some limit ∨
    call.tx.gas = none ∧ ∃ i, (env.node i).estimateGas call.request = .ok limit

end PrepareCall

/-- A scenario with the calls that filled its cache, and the limits they put
there. -/
structure GasRun where
  scenario : TestScenario
  fills : List (PrepareCall × Nat)

inductive GasEvent
  | prepare (call : PrepareCall)
  /-- Everything but the cache may change. -/
  | between (scenario : TestScenario)

namespace GasRun

/-- The scenario after a call, whether it fails or not. -/
def afterCall (env : Env) (s : TestScenario) (call : PrepareCall) : TestScenario :=
  (TestScenario.prepareTxRequest env call.gasPrice call.blobGasPrice call.tx s).state

/-- The entry a call has made. -/
def newFill (env : Env) (s : TestScenario) (call : PrepareCall) : Option (PrepareCall × Nat) :=
  if (s.gasLimits.lookup (call.key env)).isSome then none
  else ((afterCall env s call).gasLimits.lookup (call.key env)).map fun limit => (call, limit)

def prepare (env : Env) (run : GasRun) (call : PrepareCall) : GasRun where
  scenario := afterCall env run.scenario call
  fills := run.fills ++ (newFill env run.scenario call).toList

def step (env : Env) (run : GasRun) : GasEvent → Option GasRun
  | .prepare call => some (run.prepare env call)
  | .between scenario =>
    some { run with scenario := { scenario with gasLimits := run.scenario.gasLimits } }

/-- Before a call: the call that made the entry it will find agrees with it. -/
def FillerAgrees (env : Env) (run : GasRun) : GasEvent → Prop
  | .prepare call =>
    ∀ fill ∈ run.fills, fill.1.key env = call.key env → fill.1.Agrees call
  | .between _ => True

instance (env : Env) (run : GasRun) (event : GasEvent) : Decidable (FillerAgrees env run event) :=
  match event with
  | .prepare call =>
    inferInstanceAs (Decidable (∀ fill ∈ run.fills, fill.1.key env = call.key env → _))
  | .between _ => isTrue trivial

/-- The limit is the gas that the request sets; when it sets none, it is one that
the node returned to some call for a request with the same target. -/
def OwnLimit (env : Env) (run : GasRun) (call : PrepareCall) (limit : Nat) : Prop :=
  match call.tx.gas with
  | some gas => limit = gas
  | none => ∃ asked, (asked, limit) ∈ run.fills ∧ asked.tx.gas = none ∧ asked.SameTarget call ∧
      ∃ i, (env.node i).estimateGas asked.request = .ok limit

end GasRun

/-! ### What a call does to the cache -/

theorem TransactionRequest.forEstimate_gas (tx : TransactionRequest) (blobGasPrice : Nat) :
    (tx.forEstimate blobGasPrice).gas = tx.gas := by
  simp only [forEstimate]
  split
  · split_ifs <;> split <;> rfl
  · split <;> rfl

@[simp] theorem TransactionRequest.complete_gas (tx : TransactionRequest) (txType : TxType)
    (gasPrice priorityFee gasLimit chainId blobGasPrice : Nat) :
    (tx.complete txType gasPrice priorityFee gasLimit chainId blobGasPrice).gas = some gasLimit :=
  rfl

theorem returns_rpcCall {α : Type} (env : Env) (ask : NodeView → Except Text α) :
    Returns (fun answer => ∃ i, answer = ask (env.node i)) (rpcCall env ask) := by
  refine Returns.bind (Returns.true _) fun scenario _ => ?_
  exact Returns.bind (Returns.true _) fun _ _ => Returns.pure ⟨scenario.rpcCalls, rfl⟩

theorem returns_ofExcept {α : Type} (e : Text → ScenarioError) (r : Except Text α) :
    Returns (fun a => r = .ok a) (ofExcept e r) := by
  intro s a t hrun
  exact (ofExcept_eq_ok.mp hrun).1

namespace TestScenario

/-- A request that sets no gas gets an answer of the node. -/
theorem returns_estimateGasLimit (env : Env) (tx : TransactionRequest) :
    Returns (fun limit => tx.gas = some limit ∨
      tx.gas = none ∧ ∃ i, (env.node i).estimateGas tx = .ok limit) (estimateGasLimit env tx) := by
  have hestimate (hgas : tx.gas = none) : Returns (fun limit => tx.gas = some limit ∨
      tx.gas = none ∧ ∃ i, (env.node i).estimateGas tx = .ok limit)
        (rpcCall env (·.estimateGas tx) >>= ofExcept .rpc) := by
    refine (returns_rpcCall env _).bind fun answer hanswer => ?_
    obtain ⟨i, rfl⟩ := hanswer
    intro s limit t hrun
    exact .inr ⟨hgas, i, returns_ofExcept _ _ s limit t hrun⟩
  unfold estimateGasLimit
  split
  · rename_i gas hgas
    exact Returns.pure (.inl hgas)
  · rename_i hgas
    -- the code of the recipient may be looked up first
    split
    · split
      · exact Returns.bind (Returns.true _) fun _ _ =>
          Returns.bind (Returns.true _) fun _ _ => hestimate hgas
      · exact hestimate hgas
    · exact hestimate hgas

theorem keeps_takeNonce {γ : Type} {part : TestScenario → γ}
    (hpart : ∀ s nonces, part { s with nonces } = part s) (tx : TransactionRequest) :
    Keeps part (takeNonce tx) := by
  refine (keeps_okOr _ _).bind fun sender => Keeps.get.bind fun scenario => ?_
  refine (keeps_okOr _ _).bind fun nonce => (keeps_okOr _ _).bind fun setcodeNonce => ?_
  refine (keeps_okOr _ _).bind fun next => ?_
  refine Keeps.bind (Keeps.update fun s => hpart s _) fun _ => ?_
  split
  · exact (keeps_okOr _ _).bind fun _ =>
      Keeps.bind (Keeps.update fun s => hpart s _) fun _ => Keeps.pure _
  · exact Keeps.pure _

/-- The cache after a call: as it was, or with a new entry that the call may
make. -/
def Cached (env : Env) (call : PrepareCall) (s t : TestScenario) : Prop :=
  t.gasLimits = s.gasLimits ∨ s.gasLimits.lookup (call.key env) = none ∧
    ∃ limit, call.MayFill env limit ∧ t.gasLimits = s.gasLimits.insert (call.key env) limit

theorem cached_updateGasMap (env : Env) (call : PrepareCall) (s : TestScenario) :
    Cached env call s (updateGasMap env call.tx call.blobGasPrice s).state := by
  cases hentry : s.gasLimits.lookup (call.tx.key env) with
  | some limit =>
    have hrun : updateGasMap env call.tx call.blobGasPrice s = .ok (call.tx.key env) s := by
      simp only [updateGasMap, run_get_bind, hentry]
      rfl
    rw [hrun]
    exact .inl rfl
  | none =>
    have hkept : Keeps TestScenario.gasLimits (estimateGasLimit env call.request) :=
      keeps_estimateGasLimit (fun _ _ => rfl) env call.request
    cases hestimate : estimateGasLimit env call.request s with
    | error e t =>
      have hrun : updateGasMap env call.tx call.blobGasPrice s = .error e t := by
        simp only [updateGasMap, run_get_bind, hentry]
        exact bind_eq_error.mpr (.inl hestimate)
      rw [hrun]
      exact .inl (hkept.of_error hestimate)
    | ok limit t =>
      have hrun : updateGasMap env call.tx call.blobGasPrice s = .ok (call.tx.key env)
          { t with gasLimits := t.gasLimits.insert (call.tx.key env) limit } := by
        simp only [updateGasMap, run_get_bind, hentry]
        exact bind_eq_ok.mpr ⟨limit, t, hestimate, rfl⟩
      have hfill := returns_estimateGasLimit env call.request s limit t hestimate
      rw [PrepareCall.request, TransactionRequest.forEstimate_gas] at hfill
      rw [hrun]
      refine .inr ⟨hentry, limit, hfill, ?_⟩
      change t.gasLimits.insert _ limit = _
      rw [hkept.of_ok hestimate]
      rfl

theorem returns_updateGasMap (env : Env) (call : PrepareCall) :
    Returns (fun key => call.key env = key) (updateGasMap env call.tx call.blobGasPrice) := by
  refine Returns.bind (Returns.true _) fun scenario _ => ?_
  split
  · exact Returns.pure rfl
  · exact Returns.bind (Returns.true _) fun _ _ =>
      Returns.bind (Returns.true _) fun _ _ => Returns.pure rfl

/-- The rest of the preparation does not touch the cache. -/
theorem cached_prepareTxRequest (env : Env) (call : PrepareCall) :
    Relates (Cached env call)
      (prepareTxRequest env call.gasPrice call.blobGasPrice call.tx) := by
  have hsame (s t u : TestScenario) (h : t.gasLimits = s.gasLimits) (hu : Cached env call t u) :
      Cached env call s u := by
    unfold Cached at hu ⊢
    rwa [← h]
  have hkept (s t u : TestScenario) (ht : Cached env call s t) (h : u.gasLimits = t.gasLimits) :
      Cached env call s u := by
    unfold Cached at ht ⊢
    rwa [h]
  refine Relates.comp (R := fun s t : TestScenario => t.gasLimits = s.gasLimits)
    (keeps_takeNonce (fun _ _ => rfl) call.tx) (fun p => ?_) (fun _ _ => .inl) hsame
  refine Relates.comp (cached_updateGasMap env call) (fun key => ?_) (fun _ _ h => h) hkept
  exact Keeps.get.bind fun _ => (keeps_okOr _ _).bind fun _ => (keeps_okOr _ _).bind fun _ =>
    Keeps.pure _

/-- A prepared request has the limit that the cache holds for it. -/
theorem prepareTxRequest_gas {env : Env} {call : PrepareCall} {s t : TestScenario}
    {filled : TransactionRequest} {signer : PrivateKeySigner}
    (h : prepareTxRequest env call.gasPrice call.blobGasPrice call.tx s = .ok (filled, signer) t) :
    ∃ limit, filled.gas = some limit ∧ t.gasLimits.lookup (call.key env) = some limit := by
  simp only [prepareTxRequest, bind_eq_ok, okOr_eq_ok, get_eq_ok, pure_eq_ok, Prod.mk.injEq] at h
  obtain ⟨_, u, -, key, v, hgas, _, _, ⟨rfl, rfl⟩, limit, _, ⟨hlimit, rfl⟩, _, _, ⟨-, rfl⟩,
    ⟨rfl, -⟩, rfl⟩ := h
  obtain rfl : call.key env = key := returns_updateGasMap env call u key v hgas
  exact ⟨limit, TransactionRequest.complete_gas _ _ _ _ _ _ _, hlimit⟩

end TestScenario

/-! ### Runs -/

namespace GasRun

section Runs

variable {env : Env}

/-- Every entry of the cache was made by a call, with a limit that the call may
make. -/
structure Recorded (env : Env) (run : GasRun) : Prop where
  entries : ∀ key limit, run.scenario.gasLimits.lookup key = some limit →
    ∃ filler, (filler, limit) ∈ run.fills ∧ filler.key env = key
  fills : ∀ fill ∈ run.fills, fill.1.MayFill env fill.2

theorem Recorded.prepare {run : GasRun} (h : Recorded env run) (call : PrepareCall) :
    Recorded env (run.prepare env call) := by
  have hcached : TestScenario.Cached env call run.scenario (afterCall env run.scenario call) :=
    TestScenario.cached_prepareTxRequest env call run.scenario
  rcases hcached with hsame | ⟨hnone, limit, hfill, hinsert⟩
  · -- nothing new: a call without an entry before has none now
    have hfills : newFill env run.scenario call = none := by
      unfold newFill
      split_ifs with hentry
      · rfl
      · rw [hsame, Option.not_isSome_iff_eq_none.mp hentry]
        rfl
    constructor
    · intro key limit hlimit
      have hlimit' : (afterCall env run.scenario call).gasLimits.lookup key = some limit := hlimit
      rw [hsame] at hlimit'
      obtain ⟨filler, hfiller, hkey⟩ := h.entries key limit hlimit'
      exact ⟨filler, List.mem_append_left _ hfiller, hkey⟩
    · intro fill hfill
      simp only [GasRun.prepare, hfills, Option.toList_none, List.append_nil] at hfill
      exact h.fills fill hfill
  · have hfills : newFill env run.scenario call = some (call, limit) := by
      unfold newFill
      rw [hnone, if_neg (by simp), hinsert, AList.lookup_insert]
      rfl
    constructor
    · intro key limit' hlimit
      have hlimit' : (afterCall env run.scenario call).gasLimits.lookup key = some limit' := hlimit
      rw [hinsert] at hlimit'
      by_cases hkey : key = call.key env
      · subst hkey
        rw [AList.lookup_insert] at hlimit'
        obtain rfl := Option.some.inj hlimit'
        refine ⟨call, List.mem_append_right _ ?_, rfl⟩
        rw [hfills]
        exact List.mem_singleton.mpr rfl
      · rw [AList.lookup_insert_ne hkey] at hlimit'
        obtain ⟨filler, hfiller, hkey'⟩ := h.entries key limit' hlimit'
        exact ⟨filler, List.mem_append_left _ hfiller, hkey'⟩
    · intro fill hmem
      rcases List.mem_append.mp hmem with hmem | hmem
      · exact h.fills fill hmem
      · rw [hfills] at hmem
        obtain rfl := List.mem_singleton.mp hmem
        exact hfill

theorem Recorded.step {run next : GasRun} {event : GasEvent} (h : Recorded env run)
    (hstep : step env run event = some next) : Recorded env next := by
  cases event with
  | prepare call =>
    obtain rfl := Option.some.inj hstep
    exact h.prepare call
  | between scenario =>
    obtain rfl := Option.some.inj hstep
    exact ⟨h.entries, h.fills⟩

theorem recorded_of_run {s : TestScenario} (hempty : s.gasLimits = ∅) {w : List GasEvent}
    {run : GasRun} (hrun : Semantics.Execution.run (step env) ⟨s, []⟩ w = some run) :
    Recorded env run := by
  have hinitial : Recorded env ⟨s, []⟩ := by
    refine ⟨fun key limit hlimit => ?_, fun fill hfill => absurd hfill List.not_mem_nil⟩
    rw [hempty] at hlimit
    exact nomatch (AList.lookup_empty key).symm.trans hlimit
  exact Semantics.Execution.invariant (fun _ _ _ _ hstep h => h.step hstep) hinitial hrun
    (Semantics.Execution.along_true _ w)

/-- **Own limits.** In every run on a new scenario in which each call agrees with
the call whose entry it finds, each prepared transaction has the gas limit it
sets, or one that the node returned for the same target. -/
theorem ownLimit_of_run {s : TestScenario} (hempty : s.gasLimits = ∅) {w : List GasEvent}
    {run : GasRun} {call : PrepareCall}
    (hrun : Semantics.Execution.run (step env) ⟨s, []⟩ w = some run)
    (hagrees : Semantics.Execution.Along (step env) (FillerAgrees env) ⟨s, []⟩
      (w ++ [.prepare call]))
    {filled : TransactionRequest} {signer : PrivateKeySigner} {t : TestScenario}
    (h : TestScenario.prepareTxRequest env call.gasPrice call.blobGasPrice call.tx run.scenario =
      .ok (filled, signer) t) :
    ∃ limit, filled.gas = some limit ∧ OwnLimit env (run.prepare env call) call limit := by
  have hafter := (recorded_of_run hempty hrun).prepare call
  obtain ⟨limit, hgas, hlimit⟩ := TestScenario.prepareTxRequest_gas h
  have hstate : (run.prepare env call).scenario = t := by
    change (TestScenario.prepareTxRequest _ _ _ _ _).state = t
    rw [h]
    rfl
  rw [← hstate] at hlimit
  obtain ⟨filler, hfiller, hkey⟩ := hafter.entries _ _ hlimit
  have hmay := hafter.fills _ hfiller
  -- the entry was there before, or the call has made it itself
  have hagree : filler.Agrees call := by
    rcases List.mem_append.mp hfiller with hbefore | hnew
    · exact (hagrees.right hrun).1 _ hbefore hkey
    · obtain ⟨_, -, hpair⟩ : ∃ limit', _ ∧ (call, limit') = (filler, limit) := by
        have hnew' := Option.mem_toList.mp hnew
        unfold newFill at hnew'
        split_ifs at hnew'
        exact Option.map_eq_some_iff.mp hnew'
      obtain rfl := (Prod.mk.inj hpair).1
      exact .refl call
  refine ⟨limit, hgas, ?_⟩
  unfold OwnLimit
  cases hcall : call.tx.gas with
  | some gas =>
    rcases hmay with hset | ⟨hunset, -⟩
    · exact Option.some.inj (hset.symm.trans (hagree.1.trans hcall))
    · exact nomatch hunset.symm.trans (hagree.1.trans hcall)
  | none =>
    rcases hmay with hset | ⟨hunset, hanswer⟩
    · exact nomatch hset.symm.trans (hagree.1.trans hcall)
    · exact ⟨filler, hfiller, hunset, hagree.2 hcall, hanswer⟩

end Runs

namespace Transfers

open TestScenario

/-- A node that estimates a transfer. -/
def env : Env where
  keccak256 := MixedBatch.env.keccak256
  toLowercase := MixedBatch.env.toLowercase
  build := MixedBatch.env.build
  node _ :=
    { getGasPrice := .ok 1000
      getBlobBaseFee := .ok 1
      getCodeAt := fun _ => .ok []
      estimateGas := fun _ => .ok 21000 }

/-- A transfer of account 7, with or without a gas limit. -/
def transfer (recipient : Address) (gas : Option Nat) : PrepareCall where
  tx := { fromAddr := some 7, toKind := some (.call recipient), gas := gas }
  gasPrice := 1000
  blobGasPrice := 0

/-- Transfers have no call data, so that they all share one entry: the second one
sets a higher limit and is sent with that of the first one. -/
theorem not_ownLimit_of_higherGas :
    ∃ run filled signer t,
      Semantics.Execution.run (step env) ⟨MixedBatch.scenario, []⟩
        [.prepare (transfer 9 (some 21000))] = some run ∧
      prepareTxRequest env 1000 0 (transfer 9 (some 50000)).tx run.scenario =
        .ok (filled, signer) t ∧
      ¬∃ limit, filled.gas = some limit ∧
        OwnLimit env (run.prepare env (transfer 9 (some 50000))) (transfer 9 (some 50000))
          limit := by
  refine ⟨_, _, _, _, rfl, rfl, ?_⟩
  rintro ⟨limit, hgas, hown⟩
  obtain rfl : 50000 = limit := hown.symm
  exact absurd hgas (by decide +kernel)

/-- The second transfer sets no gas and has the target of the first one. -/
theorem ownLimit_of_sameTarget :
    ∃ run filled signer t,
      Semantics.Execution.run (step env) ⟨MixedBatch.scenario, []⟩
        [.prepare (transfer 9 none), .between MixedBatch.scenario] = some run ∧
      prepareTxRequest env 1000 0 (transfer 9 none).tx run.scenario = .ok (filled, signer) t ∧
      ∃ limit, filled.gas = some limit ∧
        OwnLimit env (run.prepare env (transfer 9 none)) (transfer 9 none) limit := by
  refine ⟨_, _, _, _, rfl, rfl, ?_⟩
  exact ownLimit_of_run (s := MixedBatch.scenario)
    (w := [.prepare (transfer 9 none), .between MixedBatch.scenario]) rfl rfl
    (by decide +kernel) rfl

end Transfers

end GasRun

end Contender
