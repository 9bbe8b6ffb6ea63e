import Contender.Generator.FuzzValues
import Contender.Generator.StepCoverage

/-!
# The layout of the spam plan

With `S` steps and `n` requests asked for, `load_txs(PlanType::Spam)` generates
`⌈n / S⌉` requests for each step, step after step. The number of a request within its
step selects its sender from the pool and its values from the fuzz map, which holds
values for all requests of the plan. `get_spam_tx_chunks` cuts the list up again, into
chunks of another length.
-/

namespace Contender.Generator

variable {g : Generator}

/-- The number of requests of a step: the requests asked for, shared out and rounded
up. -/
def perStep (numTxs numSteps : Nat) : Nat := (numTxs + numSteps - 1) / numSteps

/-- The call is sent by the account of its pool at the number of the request, counted
around the pool. -/
def SentFromPool (g : Generator) (i : Nat) (call : FunctionCallDefinition) (r : NamedTxRequest) :
    Prop :=
  ∀ pool, call.fromPool = some pool → ∃ store signer, g.agents.lookup pool = some store ∧
    store.signers[i % store.signers.length]? = some signer ∧ r.tx.fromAddr = some signer.address

/-- The request is the `i`-th one of the step. -/
structure IsRequestOf (g : Generator) (placeholderMap : AssocMap Text Text) (fuzzMap : FuzzMap)
    (i : Nat) (step : SpamRequest) (request : ExecutionRequest) : Prop where
  prepared : g.prepareStep placeholderMap fuzzMap i step = .ok request
  sent : List.Forall₂ (g.SentFromPool i) step.calls request.txs

/-! ### The senders -/

theorem fromAddress_of_pool {call : FunctionCallDefinition} {pool : Text} {i : Nat}
    {sender : Address} (hpool : call.fromPool = some pool) (h : g.fromAddress call i = .ok sender) :
    ∃ store signer, g.agents.lookup pool = some store ∧
      store.signers[i % store.signers.length]? = some signer ∧ signer.address = sender := by
  unfold fromAddress at h
  rw [hpool] at h
  simp only [Except.bind_eq_ok_iff, orError_eq_ok] at h
  obtain ⟨store, hstore, h⟩ := h
  split_ifs at h
  simp only [Except.bind_eq_ok_iff, orError_eq_ok, Except.pure_eq_ok_iff] at h
  obtain ⟨signer, hsigner, haddress⟩ := h
  exact ⟨store, signer, hstore, hsigner, haddress⟩

/-- Filling in the fuzzed values does not touch the sender. -/
theorem sentFromPool_of_prepareTx {placeholderMap : AssocMap Text Text} {fuzzMap : FuzzMap}
    {i : Nat} {call : FunctionCallDefinition} {r : NamedTxRequest}
    (h : g.prepareTx placeholderMap fuzzMap i call = .ok r) : g.SentFromPool i call r := by
  simp only [prepareTx, Except.bind_eq_ok_iff, Except.pure_eq_ok_iff] at h
  obtain ⟨filled, hfilled, strict, hstrict, tx, htx, rfl⟩ := h
  obtain ⟨_, _, _, _, -, -, -, -, rfl⟩ := fillFuzzed_ok hfilled
  intro pool hpool
  simp only [makeStrictCall, Except.bind_eq_ok_iff, Except.pure_eq_ok_iff] at hstrict
  obtain ⟨sender, hsender, auth, -, value, -, sidecar, -, rfl⟩ := hstrict
  obtain ⟨store, signer, hstore, hsigner, rfl⟩ := fromAddress_of_pool hpool hsender
  exact ⟨store, signer, hstore, hsigner, (Foreign.templateFunctionCall_ok htx).2.1⟩

theorem isRequestOf_of_prepareStep {placeholderMap : AssocMap Text Text} {fuzzMap : FuzzMap}
    {i : Nat} {step : SpamRequest} {request : ExecutionRequest}
    (h : g.prepareStep placeholderMap fuzzMap i step = .ok request) :
    g.IsRequestOf placeholderMap fuzzMap i step request :=
  ⟨h, (prepareStep_ok h).imp fun _ _ => sentFromPool_of_prepareTx⟩

/-! ### Positions -/

theorem length_spamPlan (numSteps perStep : Nat) :
    (spamPlan numSteps perStep).length = numSteps * perStep := by
  simp [spamPlan, List.length_flatMap]

/-- The rounds of a step stand one after the other, behind those of the steps before. -/
theorem getElem?_spamPlan {numSteps perStep k i : Nat} (hk : k < numSteps) (hi : i < perStep) :
    (spamPlan numSteps perStep)[k * perStep + i]? = some (k, i) := by
  induction numSteps with
  | zero => omega
  | succ numSteps ih =>
    have hsplit : spamPlan (numSteps + 1) perStep =
        spamPlan numSteps perStep ++ (List.range perStep).map fun i => (numSteps, i) := by
      simp [spamPlan, List.range_succ]
    rw [hsplit, List.getElem?_append, length_spamPlan]
    rcases Nat.lt_succ_iff_lt_or_eq.mp hk with hbefore | rfl
    · have hlt : k * perStep + i < numSteps * perStep := by
        calc k * perStep + i < k * perStep + perStep := by omega
          _ = (k + 1) * perStep := (Nat.succ_mul k perStep).symm
          _ ≤ numSteps * perStep := Nat.mul_le_mul_right perStep hbefore
      rw [if_pos hlt]
      exact ih hbefore
    · rw [if_neg (by omega), Nat.add_sub_cancel_left, List.getElem?_map, List.getElem?_range hi]
      rfl

/-- What the requests of a plan are, in order. -/
theorem loadSpam_ok {numTxs : Nat} {generated : List Generated}
    (h : g.loadSpam numTxs = .ok generated) :
    ∃ total placeholderMap fuzzMap, roundUp numTxs g.spamSteps.length = some total ∧
      g.collectMaps total = .ok (placeholderMap, fuzzMap) ∧
      List.Forall₂ (fun entry e => ∃ step, g.spamSteps[entry.1]? = some step ∧
          g.IsRequestOf placeholderMap fuzzMap entry.2 step e.request)
        (spamPlan g.spamSteps.length (total / g.spamSteps.length)) generated := by
  simp only [loadSpam, Except.bind_eq_ok_iff, orError_eq_ok] at h
  obtain ⟨total, htotal, ⟨placeholderMap, fuzzMap⟩, hmaps, hloop⟩ := h
  refine ⟨total, placeholderMap, fuzzMap, htotal, hmaps, (List.mapM_eq_ok_iff.mp hloop).imp ?_⟩
  rintro ⟨k, i⟩ e hentry
  simp only [Except.bind_eq_ok_iff, Except.pure_eq_ok_iff, orError_eq_ok] at hentry
  obtain ⟨step, hstep, request, hrequest, rfl⟩ := hentry
  exact ⟨step, hstep, isRequestOf_of_prepareStep hrequest⟩

/-- **The spam plan.** The plan has `perStep` requests for each step, in order, each of them
with its sender, and the fuzz map has a value for each of their numbers. The chunks make up
the plan, and those of the periods are full. -/
theorem spamPlan_layout {txsPerPeriod numPeriods : Nat} {requests : List ExecutionRequest}
    (htxs : 0 < txsPerPeriod) (hfits : txsPerPeriod * numPeriods < 2 ^ 64)
    (h : g.loadTxs (txsPerPeriod * numPeriods) = .ok requests) :
    let rounds := perStep (txsPerPeriod * numPeriods) g.spamSteps.length
    requests.length = g.spamSteps.length * rounds ∧
      (∃ placeholderMap fuzzMap, g.collectMaps (g.spamSteps.length * rounds) =
          .ok (placeholderMap, fuzzMap) ∧
        (∀ (k i : Nat) step, g.spamSteps[k]? = some step → i < rounds →
          ∃ request, requests[k * rounds + i]? = some request ∧
            g.IsRequestOf placeholderMap fuzzMap i step request) ∧
        ∀ i < rounds, ∀ key values, fuzzMap.lookup key = some values → i < values.length) ∧
      ∃ chunks, g.getSpamTxChunks txsPerPeriod numPeriods = .ok chunks ∧
        chunks.flatten.map Generated.request = requests ∧
        ∀ j < numPeriods, ∃ chunk, chunks[j]? = some chunk ∧ chunk.length = txsPerPeriod := by
  intro rounds
  obtain ⟨generated, hload, rfl⟩ := Except.map_eq_ok_iff.mp h
  obtain ⟨total, placeholderMap, fuzzMap, htotal, hmaps, hplan⟩ := loadSpam_ok hload
  obtain ⟨hsteps, hle, hrounds, hexact⟩ := roundUp_eq_some htotal
  change total / g.spamSteps.length = rounds at hrounds
  rw [hrounds] at hexact hplan
  have hlength : generated.length = g.spamSteps.length * rounds := by
    rw [← hplan.length_eq, length_spamPlan]
  refine ⟨by rw [List.length_map, hlength], ⟨placeholderMap, fuzzMap, ?_, ?_, ?_⟩, ?_⟩
  · rw [hexact]
    exact hmaps
  · intro k i step hstep hi
    obtain ⟨hk, -⟩ := List.getElem?_eq_some_iff.mp hstep
    have hposition := getElem?_spamPlan hk hi
    obtain ⟨hlt, hget⟩ := List.getElem?_eq_some_iff.mp hposition
    have hlt' : k * rounds + i < generated.length := hplan.length_eq ▸ hlt
    obtain ⟨step', hstep', hrequest⟩ :=
      (List.forall₂_iff_get.mp hplan).2 (k * rounds + i) hlt hlt'
    rw [List.get_eq_getElem, hget] at hstep' hrequest
    obtain rfl := Option.some.inj (hstep.symm.trans hstep')
    exact ⟨_, by rw [List.getElem?_map, List.getElem?_eq_getElem hlt']; rfl, hrequest⟩
  · intro i hi key values hvalues
    obtain ⟨fuzz, -, hdrawn⟩ := ValuesOf.collectMaps hmaps key values hvalues
    rw [hdrawn.length_eq, ← hexact]
    exact lt_of_lt_of_le hi (Nat.le_mul_of_pos_left rounds hsteps)
  · have hnum : mulU64 txsPerPeriod numPeriods = some (txsPerPeriod * numPeriods) :=
      mulU64_eq_some.mpr ⟨rfl, hfits⟩
    refine ⟨generated.chunksOf txsPerPeriod, ?_, ?_, fun j hj => ?_⟩
    · simp only [getSpamTxChunks, Except.bind_eq_ok_iff, orError_eq_ok]
      exact ⟨_, hnum, generated, hload, by rw [if_neg htxs.ne']; rfl⟩
    · rw [List.flatten_chunksOf htxs]
    · have henough : txsPerPeriod * numPeriods ≤ generated.length := by omega
      have hchunk := List.le_length_chunksOf htxs henough
      refine ⟨_, List.getElem?_chunksOf (by omega), ?_⟩
      have hroom : j * txsPerPeriod + txsPerPeriod ≤ txsPerPeriod * numPeriods := by
        rw [← Nat.succ_mul, Nat.mul_comm txsPerPeriod]
        exact Nat.mul_le_mul_right txsPerPeriod hj
      rw [List.length_take, List.length_drop]
      omega

/-! ### A step, and a pool of two accounts -/

namespace TwoAccounts

def generator : Generator :=
  { FourSteps.generator with
    spamSteps := [.tx { toAddr := FourSteps.target, fromPool := some ['p'] }]
    agents := AList.insert ['p'] ⟨[⟨1, 0xa⟩, ⟨2, 0xb⟩], .spammer⟩ ∅ }

/-- A request of an account. -/
def request (sender : Address) : ExecutionRequest :=
  .tx { tx := { fromAddr := some sender, toKind := some (.call 0xdead), input := some [] } }

/-- The third request goes around to the first account. -/
theorem spamPlan_three :
    generator.loadTxs (3 * 1) = .ok [request 0xa, request 0xb, request 0xa] ∧
      ∃ chunks, generator.getSpamTxChunks 3 1 = .ok chunks ∧
        chunks.flatten.map Generated.request = [request 0xa, request 0xb, request 0xa] ∧
        ∀ j < 1, ∃ chunk, chunks[j]? = some chunk ∧ chunk.length = 3 := by
  have hload : generator.loadTxs (3 * 1) = .ok [request 0xa, request 0xb, request 0xa] := by
    decide +kernel
  exact ⟨hload, (spamPlan_layout (by decide) (by decide) hload).2.2⟩

end TwoAccounts

end Contender.Generator
