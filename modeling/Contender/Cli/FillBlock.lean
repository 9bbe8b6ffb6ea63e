import Contender.Cli.BuiltinPlaceholders
import Contender.Scenario.Metadata

/-!
# Filling blocks

The fill-block scenario divides the gas of a block among the transactions of a tick. It has as many
equal steps as transactions, and the plan has the same number of rounds for each of them, so that
it does not matter which steps end up in a chunk.

## Main results

* `fillBlock_chunks` — the transactions of a tick have the gas limits of their shares, and use up
  the gas of a block but for the remainder of the division
-/

namespace Contender

open Generator (Generated)

/-- The gas limits of these transactions together. -/
def gasLimitSum (txs : List NamedTxRequest) : ℕ := (txs.map fun req => req.tx.gas.getD 0).sum

/-- The transactions of a chunk. -/
def chunkTxs (chunk : List Generated) : List NamedTxRequest := chunk.flatMap fun e => e.request.txs

/-- Equal shares use up the whole but for the remainder, and one more share is too much when the
whole is large enough. -/
theorem share_bounds (total : ℕ) {parts : ℕ} (hparts : 0 < parts) :
    parts * (total / parts) ≤ total ∧ total < parts * (total / parts) + parts ∧
      (parts * parts ≤ total → ∀ n, n * (total / parts) ≤ total ↔ n ≤ parts) := by
  have hdivision := Nat.div_add_mod total parts
  have hremainder := Nat.mod_lt total hparts
  refine ⟨by omega, by omega, fun hlarge n => ⟨fun hn => ?_, fun hn => ?_⟩⟩
  · by_contra hmore
    have hshare : parts ≤ total / parts := (Nat.le_div_iff_mul_le hparts).mpr hlarge
    have hnext : (parts + 1) * (total / parts) ≤ n * (total / parts) :=
      Nat.mul_le_mul_right _ (by omega)
    rw [Nat.succ_mul] at hnext
    omega
  · calc n * (total / parts) ≤ parts * (total / parts) := Nat.mul_le_mul_right _ hn
      _ ≤ total := by omega

namespace Generator

variable {g : Generator}

/-- The gas limit of a call is that of its requests. -/
theorem gas_of_prepareTx {placeholderMap : AssocMap Text Text} {fuzzMap : FuzzMap} {i : ℕ}
    {call : FunctionCallDefinition} {r : NamedTxRequest}
    (h : g.prepareTx placeholderMap fuzzMap i call = .ok r) : r.tx.gas = call.gasLimit := by
  simp only [prepareTx, Except.bind_eq_ok_iff, Except.pure_eq_ok_iff] at h
  obtain ⟨filled, hfilled, strict, hstrict, tx, htx, rfl⟩ := h
  obtain ⟨_, _, _, _, -, -, -, -, rfl⟩ := fillFuzzed_ok hfilled
  simp only [makeStrictCall, Except.bind_eq_ok_iff, Except.pure_eq_ok_iff] at hstrict
  obtain ⟨sender, -, auth, -, value, -, sidecar, -, rfl⟩ := hstrict
  simp only [Foreign.templateFunctionCall, Except.bind_eq_ok_iff, Except.pure_eq_ok_iff] at htx
  obtain ⟨input, -, address, -, fee, -, rfl⟩ := htx
  rfl

/-- The request of a step that is one call is one transaction with its gas limit. -/
theorem txs_of_single {numTxs : ℕ} {generated : List Generated} {call : FunctionCallDefinition}
    (hsteps : ∀ step ∈ g.spamSteps, step.calls = [call]) (h : g.loadSpam numTxs = .ok generated) :
    ∀ e ∈ generated, ∃ r, e.request.txs = [r] ∧ r.tx.gas = call.gasLimit := by
  intro e he
  obtain ⟨step, placeholderMap, fuzzMap, hstep, hcalls⟩ := calls_of_loadSpam h he
  rw [hsteps step (List.mem_of_getElem? hstep)] at hcalls
  obtain ⟨r, rest, hr, hrest, htxs⟩ := List.forall₂_cons_left_iff.mp hcalls
  obtain rfl := List.forall₂_nil_left_iff.mp hrest
  exact ⟨r, htxs, gas_of_prepareTx hr⟩

/-- The transactions of a chunk with such requests. -/
theorem gasLimitSum_chunkTxs {chunk : List Generated} {share : ℕ}
    (h : ∀ e ∈ chunk, ∃ r, e.request.txs = [r] ∧ r.tx.gas = some share) :
    (chunkTxs chunk).length = chunk.length ∧ (∀ r ∈ chunkTxs chunk, r.tx.gas = some share) ∧
      gasLimitSum (chunkTxs chunk) = chunk.length * share := by
  induction chunk with
  | nil => exact ⟨rfl, fun r hr => absurd hr List.not_mem_nil, (Nat.zero_mul share).symm⟩
  | cons e chunk ih =>
    obtain ⟨⟨r, htxs, hgas⟩, hrest⟩ := List.forall_mem_cons.mp h
    obtain ⟨hlength, hall, hsum⟩ := ih hrest
    have hcons : chunkTxs (e :: chunk) = r :: chunkTxs chunk := by
      rw [chunkTxs, List.flatMap_cons, htxs]
      rfl
    rw [hcons]
    refine ⟨congrArg (· + 1) hlength, List.forall_mem_cons.mpr ⟨hgas, hall⟩, ?_⟩
    rw [gasLimitSum, List.map_cons, List.sum_cons, hgas, Option.getD_some, List.length_cons,
      Nat.succ_mul, Nat.add_comm]
    exact congrArg (· + share) hsum

/-- The chunk of a period is full. -/
theorem exists_chunk {txsPerPeriod numPeriods tick : ℕ} {chunks : List (List Generated)}
    (h : g.getSpamTxChunks txsPerPeriod numPeriods = .ok chunks) (htick : tick < numPeriods) :
    ∃ chunk numTxs generated, chunks[tick]? = some chunk ∧ chunk.length = txsPerPeriod ∧
      g.loadSpam numTxs = .ok generated ∧ ∀ e ∈ chunk, e ∈ generated := by
  simp only [getSpamTxChunks, Except.bind_eq_ok_iff, orError_eq_ok] at h
  obtain ⟨numTxs, hnum, generated, hload, hchunks⟩ := h
  split_ifs at hchunks with hzero
  obtain rfl := Except.pure_eq_ok_iff.mp hchunks
  obtain ⟨rfl, -⟩ := mulU64_eq_some.mp hnum
  obtain ⟨total, htotal, hsteps⟩ := map_step_loadSpam hload
  obtain ⟨-, hle, -, hexact⟩ := roundUp_eq_some htotal
  -- the plan is rounded up, so that there are enough requests
  have hlength : generated.length = total := by
    rw [← List.length_map, hsteps, length_flatMap_replicate]
    exact hexact
  have htxs : 0 < txsPerPeriod := Nat.pos_of_ne_zero hzero
  have henough : txsPerPeriod * numPeriods ≤ generated.length := by omega
  have hcount := List.le_length_chunksOf htxs henough
  have hget : (generated.chunksOf txsPerPeriod)[tick]? = _ := List.getElem?_chunksOf (by omega)
  refine ⟨_, _, generated, hget, ?_, hload, List.mem_of_mem_chunksOf (List.mem_of_getElem? hget)⟩
  have hroom : tick * txsPerPeriod + txsPerPeriod ≤ txsPerPeriod * numPeriods := by
    rw [← Nat.succ_mul, Nat.mul_comm txsPerPeriod]
    exact Nat.mul_le_mul_right txsPerPeriod htick
  rw [List.length_take, List.length_drop]
  omega

end Generator

/-! ### The scenario -/

section Scenario

variable {code : BuiltinCode} {args : FillBlockArgs} {config : TestConfig}

theorem gasLimit_setDefaultFromPool (name : Text) (call : FunctionCallDefinition) :
    (call.setDefaultFromPool name).gasLimit = call.gasLimit := by
  unfold FunctionCallDefinition.setDefaultFromPool
  split_ifs <;> rfl

/-- Every spam step is a call with its share of the gas. -/
theorem FillBlockArgs.exists_call (hconfig : args.toTestConfig code = some config) :
    ∃ call : FunctionCallDefinition, call.gasLimit = some (args.maxGasPerBlock / args.numTxs) ∧
      ∀ step ∈ config.getSpamSteps, step.calls = [call] := by
  rw [toTestConfig] at hconfig
  split_ifs at hconfig
  obtain rfl := Option.some.inj hconfig
  refine ⟨_, gasLimit_setDefaultFromPool "spammers".toList (args.fillCall code), ?_⟩
  intro step hstep
  obtain ⟨own, hown, rfl⟩ := List.mem_map.mp hstep
  obtain rfl := List.eq_of_mem_replicate hown
  rfl

/-- The gas is divided among at least one transaction. -/
theorem numTxs_of_fillBlock {latestGasLimit : Except Text (Option ℕ)} {spamRate : SpamRate}
    {maxGasPerBlock : Option ℕ} (h : fillBlock latestGasLimit spamRate maxGasPerBlock = .ok args) :
    0 < spamRate.numTxs ∧ args.numTxs = spamRate.numTxs := by
  have hshared (gasLimit : ℕ)
      (h : (if spamRate.numTxs = 0 then .error .panic else pure ⟨gasLimit, spamRate.numTxs⟩ :
        Except BuiltinError FillBlockArgs) = .ok args) :
      0 < spamRate.numTxs ∧ args.numTxs = spamRate.numTxs := by
    split_ifs at h with hzero
    obtain rfl := Except.pure_eq_ok_iff.mp h
    exact ⟨Nat.pos_of_ne_zero hzero, rfl⟩
  -- the limit is the user's, or that of the latest block
  cases maxGasPerBlock with
  | some maxGas => exact hshared maxGas h
  | none =>
    obtain ⟨gasLimit, -, hlimit⟩ := Except.bind_eq_ok_iff.mp h
    exact hshared gasLimit hlimit

end Scenario

/-- **Filled blocks.** At every tick of the run, the spammer of a fill-block scenario has as many
transactions as the rate of the run says, and each has its share of the gas as its limit. With the
rate that the gas was divided by, they use up the gas of a block but for less than their number. As
long as the remainder of the division is no share, a higher rate exceeds the gas, and a lower one
does not. -/
theorem fillBlock_chunks (latestGasLimit : Except Text (Option ℕ)) (spamRate : SpamRate)
    (maxGasPerBlock : Option ℕ) (args : FillBlockArgs) (code : BuiltinCode) (config : TestConfig)
    (hargs : fillBlock latestGasLimit spamRate maxGasPerBlock = .ok args)
    (hconfig : args.toTestConfig code = some config) (g : Generator)
    (hsteps : g.spamSteps = config.getSpamSteps) (txsPerPeriod numPeriods : ℕ)
    (chunks : List (List Generated))
    (hchunks : g.getSpamTxChunks txsPerPeriod numPeriods = .ok chunks) :
    ∀ tick < numPeriods, ∃ chunk, chunks[tick]? = some chunk ∧
      (chunkTxs chunk).length = txsPerPeriod ∧
      (∀ r ∈ chunkTxs chunk, r.tx.gas = some (args.maxGasPerBlock / spamRate.numTxs)) ∧
      (txsPerPeriod = spamRate.numTxs → gasLimitSum (chunkTxs chunk) ≤ args.maxGasPerBlock ∧
        args.maxGasPerBlock < gasLimitSum (chunkTxs chunk) + spamRate.numTxs) ∧
      (spamRate.numTxs * spamRate.numTxs ≤ args.maxGasPerBlock →
        (gasLimitSum (chunkTxs chunk) ≤ args.maxGasPerBlock ↔
          txsPerPeriod ≤ spamRate.numTxs)) := by
  intro tick htick
  obtain ⟨hpos, hnum⟩ := numTxs_of_fillBlock hargs
  obtain ⟨call, hgas, hcalls⟩ := FillBlockArgs.exists_call hconfig
  obtain ⟨chunk, numTxs, generated, hget, hlength, hload, hmem⟩ :=
    Generator.exists_chunk hchunks htick
  have hsingle := Generator.txs_of_single (hsteps ▸ hcalls) hload
  rw [hgas, hnum] at hsingle
  obtain ⟨hcount, hall, hsum⟩ :=
    Generator.gasLimitSum_chunkTxs fun e he => hsingle e (hmem e he)
  rw [hlength] at hcount hsum
  obtain ⟨hle, hlt, hmore⟩ := share_bounds args.maxGasPerBlock hpos
  refine ⟨chunk, hget, hcount, hall, ?_, fun hlarge => ?_⟩
  · rintro rfl
    rw [hsum]
    exact ⟨hle, hlt⟩
  · rw [hsum]
    exact hmore hlarge txsPerPeriod

/-! ### Three shares of a hundred -/

namespace ThreeShares

open Generator

def args : FillBlockArgs := ⟨100, 3⟩

def config : TestConfig where
  create := some [.deployFromAdmin DefaultWallet.code.spamMeContract]
  spam := some (List.replicate 3 (.tx (args.fillCall DefaultWallet.code)))

/-- The contract's address is a variable here, and two accounts send. -/
def generator : Generator :=
  { FourSteps.generator with
    foreign := { FourSteps.foreign with
      parseFunction := fun _ => .ok ⟨[]⟩
      encodeInput := fun _ _ => .ok [0x69, 0xf8, 0x6e, 0xc8] }
    env := AList.insert "SpamMe5".toList FourSteps.target ∅
    spamSteps := config.getSpamSteps
    agents := AList.insert "spammers".toList ⟨[⟨1, 0xa⟩, ⟨2, 0xb⟩], .spammer⟩ ∅ }

theorem fillBlock_chunks_three :
    ∃ chunks chunk, generator.getSpamTxChunks 3 2 = .ok chunks ∧ chunks[1]? = some chunk ∧
      (chunkTxs chunk).length = 3 ∧ gasLimitSum (chunkTxs chunk) ≤ 100 ∧
        100 < gasLimitSum (chunkTxs chunk) + 3 := by
  have hsome : (generator.getSpamTxChunks 3 2).toOption.isSome := by decide +kernel
  cases hchunks : generator.getSpamTxChunks 3 2 with
  | error e =>
    rw [hchunks] at hsome
    cases hsome
  | ok chunks =>
    obtain ⟨chunk, hget, hlength, -, hsum, -⟩ := fillBlock_chunks (.ok none) (.txsPerBlock 3)
      (some 100) args DefaultWallet.code config rfl rfl generator rfl 3 2 chunks hchunks 1
      (by decide)
    exact ⟨chunks, chunk, rfl, hget, hlength, hsum rfl⟩

end ThreeShares

end Contender
