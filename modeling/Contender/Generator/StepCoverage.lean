import Contender.Data.Chunks
import Contender.Data.Traverse
import Contender.Generator.LoadTxs

/-!
# Which steps a run exercises

`get_spam_tx_chunks` cuts the spam plan into chunks of one period each, and
`execute_spammer` sends one chunk per tick. The plan lists all requests of the
first step, then all of the second, and so on, and is rounded up to give every
step the same number of requests; but the run ends after the last period. Whether
the last steps are reached depends on how much the rounding added.
-/

namespace Contender.Generator

variable {g : Generator}

/-- `get_spam_tx_chunks`. -/
def getSpamTxChunks (g : Generator) (txsPerPeriod numPeriods : Nat) :
    Except GeneratorError (List (List Generated)) := do
  let numTxs ← orError .panic (mulU64 txsPerPeriod numPeriods)
  let generated ← g.loadSpam numTxs
  if txsPerPeriod = 0 then
    .error .panic
  else
    return generated.chunksOf txsPerPeriod

/-- The chunk `execute_spammer` prepares at a tick. -/
def chunkAt (chunks : List (List Generated)) (tick : Nat) : Option (List Generated) :=
  chunks[tick % max chunks.length 1]?

/-- Every step has a request among those dispatched in the given number of
periods. -/
def Exercised (numSteps numPeriods : Nat) (chunks : List (List Generated)) : Prop :=
  ∀ step < numSteps, ∃ tick < numPeriods, ∃ chunk, chunkAt chunks tick = some chunk ∧
    ∃ generated ∈ chunk, generated.step = step

/-! ### The layout of the plan -/

theorem map_fst_spamPlan (numSteps perStep : Nat) :
    (spamPlan numSteps perStep).map Prod.fst =
      (List.range numSteps).flatMap fun step => List.replicate perStep step := by
  rw [spamPlan, List.map_flatMap]
  congr 1
  funext step
  rw [List.map_map]
  simp [List.map_const', Function.comp_def]

theorem length_flatMap_replicate (numSteps perStep : Nat) :
    ((List.range numSteps).flatMap fun step => List.replicate perStep step).length =
      numSteps * perStep := by
  simp [List.length_flatMap]

/-- Position `j` of the plan belongs to step `j / perStep`. -/
theorem getElem?_flatMap_replicate {numSteps perStep j : Nat} (h : j < numSteps * perStep) :
    ((List.range numSteps).flatMap fun step => List.replicate perStep step)[j]? =
      some (j / perStep) := by
  induction numSteps with
  | zero => omega
  | succ numSteps ih =>
    rw [List.range_succ, List.flatMap_append, List.getElem?_append, length_flatMap_replicate]
    split_ifs with hbefore
    · exact ih hbefore
    · rw [Nat.succ_mul] at h
      have hdiv : j / perStep = numSteps :=
        Nat.div_eq_of_lt_le (by omega) (by rw [Nat.succ_mul]; omega)
      rw [hdiv]
      simp [List.getElem?_replicate]
      omega

/-- Rounding up gives every step the rounded-up share. -/
theorem roundUp_eq_some {numTxs numSteps total : Nat} (h : roundUp numTxs numSteps = some total) :
    0 < numSteps ∧ numTxs ≤ total ∧ total / numSteps = (numTxs + numSteps - 1) / numSteps ∧
      numSteps * (total / numSteps) = total := by
  unfold roundUp at h
  split_ifs at h with hzero hrem
  · -- the number is a multiple already
    obtain rfl := Option.some.inj h
    have hexact := Nat.div_add_mod numTxs numSteps
    rw [hrem, Nat.add_zero] at hexact
    have hceil : (numTxs + numSteps - 1) / numSteps = numTxs / numSteps :=
      Nat.div_eq_of_lt_le (by rw [Nat.mul_comm]; omega) (by rw [Nat.succ_mul, Nat.mul_comm]; omega)
    exact ⟨by omega, le_rfl, hceil.symm, hexact⟩
  · obtain ⟨rfl, -⟩ := addU64_eq_some.mp h
    -- the total is the next multiple
    have hdiv := Nat.div_add_mod numTxs numSteps
    have hlt := Nat.mod_lt numTxs (by omega : numSteps > 0)
    have htotal : numTxs + (numSteps - numTxs % numSteps) = numSteps * (numTxs / numSteps + 1) := by
      rw [Nat.mul_succ]
      omega
    have hshare : (numTxs + (numSteps - numTxs % numSteps)) / numSteps = numTxs / numSteps + 1 := by
      rw [htotal, Nat.mul_div_cancel_left _ (by omega)]
    have hceil : (numTxs + numSteps - 1) / numSteps = numTxs / numSteps + 1 :=
      Nat.div_eq_of_lt_le (by rw [Nat.mul_comm, Nat.mul_succ]; omega)
        (by rw [Nat.mul_comm, Nat.mul_succ, Nat.mul_succ]; omega)
    refine ⟨by omega, by omega, hshare.trans hceil.symm, ?_⟩
    rw [hshare, htotal]

/-- The steps of the generated requests, in order. -/
theorem map_step_loadSpam {numTxs : Nat} {generated : List Generated}
    (h : g.loadSpam numTxs = .ok generated) :
    ∃ total, roundUp numTxs g.spamSteps.length = some total ∧
      generated.map Generated.step =
        (List.range g.spamSteps.length).flatMap fun step =>
          List.replicate (total / g.spamSteps.length) step := by
  simp only [loadSpam, Except.bind_eq_ok_iff, orError_eq_ok] at h
  obtain ⟨total, htotal, ⟨placeholderMap, fuzzMap⟩, -, hloop⟩ := h
  refine ⟨total, htotal, ?_⟩
  rw [← map_fst_spamPlan]
  apply (List.mapM_eq_ok_iff.mp hloop).map_eq
  intro entry request hrequest
  obtain ⟨step, i⟩ := entry
  simp only [Except.bind_eq_ok_iff, Except.pure_eq_ok_iff] at hrequest
  obtain ⟨spamStep, -, executed, -, rfl⟩ := hrequest
  rfl

/-! ### Coverage -/

/-- The requests of the run are the first `txsPerPeriod * numPeriods` of the plan. -/
theorem exercised_iff_positions {txsPerPeriod numPeriods : Nat} {generated : List Generated}
    (numSteps : Nat) (htxs : 0 < txsPerPeriod)
    (henough : txsPerPeriod * numPeriods ≤ generated.length) :
    Exercised numSteps numPeriods (generated.chunksOf txsPerPeriod) ↔
      ∀ step < numSteps, ∃ j < txsPerPeriod * numPeriods,
        (generated.map Generated.step)[j]? = some step := by
  have hlen := List.le_length_chunksOf htxs henough
  have hchunkAt : ∀ tick < numPeriods, chunkAt (generated.chunksOf txsPerPeriod) tick =
      (generated.chunksOf txsPerPeriod)[tick]? := by
    intro tick htick
    -- there are enough chunks for the ticks not to wrap around
    rw [chunkAt, Nat.mod_eq_of_lt (by omega)]
  apply forall₂_congr
  intro step _
  calc (∃ tick < numPeriods, ∃ chunk, chunkAt (generated.chunksOf txsPerPeriod) tick = some chunk ∧
        ∃ request ∈ chunk, request.step = step)
      ↔ ∃ tick < numPeriods, ∃ chunk, (generated.chunksOf txsPerPeriod)[tick]? = some chunk ∧
          ∃ request ∈ chunk, request.step = step := by
        refine exists_congr fun tick => and_congr_right fun htick => ?_
        rw [hchunkAt tick htick]
    _ ↔ ∃ j < txsPerPeriod * numPeriods, ∃ request, generated[j]? = some request ∧
          request.step = step := List.exists_mem_chunk_iff htxs henough
    _ ↔ ∃ j < txsPerPeriod * numPeriods, (generated.map Generated.step)[j]? = some step := by
        simp only [List.getElem?_map, Option.map_eq_some_iff]

/-- A run exercises every step exactly when the requests of all steps but the
last, at the rounded-up number per step, do not fill it. -/
theorem exercised_iff {txsPerPeriod numPeriods : Nat} {chunks : List (List Generated)}
    (h : g.getSpamTxChunks txsPerPeriod numPeriods = .ok chunks) :
    Exercised g.spamSteps.length numPeriods chunks ↔
      (g.spamSteps.length - 1) *
          ((txsPerPeriod * numPeriods + g.spamSteps.length - 1) / g.spamSteps.length) <
        txsPerPeriod * numPeriods := by
  simp only [getSpamTxChunks, Except.bind_eq_ok_iff, orError_eq_ok] at h
  obtain ⟨numTxs, hnum, generated, hload, hchunks⟩ := h
  split_ifs at hchunks with htxs
  obtain rfl := Except.pure_eq_ok_iff.mp hchunks
  obtain ⟨rfl, -⟩ := mulU64_eq_some.mp hnum
  obtain ⟨total, htotal, hsteps⟩ := map_step_loadSpam hload
  obtain ⟨hpos, hle, hshare, hexact⟩ := roundUp_eq_some htotal
  rw [← hshare]
  generalize total / g.spamSteps.length = perStep at *
  have hlen : generated.length = g.spamSteps.length * perStep := by
    rw [← List.length_map, hsteps, length_flatMap_replicate]
  rw [exercised_iff_positions _ (by omega) (by omega), hsteps]
  -- a step is reached when its first request is
  have hreached : ∀ step < g.spamSteps.length,
      (∃ j < txsPerPeriod * numPeriods,
        ((List.range g.spamSteps.length).flatMap fun step =>
          List.replicate perStep step)[j]? = some step) ↔
        step * perStep < txsPerPeriod * numPeriods := by
    intro step hstep
    constructor
    · rintro ⟨j, hj, hget⟩
      rw [getElem?_flatMap_replicate (by omega), Option.some.injEq] at hget
      subst hget
      exact lt_of_le_of_lt (Nat.div_mul_le_self j perStep) hj
    · intro hstart
      have hplan : step * perStep < g.spamSteps.length * perStep := by omega
      have hpositive : 0 < perStep := Nat.pos_of_lt_mul_left hplan
      refine ⟨step * perStep, hstart, ?_⟩
      rw [getElem?_flatMap_replicate hplan, Nat.mul_div_cancel _ hpositive]
  constructor
  · intro hall
    exact (hreached _ (by omega)).mp (hall (g.spamSteps.length - 1) (by omega))
  · intro hlast step hstep
    refine (hreached step hstep).mpr (lt_of_le_of_lt ?_ hlast)
    exact Nat.mul_le_mul_right perStep (by omega)

/-! ### Four steps, five requests per period -/

namespace FourSteps

/-- A target that is an address, written out. -/
def target : Text := "0x000000000000000000000000000000000000dEaD".toList

/-- The libraries, for calls without data: only the target is parsed, and only the
zero seed is hashed. -/
def foreign : Foreign where
  keccak256 _ := 0x290decd9548b62a8d60345a988386fc84ba6bc95484008f6362f93160ef3e563
  toLowercase := List.map Char.toLower
  isNumeric := Char.isDigit
  parseAddress text := if text = target then some 0xdead else none
  addressToString _ := target
  parseU256 _ := none
  parseUnits _ _ := .error []
  parseFunction _ := .error []
  encodeInput _ _ := .error []
  fromHex _ := none
  buildSidecar _ := none
  signFails _ _ := none
  g1Point _ := (1, 2)
  g2Point _ := (1, 2, 3, 4)

/-- A plain transfer of a kind. -/
def transfer (kind : Text) : FunctionCallDefinition where
  toAddr := target
  fromAddr := some target
  kind := some kind

def kinds : List Text := [['a'], ['b'], ['c'], ['d']]

def generator : Generator where
  foreign := foreign
  env := ∅
  spamSteps := kinds.map fun kind => .tx (transfer kind)
  fuzzSeeder := ⟨0⟩
  agents := ∅
  nonces := ∅
  setcodeSigner := ⟨1, 1⟩
  chainId := 1
  source := { getNamedTx := fun _ => .ok none, scenarioLabel := none }

/-- The request of a step. -/
def generated (step round : Nat) (kind : Text) : Generated where
  step
  round
  request := .tx
    { kind := some kind
      tx := { fromAddr := some 0xdead, toKind := some (.call 0xdead), input := some [] } }

def fiveChunks : List (List Generated) :=
  [[generated 0 0 ['a'], generated 0 1 ['a'], generated 1 0 ['b'], generated 1 1 ['b'],
    generated 2 0 ['c']],
   [generated 2 1 ['c'], generated 3 0 ['d'], generated 3 1 ['d']]]

def fourChunks : List (List Generated) :=
  [[generated 0 0 ['a'], generated 1 0 ['b'], generated 2 0 ['c'], generated 3 0 ['d']]]

/-- Five requests in one period are enough for four steps by the check that is
made, but the plan is rounded up to two per step and the last step is cut off. -/
theorem not_exercised_five :
    generator.spamSteps.length ≤ 5 * 1 ∧ generator.getSpamTxChunks 5 1 = .ok fiveChunks ∧
      ¬Exercised generator.spamSteps.length 1 fiveChunks := by
  refine ⟨by decide, by decide +kernel, fun h => ?_⟩
  obtain ⟨tick, htick, chunk, hchunk, request, hmem, hstep⟩ := h 3 (by decide)
  obtain rfl : tick = 0 := by omega
  obtain rfl := Option.some.inj hchunk
  have hnone : ∀ request ∈ fiveChunks[0], request.step ≠ 3 := by decide
  exact hnone request hmem hstep

/-- Four requests give every step its own. -/
theorem exercised_four :
    generator.getSpamTxChunks 4 1 = .ok fourChunks ∧
      Exercised generator.spamSteps.length 1 fourChunks := by
  have hchunks : generator.getSpamTxChunks 4 1 = .ok fourChunks := by decide +kernel
  exact ⟨hchunks, (exercised_iff hchunks).mpr (by decide)⟩

end FourSteps

end Contender.Generator
