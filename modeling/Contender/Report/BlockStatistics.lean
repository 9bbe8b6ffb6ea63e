import Contender.Data.Bars
import Contender.Report.Command
import Contender.Report.Heatmap
import Mathlib.Data.Rat.Defs
import Mathlib.Order.Bounds.Basic

/-!
# The block statistics of the report

The report fetches the blocks around its transactions, each in a task of its own. The blocks come
in the order in which the tasks finish. From them the report takes gas quantiles and an average
block time, over sorted values, and the block range and a gas limit, from the first and the last
block that came.

What is rounded in floating point, the index of a quantile, is left open: `ceilMul` stands for
`(len as f64 * q).ceil()`. The average is taken as an exact quotient.

## Main results

* `delivers_iff` — the blocks may be delivered in every order
* `orderIndependent_iff` — the statistics are as they should be for an order of delivery exactly
  when it begins with the smallest and ends with the largest number, and all gas limits are the
  same
* `noPanic_iff` — the range of runs, the statistics of the blocks and the metrics run into no
  arithmetic panic exactly when the range, the blocks and the gas used stay within bounds
-/

namespace Contender

/-- What the report reads of a block. -/
structure Block where
  number : UInt64
  timestamp : UInt64
  gasUsed : UInt64
  gasLimit : UInt64
  transactions : ℕ
  deriving DecidableEq, Repr

inductive Quantile
  | p50
  | p90
  | p95
  | p99

structure GasQuantiles where
  p50 : ℕ
  p90 : ℕ
  p95 : ℕ
  p99 : ℕ
  deriving DecidableEq, Repr

/-- What `report` takes from the blocks. -/
structure BlockStats where
  peakGas : ℕ
  gasQuantiles : GasQuantiles
  blockGasLimit : ℕ
  peakTxCount : ℕ
  averageBlockTime : ℚ
  startBlock : ℕ
  endBlock : ℕ

/-- The entry at the index of a quantile. -/
def gasQuantile (ceilMul : ℕ → ℕ) (gasValues : List ℕ) : Option ℕ := do
  let last ← subU64 gasValues.length 1
  -- `saturating_sub(1)`, and no further than the last entry
  gasValues[min (ceilMul gasValues.length - 1) last]?

/-- The quantiles of the sorted gas values. -/
def gasQuantiles (ceilMul : Quantile → ℕ → ℕ) (gasValues : List ℕ) : Option GasQuantiles :=
  if gasValues = [] then some ⟨0, 0, 0, 0⟩
  else do
    let p50 ← gasQuantile (ceilMul .p50) gasValues
    let p90 ← gasQuantile (ceilMul .p90) gasValues
    let p95 ← gasQuantile (ceilMul .p95) gasValues
    let p99 ← gasQuantile (ceilMul .p99) gasValues
    return ⟨p50, p90, p95, p99⟩

/-- The differences of neighbours: `windows(2).map(|w| w[1] - w[0])`. -/
def timeDeltas (timestamps : List ℕ) : Option (List ℕ) :=
  (timestamps.zip timestamps.tail).mapM fun w => subU64 w.2 w.1

/-- The average of the differences of the sorted timestamps. -/
def averageBlockTime (timestamps : List ℕ) : Option ℚ := do
  let deltas ← timeDeltas timestamps
  let sum ← sumU64 deltas
  -- one is subtracted before `max(1)`
  let intervals ← subU64 timestamps.length 1
  return sum / (max intervals 1 : ℕ)

def sortedGas (blocks : List Block) : List ℕ :=
  (blocks.map fun b => b.gasUsed.toNat).insertionSort (· ≤ ·)

def sortedTimestamps (blocks : List Block) : List ℕ :=
  (blocks.map fun b => b.timestamp.toNat).insertionSort (· ≤ ·)

/-- The largest value, zero without blocks. -/
def peakOf (f : Block → ℕ) (blocks : List Block) : ℕ := (blocks.map f).foldl max 0

/-- The block statistics of `report`; `none` is a panic. -/
def blockStats (ceilMul : Quantile → ℕ → ℕ) (blocks : List Block) : Option BlockStats := do
  let gasQuantiles ← gasQuantiles ceilMul (sortedGas blocks)
  let averageBlockTime ← averageBlockTime (sortedTimestamps blocks)
  return {
    peakGas := peakOf (fun b => b.gasUsed.toNat) blocks
    gasQuantiles := gasQuantiles
    -- the first and the last block are the ones that came first and last
    blockGasLimit := (blocks.head?.map fun b => b.gasLimit.toNat).getD 30_000_000
    peakTxCount := peakOf Block.transactions blocks
    averageBlockTime := averageBlockTime
    startBlock := (blocks.head?.map fun b => b.number.toNat).getD 0
    endBlock := (blocks.getLast?.map fun b => b.number.toNat).getD 0 }

/-- `get_blocks`: each pending task asks the node for the block of its number, and sends it when
there is one. The tasks finish in any order. -/
inductive Delivers (node : ℕ → Option Block) : List ℕ → List Block → Prop
  | done : Delivers node [] []
  | finish (before : List ℕ) (blockNum : ℕ) (after : List ℕ) {blocks : List Block} :
      Delivers node (before ++ after) blocks →
        Delivers node (before ++ blockNum :: after) ((node blockNum).toList ++ blocks)

/-! ### The report -/

/-- The file system and the node, by their answers. -/
structure ReportEnv where
  createReportsDir : Except Text Unit
  saveCsvReport : ℕ → List RunTx → Except Text Unit
  /-- The blocks of the cache file, if `DEBUG_USEFILE` is set. -/
  cachedBlocks : Option (Except Text (List Block))
  /-- The blocks around two runs, when no transaction is stored. The subtractions that
  `estimate_block_data` makes for itself are not part of the model. -/
  estimateBlockData : ℕ → ℕ → Except Text (List Block)
  getBlocks : ℕ → ℕ → Except Text (List Block)
  getBlockTraces : List Block → Except Text Unit
  saveCache : List Block → Except Text Unit

/-- The blocks around the transactions, none when no transaction landed. -/
def ReportEnv.getBlockData (env : ReportEnv) (r : Report) : Except Text (List Block) :=
  match r.blockRange with
  | none => .ok []
  | some (minBlock, maxBlock) => env.getBlocks minBlock maxBlock

/-- The blocks of the report, with their traces. -/
def ReportEnv.blocks (env : ReportEnv) (r : Report) : Except Text (List Block) :=
  match env.cachedBlocks with
  | some cached => cached
  | none => do
    let blocks ← if r.allTxs = [] then env.estimateBlockData r.startRunId r.endRunId
      else env.getBlockData r
    env.getBlockTraces blocks
    return blocks

structure SpamRunMetrics where
  gasQuantiles : GasQuantiles
  peakGas : ℕ
  peakGasDesc : Text
  peakTxCount : ℕ
  averageBlockTimeSecs : ℚ
  totalTxs : ℕ
  successfulTxs : ℕ
  failedTxs : ℕ

structure ReportMetadata where
  startRunId : ℕ
  endRunId : ℕ
  startBlock : ℕ
  endBlock : ℕ
  rpcUrl : Text
  metrics : SpamRunMetrics

/-- `(peak_gas * 100) / block_gas_limit`. -/
def percentOf (peakGas blockGasLimit : ℕ) : Option ℕ :=
  (mulU64 peakGas 100).bind fun scaled =>
    if blockGasLimit = 0 then none else some (scaled / blockGasLimit)

/-- The metrics; `none` is a panic in the percentage. -/
def Report.metrics (r : Report) (stats : BlockStats) : Option SpamRunMetrics := do
  let percent ← percentOf stats.peakGas stats.blockGasLimit
  return {
    gasQuantiles := stats.gasQuantiles
    peakGas := stats.peakGas
    peakGasDesc := Nat.decimal percent ++ "%".toList
    peakTxCount := stats.peakTxCount
    averageBlockTimeSecs := stats.averageBlockTime
    totalTxs := r.totalTxs
    successfulTxs := r.totalTxs - r.failedTxs
    failedTxs := r.failedTxs }

/-- A panic ends the report. -/
def orPanic {α : Type} (o : Option α) : Except ReportError α := o.elim (.error .panic) .ok

namespace DbOps

variable (db : DbOps) (env : ReportEnv)

/-- The last run with its id. There is none without runs. -/
def lastRun (params : ReportParams) : Except ReportError (Option (ℕ × SpamRun)) := do
  let numRuns ← dbAnswer db.numRuns
  env.createReportsDir.mapError .render
  if numRuns = 0 then return none
  let endRunId ← params.endRunId numRuns
  match ← dbAnswer (db.getRun endRunId) with
  | none => throw (.runDoesNotExist endRunId)
  | some run => return some (endRunId, run)

/-- The transactions of one run, which are saved. -/
def exportTxs (id : ℕ) : Except ReportError (List RunRow) := do
  let rows ← db.rowsOf id
  (env.saveCsvReport id (rows.map Prod.snd)).mapError .render
  return rows

/-- The transactions and the runs of the range, and the blocks. -/
def collectBlocks (startRunId endRunId : ℕ) (rpcUrl : Text) :
    Except ReportError (Report × List Block) := do
  let allTxs ← ((runIds startRunId endRunId).mapM (db.exportTxs env)).map List.flatten
  let runData ← db.collectRuns rpcUrl startRunId endRunId
  let r : Report := ⟨startRunId, endRunId, rpcUrl, allTxs, runData, []⟩
  let blocks ← (env.blocks r).mapError .render
  return (r, blocks)

/-- The blocks are stored, and the latencies are read. -/
def storeBlocks (blocks : List Block) (startRunId endRunId : ℕ) :
    Except ReportError (List RunBucket) := do
  (env.saveCache blocks).mapError .render
  db.collectBuckets startRunId endRunId

/-- The metadata of the runs up to the last one. -/
def metadataUpTo (ceilMul : Quantile → ℕ → ℕ) (params : ReportParams) (endRunId : ℕ)
    (run : SpamRun) : Except ReportError ReportMetadata := do
  -- the number of preceding runs is not checked
  let startRunId ← orPanic (subU64 endRunId params.precedingRuns)
  let (r, blocks) ← db.collectBlocks env startRunId endRunId run.rpcUrl
  let stats ← orPanic (blockStats ceilMul blocks)
  let _ ← db.storeBlocks env blocks startRunId endRunId
  let metrics ← orPanic (r.metrics stats)
  return ⟨startRunId, endRunId, stats.startBlock, stats.endBlock, run.rpcUrl, metrics⟩

/-- The metadata that `report` compiles. Panics are those of its arithmetic: the range of runs,
the statistics of the blocks and the percentage of the metrics. What `estimate_block_data`
computes for itself, and the sums in which the latency buckets are merged, are left out. -/
def reportMetadata (ceilMul : Quantile → ℕ → ℕ) (params : ReportParams) :
    Except ReportError (Option ReportMetadata) := do
  match ← db.lastRun env params with
  | none => return none
  | some (endRunId, run) =>
    let metadata ← db.metadataUpTo env ceilMul params endRunId run
    return some metadata

end DbOps

/-! ### Orders of delivery -/

/-- The blocks may be delivered in every order. -/
theorem delivers_iff {node : ℕ → Option Block} {pending : List ℕ} {blocks : List Block} :
    Delivers node pending blocks ↔ blocks.Perm (pending.filterMap node) := by
  constructor
  · intro h
    induction h with
    | done => exact .nil
    | finish before blockNum after _ ih =>
      rw [List.filterMap_append] at ih
      rw [List.filterMap_append, List.filterMap_cons]
      cases node blockNum with
      | none => exact ih
      | some b => exact (ih.cons b).trans List.perm_middle.symm
  · intro h
    induction blocks generalizing pending with
    | nil =>
      -- the tasks that are left have no block to send
      have hnone := List.filterMap_eq_nil_iff.mp h.nil_eq.symm
      induction pending with
      | nil => exact .done
      | cons blockNum pending ih =>
        obtain ⟨hfirst, hrest⟩ := List.forall_mem_cons.mp hnone
        have hfilter : pending.filterMap node = [] := List.filterMap_eq_nil_iff.mpr hrest
        have hnext := Delivers.finish [] blockNum pending (ih (by rw [hfilter]) hrest)
        rw [hfirst] at hnext
        exact hnext
    | cons b blocks ih =>
      -- the task of the block that comes first is the first to finish
      obtain ⟨blockNum, hmem, hnode⟩ := List.mem_filterMap.mp (h.subset List.mem_cons_self)
      obtain ⟨before, after, rfl⟩ := List.append_of_mem hmem
      rw [List.filterMap_append, List.filterMap_cons_some hnode] at h
      have hrest : blocks.Perm ((before ++ after).filterMap node) := by
        rw [List.filterMap_append]
        exact (h.trans List.perm_middle).cons_inv
      have hnext := Delivers.finish before blockNum after (ih hrest)
      rw [hnode] at hnext
      exact hnext

/-! ### Nothing is out of range over blocks -/

/-- The index of a quantile is that of an entry. -/
theorem exists_gasQuantile (ceilMul : ℕ → ℕ) {gasValues : List ℕ} (h : gasValues ≠ []) :
    ∃ gas, gasQuantile ceilMul gasValues = some gas := by
  have hpos : 1 ≤ gasValues.length := List.length_pos_iff.mpr h
  have hlt : min (ceilMul gasValues.length - 1) (gasValues.length - 1) < gasValues.length :=
    (min_le_right _ _).trans_lt (Nat.sub_lt hpos Nat.one_pos)
  refine ⟨gasValues[min (ceilMul gasValues.length - 1) (gasValues.length - 1)], ?_⟩
  rw [gasQuantile, subU64, if_pos hpos]
  exact List.getElem?_eq_getElem hlt

theorem exists_gasQuantiles (ceilMul : Quantile → ℕ → ℕ) (gasValues : List ℕ) :
    ∃ quantiles, gasQuantiles ceilMul gasValues = some quantiles := by
  rw [gasQuantiles]
  split_ifs with hnil
  · exact ⟨_, rfl⟩
  · obtain ⟨p50, h50⟩ := exists_gasQuantile (ceilMul .p50) hnil
    obtain ⟨p90, h90⟩ := exists_gasQuantile (ceilMul .p90) hnil
    obtain ⟨p95, h95⟩ := exists_gasQuantile (ceilMul .p95) hnil
    obtain ⟨p99, h99⟩ := exists_gasQuantile (ceilMul .p99) hnil
    rw [h50, h90, h95, h99]
    exact ⟨_, rfl⟩

/-- The differences of sorted timestamps add up to that of the last and the first one. -/
theorem exists_timeDeltas {first : ℕ} {timestamps : List ℕ}
    (h : (first :: timestamps).Pairwise (· ≤ ·)) :
    ∃ deltas, timeDeltas (first :: timestamps) = some deltas ∧
      first + deltas.sum = (first :: timestamps).getLast (List.cons_ne_nil _ _) := by
  induction timestamps generalizing first with
  | nil => exact ⟨[], rfl, rfl⟩
  | cons second timestamps ih =>
    obtain ⟨hfirst, hrest⟩ := List.pairwise_cons.mp h
    obtain ⟨deltas, hdeltas, hsum⟩ := ih hrest
    have hle := hfirst second List.mem_cons_self
    refine ⟨(second - first) :: deltas, ?_, ?_⟩
    · rw [timeDeltas, List.tail_cons] at hdeltas
      rw [timeDeltas, List.tail_cons, List.zip_cons_cons, List.mapM_cons, hdeltas, subU64,
        if_pos hle]
      rfl
    · rw [List.getLast_cons_cons, ← hsum, List.sum_cons]
      omega

/-- There is an average when there are blocks. -/
theorem exists_averageBlockTime {timestamps : List ℕ} (hne : timestamps ≠ [])
    (hsorted : timestamps.Pairwise (· ≤ ·)) (hlt : ∀ t ∈ timestamps, t < 2 ^ 64) :
    ∃ average, averageBlockTime timestamps = some average := by
  obtain ⟨first, timestamps, rfl⟩ := List.exists_cons_of_ne_nil hne
  obtain ⟨deltas, hdeltas, hsum⟩ := exists_timeDeltas hsorted
  have hlast := hlt _ (List.getLast_mem (List.cons_ne_nil first timestamps))
  have hfits : sumU64 deltas = some deltas.sum := sumU64_eq_some.mpr ⟨rfl, by omega⟩
  have hpos : 1 ≤ (first :: timestamps).length := Nat.succ_pos _
  rw [averageBlockTime, hdeltas]
  simp only [Option.bind_eq_bind, Option.bind_some, hfits, subU64, if_pos hpos]
  exact ⟨_, rfl⟩

theorem mem_sortedTimestamps_lt {blocks : List Block} :
    ∀ t ∈ sortedTimestamps blocks, t < 2 ^ 64 := by
  intro t ht
  rw [sortedTimestamps, List.mem_insertionSort] at ht
  obtain ⟨b, -, rfl⟩ := List.mem_map.mp ht
  exact b.timestamp.toNat_lt

/-- The statistics fail without blocks only. -/
theorem exists_blockStats (ceilMul : Quantile → ℕ → ℕ) {blocks : List Block} (h : blocks ≠ []) :
    ∃ stats, blockStats ceilMul blocks = some stats := by
  obtain ⟨quantiles, hquantiles⟩ := exists_gasQuantiles ceilMul (sortedGas blocks)
  have hne : sortedTimestamps blocks ≠ [] := by
    rw [← List.length_pos_iff, sortedTimestamps, List.length_insertionSort, List.length_map]
    exact List.length_pos_iff.mpr h
  obtain ⟨average, haverage⟩ := exists_averageBlockTime hne (List.pairwise_insertionSort _ _)
    mem_sortedTimestamps_lt
  rw [blockStats]
  simp only [hquantiles, haverage, Option.bind_eq_bind, Option.bind_some]
  exact ⟨_, rfl⟩

theorem blockStats_nil (ceilMul : Quantile → ℕ → ℕ) : blockStats ceilMul [] = none := rfl

/-- What the statistics are. -/
theorem blockStats_eq_some {ceilMul : Quantile → ℕ → ℕ} {blocks : List Block} {stats : BlockStats}
    (h : blockStats ceilMul blocks = some stats) :
    gasQuantiles ceilMul (sortedGas blocks) = some stats.gasQuantiles ∧
      averageBlockTime (sortedTimestamps blocks) = some stats.averageBlockTime ∧
      stats.peakGas = peakOf (fun b => b.gasUsed.toNat) blocks ∧
      stats.blockGasLimit = (blocks.head?.map fun b => b.gasLimit.toNat).getD 30_000_000 ∧
      stats.startBlock = (blocks.head?.map fun b => b.number.toNat).getD 0 ∧
      stats.endBlock = (blocks.getLast?.map fun b => b.number.toNat).getD 0 := by
  rw [blockStats, Option.bind_eq_bind, Option.bind_eq_some_iff] at h
  obtain ⟨quantiles, hquantiles, h⟩ := h
  rw [Option.bind_eq_bind, Option.bind_eq_some_iff] at h
  obtain ⟨average, haverage, h⟩ := h
  obtain rfl := Option.some.inj h
  exact ⟨hquantiles, haverage, rfl, rfl, rfl, rfl⟩

/-- Sorted values do not depend on the order of the blocks. -/
theorem insertionSort_map_eq {f : Block → ℕ} {blocks order : List Block} (h : order.Perm blocks) :
    (order.map f).insertionSort (· ≤ ·) = (blocks.map f).insertionSort (· ≤ ·) := by
  have hperm : ((order.map f).insertionSort (· ≤ ·)).Perm
      ((blocks.map f).insertionSort (· ≤ ·)) :=
    ((List.perm_insertionSort _ _).trans (h.map f)).trans (List.perm_insertionSort _ _).symm
  exact hperm.eq_of_pairwise' (List.pairwise_insertionSort _ _) (List.pairwise_insertionSort _ _)

/-! ### What the statistics are for -/

/-- The numbers of the blocks. -/
def numbersOf (blocks : List Block) : Set ℕ := {n | ∃ b ∈ blocks, b.number.toNat = n}

/-- The report on blocks that the pending tasks have delivered: it begins and ends with the smallest
and the largest number, and the other statistics are those of every other order. -/
def OrderIndependent (ceilMul : Quantile → ℕ → ℕ) (node : ℕ → Option Block) (pending : List ℕ)
    (blocks : List Block) : Prop :=
  ∀ stats, blockStats ceilMul blocks = some stats →
    IsLeast (numbersOf blocks) stats.startBlock ∧ IsGreatest (numbersOf blocks) stats.endBlock ∧
      ∀ order stats', Delivers node pending order → blockStats ceilMul order = some stats' →
        stats'.blockGasLimit = stats.blockGasLimit ∧
          stats'.gasQuantiles = stats.gasQuantiles ∧
          stats'.averageBlockTime = stats.averageBlockTime

/-- The first and the last block have the smallest and the largest number, and the gas limits are
the same. -/
structure InOrder (blocks : List Block) : Prop where
  first : ∀ first ∈ blocks.head?, ∀ b ∈ blocks, first.number ≤ b.number
  last : ∀ last ∈ blocks.getLast?, ∀ b ∈ blocks, b.number ≤ last.number
  gasLimit : ∀ a ∈ blocks, ∀ b ∈ blocks, a.gasLimit = b.gasLimit

/-- Quantiles and the average are taken from sorted values. -/
theorem blockStats_perm {ceilMul : Quantile → ℕ → ℕ} {blocks order : List Block}
    {stats stats' : BlockStats} (h : order.Perm blocks)
    (hstats : blockStats ceilMul blocks = some stats)
    (hstats' : blockStats ceilMul order = some stats') :
    stats'.gasQuantiles = stats.gasQuantiles ∧
      stats'.averageBlockTime = stats.averageBlockTime := by
  obtain ⟨hquantiles, haverage, -⟩ := blockStats_eq_some hstats
  obtain ⟨hquantiles', haverage', -⟩ := blockStats_eq_some hstats'
  rw [sortedGas, insertionSort_map_eq h, ← sortedGas, hquantiles] at hquantiles'
  rw [sortedTimestamps, insertionSort_map_eq h, ← sortedTimestamps, haverage] at haverage'
  exact ⟨(Option.some.inj hquantiles').symm, (Option.some.inj haverage').symm⟩

/-- A block has the smallest number. -/
theorem isLeast_number {blocks : List Block} {a : Block} (ha : a ∈ blocks) :
    IsLeast (numbersOf blocks) a.number.toNat ↔ ∀ b ∈ blocks, a.number ≤ b.number := by
  constructor
  · intro h b hb
    exact h.2 ⟨b, hb, rfl⟩
  · intro h
    refine ⟨⟨a, ha, rfl⟩, ?_⟩
    rintro n ⟨b, hb, rfl⟩
    exact h b hb

theorem isGreatest_number {blocks : List Block} {a : Block} (ha : a ∈ blocks) :
    IsGreatest (numbersOf blocks) a.number.toNat ↔ ∀ b ∈ blocks, b.number ≤ a.number := by
  constructor
  · intro h b hb
    exact h.2 ⟨b, hb, rfl⟩
  · intro h
    refine ⟨⟨a, ha, rfl⟩, ?_⟩
    rintro n ⟨b, hb, rfl⟩
    exact h b hb

/-- The gas limit is that of the first block, which every block is in some order. -/
theorem blockGasLimit_iff (ceilMul : Quantile → ℕ → ℕ) {blocks : List Block} {stats : BlockStats}
    (hstats : blockStats ceilMul blocks = some stats) :
    (∀ order stats', order.Perm blocks → blockStats ceilMul order = some stats' →
      stats'.blockGasLimit = stats.blockGasLimit) ↔
        ∀ a ∈ blocks, ∀ b ∈ blocks, a.gasLimit = b.gasLimit := by
  have hfirst {first : Block} {rest : List Block} {stats : BlockStats}
      (h : blockStats ceilMul (first :: rest) = some stats) :
      stats.blockGasLimit = first.gasLimit.toNat := (blockStats_eq_some h).2.2.2.1
  constructor
  · intro horders a ha b hb
    have hlimit : ∀ c ∈ blocks, c.gasLimit.toNat = stats.blockGasLimit := by
      -- in some order this block comes first
      intro c hc
      obtain ⟨before, after, rfl⟩ := List.append_of_mem hc
      obtain ⟨stats', hstats'⟩ := exists_blockStats ceilMul (List.cons_ne_nil c (before ++ after))
      rw [← hfirst hstats']
      exact horders _ stats' List.perm_middle.symm hstats'
    exact UInt64.toNat_inj.mp ((hlimit a ha).trans (hlimit b hb).symm)
  · intro hsame order stats' horder hstats'
    cases order with
    | nil => cases (blockStats_nil ceilMul).symm.trans hstats'
    | cons first' rest' =>
      cases blocks with
      | nil => cases (blockStats_nil ceilMul).symm.trans hstats
      | cons first rest =>
        rw [hfirst hstats, hfirst hstats', hsame first' (horder.subset List.mem_cons_self) first
          List.mem_cons_self]

/-- The statistics are as they should be for an order of delivery exactly when it begins with the
smallest and ends with the largest number, and all gas limits are the same. -/
theorem orderIndependent_iff (ceilMul : Quantile → ℕ → ℕ) {node : ℕ → Option Block}
    {pending : List ℕ} {blocks : List Block} (h : Delivers node pending blocks) :
    OrderIndependent ceilMul node pending blocks ↔ InOrder blocks := by
  have hperm {order : List Block} : Delivers node pending order ↔ order.Perm blocks := by
    rw [delivers_iff]
    exact ⟨fun horder => horder.trans (delivers_iff.mp h).symm,
      fun horder => horder.trans (delivers_iff.mp h)⟩
  by_cases hne : blocks = []
  · -- without blocks there are no statistics to be wrong
    subst hne
    constructor
    · intro _
      exact ⟨by simp, by simp, by simp⟩
    · intro _ stats hstats
      cases (blockStats_nil ceilMul).symm.trans hstats
  obtain ⟨stats, hstats⟩ := exists_blockStats ceilMul hne
  obtain ⟨-, -, -, -, hstart, hend⟩ := blockStats_eq_some hstats
  rw [List.head?_eq_some_head hne, Option.map_some, Option.getD_some] at hstart
  rw [List.getLast?_eq_some_getLast hne, Option.map_some, Option.getD_some] at hend
  have hleast := isLeast_number (List.head_mem hne)
  have hgreatest := isGreatest_number (List.getLast_mem hne)
  have hlimit := blockGasLimit_iff ceilMul hstats
  rw [← hstart] at hleast
  rw [← hend] at hgreatest
  constructor
  · intro hind
    obtain ⟨hstartLeast, hendGreatest, horders⟩ := hind stats hstats
    refine ⟨?_, ?_, hlimit.mp fun order stats' horder hstats' =>
      (horders order stats' (hperm.mpr horder) hstats').1⟩
    · rw [List.head?_eq_some_head hne]
      rintro _ ⟨⟩
      exact hleast.mp hstartLeast
    · rw [List.getLast?_eq_some_getLast hne]
      rintro _ ⟨⟩
      exact hgreatest.mp hendGreatest
  · intro hinOrder stats' hstats'
    obtain rfl := Option.some.inj (hstats.symm.trans hstats')
    refine ⟨hleast.mpr (hinOrder.first _ (List.head?_eq_some_head hne)),
      hgreatest.mpr (hinOrder.last _ (List.getLast?_eq_some_getLast hne)), ?_⟩
    intro order stats' horder hstats'
    rw [hperm] at horder
    exact ⟨hlimit.mpr hinOrder.gasLimit order stats' horder hstats',
      blockStats_perm horder hstats hstats'⟩

/-- The index without rounding errors. -/
def exactCeil : Quantile → ℕ → ℕ
  | .p50, len => (len * 50 + 99) / 100
  | .p90, len => (len * 90 + 99) / 100
  | .p95, len => (len * 95 + 99) / 100
  | .p99, len => (len * 99 + 99) / 100

/-- An empty block. -/
def emptyBlock (blockNum : ℕ) : Block :=
  ⟨.ofNat blockNum, .ofNat (12 * blockNum), 0, 30_000_000, 0⟩

/-- The two blocks come in order. -/
theorem orderIndependent_inOrder :
    OrderIndependent exactCeil (fun n => some (emptyBlock n)) [1, 2] ([1, 2].map emptyBlock) :=
  (orderIndependent_iff exactCeil (delivers_iff.mpr (.refl _))).mpr
    ⟨by decide, by decide, by decide⟩

/-- The second block comes first: the report goes from block 2 to block 1. -/
theorem orderIndependent_counterexample :
    Delivers (fun n => some (emptyBlock n)) [1, 2] ([2, 1].map emptyBlock) ∧
      ¬ OrderIndependent exactCeil (fun n => some (emptyBlock n)) [1, 2]
        ([2, 1].map emptyBlock) := by
  refine ⟨delivers_iff.mpr (.swap _ _ _), fun h => ?_⟩
  obtain ⟨stats, hstats⟩ := exists_blockStats exactCeil
    (List.cons_ne_nil (emptyBlock 2) [emptyBlock 1])
  obtain ⟨-, -, -, -, hstart, -⟩ := blockStats_eq_some hstats
  have hle : stats.startBlock ≤ (emptyBlock 1).number.toNat :=
    (h stats hstats).1.2 ⟨emptyBlock 1, by simp, rfl⟩
  rw [hstart] at hle
  exact absurd hle (by decide)

/-! ### Panics -/

section Panics

variable {α β : Type} {x : Except ReportError α}

/-- The steps of a report that do not panic. -/
theorem bind_ne_panic {f : α → Except ReportError β} (hx : x ≠ .error .panic) :
    (x >>= f) ≠ .error .panic ↔ ∀ a, x = .ok a → f a ≠ .error .panic := by
  cases x with
  | ok a => simp [bind, Except.bind]
  | error e =>
    constructor
    · intro _ a ha
      cases ha
    · intro _ h
      obtain rfl := Except.error.inj h
      exact hx rfl

theorem orPanic_bind_ne_panic {o : Option α} {f : α → Except ReportError β} :
    (orPanic o >>= f) ≠ .error .panic ↔ ∃ a, o = some a ∧ f a ≠ .error .panic := by
  cases o with
  | none => simp [orPanic, bind, Except.bind]
  | some a => simp [orPanic, bind, Except.bind]

theorem dbAnswer_ne_panic (answer : Except Text α) : dbAnswer answer ≠ .error .panic := by
  cases answer <;> simp [dbAnswer, Except.mapError]

theorem mapError_render_ne_panic (answer : Except Text α) :
    answer.mapError ReportError.render ≠ .error .panic := by
  cases answer <;> simp [Except.mapError]

theorem map_ne_panic {f : α → β} (hx : x ≠ .error .panic) : x.map f ≠ .error .panic := by
  cases x with
  | ok a => simp [Except.map]
  | error e => simpa [Except.map] using hx

theorem mapM_ne_panic {f : α → Except ReportError β} {l : List α}
    (h : ∀ a, f a ≠ .error .panic) : l.mapM f ≠ .error .panic := by
  intro hpanic
  obtain ⟨a, -, ha⟩ := List.exists_of_mapM_eq_error hpanic
  exact h a ha

end Panics

namespace DbOps

variable {db : DbOps} {env : ReportEnv} {params : ReportParams}

theorem lastRun_ne_panic : db.lastRun env params ≠ .error .panic := by
  rw [lastRun, bind_ne_panic (dbAnswer_ne_panic _)]
  intro numRuns _
  rw [bind_ne_panic (mapError_render_ne_panic _)]
  intro _ _
  split_ifs
  · simp [pure, Except.pure]
  · have hend : params.endRunId numRuns ≠ .error .panic := by
      rw [ReportParams.endRunId]
      split
      · split_ifs <;> simp
      · simp
    rw [bind_ne_panic hend]
    intro endRunId _
    rw [bind_ne_panic (dbAnswer_ne_panic _)]
    intro run _
    cases run <;> simp [pure, Except.pure, throw, throwThe, MonadExceptOf.throw]

theorem rowsOf_ne_panic (id : ℕ) : db.rowsOf id ≠ .error .panic :=
  map_ne_panic (dbAnswer_ne_panic _)

theorem collectBlocks_ne_panic (startRunId endRunId : ℕ) (rpcUrl : Text) :
    db.collectBlocks env startRunId endRunId rpcUrl ≠ .error .panic := by
  have hexport (id : ℕ) : db.exportTxs env id ≠ .error .panic := by
    rw [exportTxs, bind_ne_panic (rowsOf_ne_panic id)]
    intro rows _
    rw [bind_ne_panic (mapError_render_ne_panic _)]
    intro _ _
    simp [pure, Except.pure]
  have hruns : db.collectRuns rpcUrl startRunId endRunId ≠ .error .panic :=
    map_ne_panic (mapM_ne_panic fun _ => dbAnswer_ne_panic _)
  rw [collectBlocks, bind_ne_panic (map_ne_panic (mapM_ne_panic hexport))]
  intro allTxs _
  rw [bind_ne_panic hruns]
  intro runData _
  rw [bind_ne_panic (mapError_render_ne_panic _)]
  intro blocks _
  simp [pure, Except.pure]

theorem storeBlocks_ne_panic (blocks : List Block) (startRunId endRunId : ℕ) :
    db.storeBlocks env blocks startRunId endRunId ≠ .error .panic := by
  have hbuckets : db.collectBuckets startRunId endRunId ≠ .error .panic :=
    map_ne_panic (mapM_ne_panic fun _ => map_ne_panic (mapM_ne_panic fun _ =>
      map_ne_panic (dbAnswer_ne_panic _)))
  rw [storeBlocks, bind_ne_panic (mapError_render_ne_panic _)]
  intro _ _
  exact hbuckets

end DbOps

/-- The percentage of the peak gas can be taken. -/
structure GasWithinRange (blocks : List Block) : Prop where
  gasUsed : ∀ b ∈ blocks, b.gasUsed.toNat * 100 < 2 ^ 64
  gasLimit : ∀ first ∈ blocks.head?, first.gasLimit ≠ 0

namespace DbOps

/-- The report comes to its end, or to an error. -/
def NoPanic (db : DbOps) (env : ReportEnv) (ceilMul : Quantile → ℕ → ℕ) (params : ReportParams) :
    Prop :=
  (∃ metadata, db.reportMetadata env ceilMul params = .ok metadata) ∨
    ∃ e, db.reportMetadata env ceilMul params = .error e ∧ e ≠ .panic

/-- The range of runs does not begin before run 0. Where the blocks are fetched, there are some, and
where they are stored and the latencies read, the gas is within range. -/
def RunWithinRange (db : DbOps) (env : ReportEnv) (params : ReportParams) (endRunId : ℕ)
    (run : SpamRun) : Prop :=
  params.precedingRuns ≤ endRunId ∧
    ∀ r blocks, db.collectBlocks env (endRunId - params.precedingRuns) endRunId run.rpcUrl =
      .ok (r, blocks) →
      blocks ≠ [] ∧ ((∃ buckets, db.storeBlocks env blocks (endRunId - params.precedingRuns)
        endRunId = .ok buckets) → GasWithinRange blocks)

/-- The last run, if it is found, is within range. -/
def WithinRange (db : DbOps) (env : ReportEnv) (params : ReportParams) : Prop :=
  ∀ endRunId run, db.lastRun env params = .ok (some (endRunId, run)) →
    db.RunWithinRange env params endRunId run

end DbOps

theorem peakOf_le {f : Block → ℕ} {blocks : List Block} {n : ℕ} :
    peakOf f blocks ≤ n ↔ ∀ b ∈ blocks, f b ≤ n := by
  rw [peakOf, Bars.foldl_max_le_iff, List.forall_mem_map]
  exact and_iff_right (Nat.zero_le n)

theorem exists_percentOf_iff {peakGas blockGasLimit : ℕ} :
    (∃ percent, percentOf peakGas blockGasLimit = some percent) ↔
      peakGas * 100 < 2 ^ 64 ∧ blockGasLimit ≠ 0 := by
  constructor
  · rintro ⟨percent, hpercent⟩
    obtain ⟨scaled, hscaled, hpercent⟩ := Option.bind_eq_some_iff.mp hpercent
    refine ⟨(mulU64_eq_some.mp hscaled).2, fun hzero => ?_⟩
    rw [if_pos hzero] at hpercent
    cases hpercent
  · rintro ⟨hlt, hzero⟩
    rw [percentOf, mulU64_eq_some.mpr ⟨rfl, hlt⟩, Option.bind_some, if_neg hzero]
    exact ⟨_, rfl⟩

/-- The metrics fail when the percentage does. -/
theorem exists_metrics_iff (r : Report) {ceilMul : Quantile → ℕ → ℕ} {blocks : List Block}
    {stats : BlockStats} (h : blockStats ceilMul blocks = some stats) :
    (∃ metrics, r.metrics stats = some metrics) ↔ GasWithinRange blocks := by
  obtain ⟨-, -, hpeak, hlimit, -, -⟩ := blockStats_eq_some h
  have hgas : stats.peakGas * 100 < 2 ^ 64 ↔ ∀ b ∈ blocks, b.gasUsed.toNat * 100 < 2 ^ 64 := by
    -- the peak is within range when each block is
    have hmul (n : ℕ) : n * 100 < 2 ^ 64 ↔ n ≤ (2 ^ 64 - 1) / 100 := by omega
    simp only [hmul, hpeak, peakOf_le]
  have hzero : stats.blockGasLimit ≠ 0 ↔ ∀ first ∈ blocks.head?, first.gasLimit ≠ 0 := by
    rw [hlimit]
    cases blocks.head? with
    | none => simp
    | some first => simp [← UInt64.toNat_inj]
  have hpercent : (∃ metrics, r.metrics stats = some metrics) ↔
      ∃ percent, percentOf stats.peakGas stats.blockGasLimit = some percent := by
    rw [Report.metrics]
    cases percentOf stats.peakGas stats.blockGasLimit <;> simp
  rw [hpercent, exists_percentOf_iff, hgas, hzero]
  exact ⟨fun ⟨hgas, hlimit⟩ => ⟨hgas, hlimit⟩, fun h => ⟨h.gasUsed, h.gasLimit⟩⟩

namespace DbOps

variable {db : DbOps} {env : ReportEnv} {params : ReportParams}

theorem metadataUpTo_ne_panic_iff (ceilMul : Quantile → ℕ → ℕ) (endRunId : ℕ) (run : SpamRun) :
    db.metadataUpTo env ceilMul params endRunId run ≠ .error .panic ↔
      db.RunWithinRange env params endRunId run := by
  have hsub (startRunId : ℕ) : subU64 endRunId params.precedingRuns = some startRunId ↔
      params.precedingRuns ≤ endRunId ∧ startRunId = endRunId - params.precedingRuns := by
    rw [subU64]
    split_ifs with hle
    · simp [hle, eq_comm]
    · simp [hle]
  rw [metadataUpTo, orPanic_bind_ne_panic]
  simp only [hsub, and_assoc, exists_and_left, exists_eq_left, RunWithinRange]
  refine and_congr_right fun _ => ?_
  rw [bind_ne_panic (collectBlocks_ne_panic _ _ _)]
  constructor
  · intro h r blocks hcollect
    have hrest := h (r, blocks) hcollect
    rw [orPanic_bind_ne_panic] at hrest
    obtain ⟨stats, hstats, hrest⟩ := hrest
    refine ⟨fun hnil => ?_, ?_⟩
    -- the average fails without blocks, the percentage on gas out of range
    · rw [hnil, blockStats_nil] at hstats
      cases hstats
    · rintro ⟨buckets, hstore⟩
      rw [bind_ne_panic (storeBlocks_ne_panic _ _ _)] at hrest
      obtain ⟨metrics, hmetrics, -⟩ := orPanic_bind_ne_panic.mp (hrest buckets hstore)
      exact (exists_metrics_iff r hstats).mp ⟨metrics, hmetrics⟩
  · rintro h ⟨r, blocks⟩ hcollect
    obtain ⟨hne, hgas⟩ := h r blocks hcollect
    obtain ⟨stats, hstats⟩ := exists_blockStats ceilMul hne
    refine orPanic_bind_ne_panic.mpr ⟨stats, hstats, ?_⟩
    rw [bind_ne_panic (storeBlocks_ne_panic _ _ _)]
    intro buckets hstore
    obtain ⟨metrics, hmetrics⟩ := (exists_metrics_iff r hstats).mpr (hgas ⟨buckets, hstore⟩)
    exact orPanic_bind_ne_panic.mpr ⟨metrics, hmetrics, by simp [pure, Except.pure]⟩

/-- The range of runs, the statistics of the blocks and the percentage of the metrics run into no
arithmetic panic exactly when the range, the blocks and the gas used in them stay within bounds. -/
theorem noPanic_iff (db : DbOps) (env : ReportEnv) (ceilMul : Quantile → ℕ → ℕ)
    (params : ReportParams) : NoPanic db env ceilMul params ↔ WithinRange db env params := by
  have hne : NoPanic db env ceilMul params ↔
      db.reportMetadata env ceilMul params ≠ .error .panic := by
    rw [NoPanic]
    cases db.reportMetadata env ceilMul params <;> simp
  rw [hne, reportMetadata, bind_ne_panic lastRun_ne_panic, WithinRange]
  constructor
  · intro h endRunId run hlast
    have hrest : (db.metadataUpTo env ceilMul params endRunId run >>= fun metadata =>
        pure (some metadata)) ≠ .error .panic := h _ hlast
    rw [← metadataUpTo_ne_panic_iff ceilMul]
    intro hpanic
    rw [hpanic] at hrest
    exact hrest rfl
  · intro h last hlast
    cases last with
    | none => simp [pure, Except.pure]
    | some last =>
      obtain ⟨endRunId, run⟩ := last
      have hrun := (metadataUpTo_ne_panic_iff ceilMul endRunId run).mpr (h endRunId run hlast)
      rw [bind_ne_panic hrun]
      intro metadata _
      simp [pure, Except.pure]

/-- A transaction that did not land. -/
def unlanded : RunTx :=
  { TwoChains.landed 0x1 0 with endTimestampMs := none, blockNumber := none, gasUsed := none }

/-- One run, with a transaction that did not land. -/
def unlandedRun : DbOps := .ofTables [TwoChains.run 1 TwoChains.devnet] [(1, unlanded)] []

/-- A file system and a node without errors. -/
def answeringEnv : ReportEnv where
  createReportsDir := .ok ()
  saveCsvReport _ _ := .ok ()
  cachedBlocks := none
  estimateBlockData _ _ := .ok []
  getBlocks minBlock maxBlock :=
    .ok ((List.range' minBlock (maxBlock + 1 - minBlock)).map emptyBlock)
  getBlockTraces _ := .ok ()
  saveCache _ := .ok ()

/-- Without landed transactions there are no blocks, and one is subtracted from their number. -/
theorem noPanic_counterexample :
    unlandedRun.numRuns = .ok 1 ∧ ¬ unlandedRun.NoPanic answeringEnv exactCeil ⟨none, 0⟩ := by
  have hpanic : unlandedRun.reportMetadata answeringEnv exactCeil ⟨none, 0⟩ = .error .panic := rfl
  refine ⟨rfl, ?_⟩
  rw [NoPanic, hpanic]
  rintro (⟨metadata, hmetadata⟩ | ⟨e, he, hne⟩)
  · cases hmetadata
  · exact hne (Except.error.inj he).symm

end DbOps

end Contender
