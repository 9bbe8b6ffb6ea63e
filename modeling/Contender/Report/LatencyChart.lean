import Contender.Data.Quantiles
import Contender.Data.Traverse
import Contender.Report.Latency
import Mathlib.Algebra.Order.Archimedean.Basic
import Mathlib.Data.Rat.Floor

/-!
# The latency charts

The report adds up the latency buckets of its runs, method by method, and a chart shows the counts
of the single buckets and three quantiles. The sums are those of `u64`; bounds and quantiles are
taken as exact numbers.

## Main results

* `soundLatency_iff` — the added up buckets, the chart and the quantiles are right exactly when the
  last counts of the runs add up to less than 2⁶⁴
-/

namespace Contender

open Histogram (Bucket)

section Merging

variable {K : Type*} [DecidableEq K]

/-- One more bucket in `canonical_latency`; `none` is an overflow. -/
def addLatency : List (Bucket K) → Bucket K → Option (List (Bucket K))
  | [], bucket => some [bucket]
  | entry :: canonical, bucket =>
    if entry.upperBound = bucket.upperBound then
      -- `entry.cumulative_count += bucket.cumulative_count`
      (addU64 entry.cumulativeCount bucket.cumulativeCount).map fun count =>
        { entry with cumulativeCount := count } :: canonical
    else (addLatency canonical bucket).map fun rest => entry :: rest

/-- `canonical_latency` of a method, from what `get_latency_metrics` has for each run. Where no
sum overflows, it is `canonicalLatency` (`canonicalLatencyOf_rows`). -/
def canonicalLatencyOf (runs : List (List (Bucket K))) : Option (List (Bucket K)) :=
  runs.foldlM (fun canonical latencies => latencies.foldlM addLatency canonical) []

end Merging

/-- The target is reached in this bucket or in one behind it. Behind the last bucket it is taken
to be the last bound. -/
def estimateFrom (target : ℕ) : ℚ → ℕ → List (Bucket ℚ) → Option ℚ
  | lowerBound, _, [] => some lowerBound
  | lowerBound, lowerCount, b :: buckets =>
    if target ≤ b.cumulativeCount then do
      let range ← subU64 b.cumulativeCount lowerCount
      let position ← subU64 target lowerCount
      -- an empty bucket is taken to have one request
      return lowerBound + (b.upperBound - lowerBound) * (position / (max range 1 : ℕ))
    else estimateFrom target b.upperBound b.cumulativeCount buckets

/-- `estimate_quantile`; `none` is an underflow. The target is cast to `u64`. -/
def estimateQuantile (buckets : List (Bucket ℚ)) (quantile : ℚ) : Option ℚ :=
  match buckets with
  | [] => some 0
  | b :: buckets =>
    let total := Histogram.total (b :: buckets)
    -- `as u64` saturates at both ends
    let target := min ⌈quantile * total⌉₊ (2 ^ 64 - 1)
    estimateFrom target 0 0 (b :: buckets)

structure LatencyChart where
  buckets : List (Bucket ℚ)

structure LatencyQuantiles where
  p50 : ℚ
  p90 : ℚ
  p99 : ℚ

structure LatencyData where
  buckets : List Text
  counts : List ℕ
  quantiles : LatencyQuantiles

namespace LatencyChart

def new (buckets : List (Bucket ℚ)) : LatencyChart := ⟨buckets⟩

/-- The labels, in milliseconds. -/
def labels (render : ℚ → Text) (buckets : List (Bucket ℚ)) : Option (List Text) :=
  buckets.zipIdx.mapM fun (b, i) => do
    let lowerMs ← if i = 0 then some 0 else buckets[i - 1]?.map Bucket.upperBound
    return render (lowerMs * 1000) ++ " - ".toList ++ render (b.upperBound * 1000)

/-- The count of a single bucket: the count of the previous bucket is subtracted. -/
def bucketCount (buckets : List (Bucket ℚ)) (i : ℕ) (b : Bucket ℚ) : Option ℕ :=
  if i = 0 then some b.cumulativeCount
  -- the source takes it for granted that the counts do not fall
  else buckets[i - 1]?.bind fun previous => subU64 b.cumulativeCount previous.cumulativeCount

def counts (buckets : List (Bucket ℚ)) : Option (List ℕ) :=
  buckets.zipIdx.mapM fun entry => bucketCount buckets entry.2 entry.1

/-- `LatencyChart::echart_data`, where `render` writes a number; `none` is a panic. -/
def echartData (render : ℚ → Text) (chart : LatencyChart) : Option LatencyData := do
  let buckets ← labels render chart.buckets
  let counts ← counts chart.buckets
  let p50 ← estimateQuantile chart.buckets (1 / 2)
  let p90 ← estimateQuantile chart.buckets (9 / 10)
  let p99 ← estimateQuantile chart.buckets (99 / 100)
  return ⟨buckets, counts, ⟨p50 * 1000, p90 * 1000, p99 * 1000⟩⟩

end LatencyChart

/-! ### What the latencies are for -/

/-- The runs have the same positive bounds, which rise, and `u64` counts that do not fall. -/
structure SameBounds (bounds : List ℚ) (runs : List (List (Bucket ℚ))) : Prop where
  pos : ∀ bound ∈ bounds, 0 < bound
  rising : bounds.Pairwise (· < ·)
  bounds_eq : ∀ run ∈ runs, run.map Bucket.upperBound = bounds
  counts : ∀ run ∈ runs, (run.map Bucket.cumulativeCount).Pairwise (· ≤ ·)
  counts_lt : ∀ run ∈ runs, ∀ b ∈ run, b.cumulativeCount < 2 ^ 64

/-- The count of a run in a bucket. -/
def countAt (i : ℕ) (run : List (Bucket ℚ)) : ℕ := (run.map Bucket.cumulativeCount).getD i 0

/-- The last bound, zero without buckets. -/
def lastBound (buckets : List (Bucket ℚ)) : ℚ := (buckets.getLast?.map Bucket.upperBound).getD 0

/-- Quantiles of the buckets are there between zero and the last bound, and do not fall. -/
structure SoundQuantiles (buckets : List (Bucket ℚ)) : Prop where
  mem : ∀ q, 0 ≤ q → q ≤ 1 →
    ∃ v, estimateQuantile buckets q = some v ∧ 0 ≤ v ∧ v ≤ lastBound buckets
  mono : ∀ q r v w, 0 ≤ q → q ≤ r → r ≤ 1 → estimateQuantile buckets q = some v →
    estimateQuantile buckets r = some w → v ≤ w

/-- The added up buckets have the bounds of the runs and the sums of their counts, and the chart
and the quantiles can be taken from them. -/
def SoundLatency (render : ℚ → Text) (bounds : List ℚ) (runs : List (List (Bucket ℚ))) : Prop :=
  ∃ merged, canonicalLatencyOf runs = some merged ∧
    (runs ≠ [] → merged = bounds.zipIdx.map fun (bound, i) =>
      ⟨bound, (runs.map (countAt i)).sum⟩) ∧
    (∃ data, (LatencyChart.new merged).echartData render = some data ∧
      data.counts.sum = Histogram.total merged) ∧
    SoundQuantiles merged

/-! ### Adding up -/

section Merging

variable {K : Type*} [DecidableEq K]

/-- A bucket is added as without bounds on the sums, when the counts fit. -/
theorem addLatency_eq_some {canonical : List (Bucket K)} {bucket : Bucket K}
    {r : List (Bucket K)} (hcanonical : ∀ b ∈ canonical, b.cumulativeCount < 2 ^ 64)
    (hbucket : bucket.cumulativeCount < 2 ^ 64) :
    addLatency canonical bucket = some r ↔
      r = Histogram.add canonical bucket ∧
        ∀ b ∈ Histogram.add canonical bucket, b.cumulativeCount < 2 ^ 64 := by
  induction canonical generalizing r with
  | nil =>
    rw [addLatency, Histogram.add, Option.some_inj, List.forall_mem_singleton]
    exact ⟨fun h => ⟨h.symm, hbucket⟩, fun h => h.1.symm⟩
  | cons entry canonical ih =>
    obtain ⟨hentry, hcanonical⟩ := List.forall_mem_cons.mp hcanonical
    rw [addLatency, Histogram.add]
    split_ifs with hbound
    · rw [Option.map_eq_some_iff, List.forall_mem_cons]
      constructor
      · rintro ⟨count, hcount, rfl⟩
        obtain ⟨rfl, hlt⟩ := addU64_eq_some.mp hcount
        exact ⟨rfl, hlt, hcanonical⟩
      · rintro ⟨rfl, hlt, -⟩
        exact ⟨_, addU64_eq_some.mpr ⟨rfl, hlt⟩, rfl⟩
    · rw [Option.map_eq_some_iff, List.forall_mem_cons]
      constructor
      · rintro ⟨rest, hrest, rfl⟩
        obtain ⟨rfl, hlt⟩ := (ih hcanonical).mp hrest
        exact ⟨rfl, hentry, hlt⟩
      · rintro ⟨rfl, -, hlt⟩
        exact ⟨_, (ih hcanonical).mpr ⟨rfl, hlt⟩, rfl⟩

theorem foldlM_addLatency_eq_some {canonical latencies r : List (Bucket K)}
    (hcanonical : ∀ b ∈ canonical, b.cumulativeCount < 2 ^ 64)
    (hlatencies : ∀ b ∈ latencies, b.cumulativeCount < 2 ^ 64) :
    latencies.foldlM addLatency canonical = some r ↔
      r = Histogram.merge canonical latencies ∧
        ∀ b ∈ Histogram.merge canonical latencies, b.cumulativeCount < 2 ^ 64 := by
  induction latencies generalizing canonical with
  | nil =>
    constructor
    · intro h
      exact ⟨(Option.some.inj h).symm, hcanonical⟩
    · rintro ⟨rfl, -⟩
      rfl
  | cons bucket latencies ih =>
    obtain ⟨hbucket, hlatencies⟩ := List.forall_mem_cons.mp hlatencies
    rw [List.foldlM_cons, Option.bind_eq_bind, Option.bind_eq_some_iff]
    constructor
    · rintro ⟨next, hnext, hrest⟩
      obtain ⟨rfl, hlt⟩ := (addLatency_eq_some hcanonical hbucket).mp hnext
      exact (ih hlt hlatencies).mp hrest
    · rintro ⟨rfl, hlt⟩
      have hnext : ∀ b ∈ Histogram.add canonical bucket, b.cumulativeCount < 2 ^ 64 :=
        Histogram.lt_of_merge hlt
      exact ⟨_, (addLatency_eq_some hcanonical hbucket).mpr ⟨rfl, hnext⟩,
        (ih hnext hlatencies).mpr ⟨rfl, hlt⟩⟩

/-- The buckets of all runs are added up when the sums fit. -/
theorem canonicalLatencyOf_eq_some {runs : List (List (Bucket K))} {r : List (Bucket K)}
    (h : ∀ run ∈ runs, ∀ b ∈ run, b.cumulativeCount < 2 ^ 64) :
    canonicalLatencyOf runs = some r ↔
      r = Histogram.merge [] runs.flatten ∧
        ∀ b ∈ Histogram.merge [] runs.flatten, b.cumulativeCount < 2 ^ 64 := by
  have hflatten : canonicalLatencyOf runs = runs.flatten.foldlM addLatency [] := by
    rw [canonicalLatencyOf]
    generalize ([] : List (Bucket K)) = canonical
    induction runs generalizing canonical with
    | nil => rfl
    | cons run runs ih =>
      rw [List.flatten_cons, List.foldlM_append, List.foldlM_cons]
      simp only [ih fun run hrun => h run (List.mem_cons_of_mem _ hrun)]
  rw [hflatten]
  refine foldlM_addLatency_eq_some (by simp) fun b hb => ?_
  obtain ⟨run, hrun, hmem⟩ := List.mem_flatten.mp hb
  exact h run hrun b hmem

end Merging

/-- The sums of the rows of a method are those that its request counts come from. -/
theorem canonicalLatencyOf_rows {rows : List LatencyRow} (h : ∀ row ∈ rows, row.count < 2 ^ 64)
    {startRunId endRunId : ℕ} {method : Text} {r : List (Bucket ℕ)}
    (hr : canonicalLatencyOf ((runIds startRunId endRunId).map fun runId =>
      getLatencyMetrics rows runId method) = some r) :
    r = canonicalLatency rows startRunId endRunId method := by
  have hlt : ∀ run ∈ (runIds startRunId endRunId).map (fun runId =>
      getLatencyMetrics rows runId method), ∀ b ∈ run, b.cumulativeCount < 2 ^ 64 := by
    intro run hrun b hb
    obtain ⟨runId, -, rfl⟩ := List.mem_map.mp hrun
    obtain ⟨row, hrow, rfl⟩ := List.mem_map.mp hb
    exact h row (List.mem_of_mem_filter hrow)
  rw [((canonicalLatencyOf_eq_some hlt).mp hr).1, ← List.flatMap_def, Histogram.merge,
    List.foldl_flatMap, canonicalLatency]
  rfl

section SameBounds

variable {bounds : List ℚ} {runs : List (List (Bucket ℚ))} {run : List (Bucket ℚ)}

theorem SameBounds.nodup (h : SameBounds bounds runs) : bounds.Nodup :=
  h.rising.imp fun hlt => hlt.ne

theorem SameBounds.length_eq (h : SameBounds bounds runs) (hrun : run ∈ runs) :
    run.length = bounds.length := by
  rw [← h.bounds_eq run hrun, List.length_map]

theorem SameBounds.zipWith_eq (h : SameBounds bounds runs) (hrun : run ∈ runs) :
    List.zipWith Bucket.mk bounds (run.map Bucket.cumulativeCount) = run := by
  rw [← h.bounds_eq run hrun, Histogram.zipWith_map_eq_self]

/-- The counts of the runs, added up place by place. -/
theorem SameBounds.merge_eq (h : SameBounds bounds (run :: runs)) :
    Histogram.merge [] (run :: runs).flatten =
      List.zipWith Bucket.mk bounds (Histogram.addUp (run.map Bucket.cumulativeCount)
        (runs.map (List.map Bucket.cumulativeCount))) := by
  -- the buckets of the first run are pushed, those of the others are added to them
  have hnew : ∀ b ∈ bounds, b ∉ ([] : List (Bucket ℚ)).map Bucket.upperBound := by simp
  have hfirst : Histogram.merge [] run =
      List.zipWith Bucket.mk bounds (run.map Bucket.cumulativeCount) := by
    have hmerge : Histogram.merge []
        (List.zipWith Bucket.mk bounds (run.map Bucket.cumulativeCount)) =
          [] ++ List.zipWith Bucket.mk bounds (run.map Bucket.cumulativeCount) :=
      Histogram.merge_zipWith_of_disjoint h.nodup hnew
    rw [h.zipWith_eq List.mem_cons_self] at hmerge ⊢
    exact hmerge
  have hrest : runs.flatten = (runs.map (List.map Bucket.cumulativeCount)).flatMap fun ys =>
      List.zipWith Bucket.mk bounds ys := by
    rw [List.flatMap_map, List.flatMap_def, List.map_congr_left fun run' hrun' =>
      h.zipWith_eq (List.mem_cons_of_mem run hrun'), List.map_id']
  rw [List.flatten_cons, Histogram.merge, List.foldl_append]
  change Histogram.merge (Histogram.merge [] run) _ = _
  rw [hfirst, hrest, Histogram.merge_flatMap_zipWith h.nodup]
  · rw [List.length_map, h.length_eq List.mem_cons_self]
  · intro ys hys
    obtain ⟨run', hrun', rfl⟩ := List.mem_map.mp hys
    rw [List.length_map, h.length_eq (List.mem_cons_of_mem run hrun')]

theorem SameBounds.merge_eq_map (h : SameBounds bounds (run :: runs)) :
    Histogram.merge [] (run :: runs).flatten = bounds.zipIdx.map fun (bound, i) =>
      ⟨bound, ((run :: runs).map (countAt i)).sum⟩ := by
  rw [h.merge_eq]
  refine List.ext_getElem? fun i => ?_
  rw [List.getElem?_zipWith, List.getElem?_map, List.getElem?_zipIdx, Nat.zero_add]
  cases hbound : bounds[i]? with
  | none => rfl
  | some bound =>
    obtain ⟨hi, -⟩ := List.getElem?_eq_some_iff.mp hbound
    have hlen : (run.map Bucket.cumulativeCount).length = bounds.length := by
      rw [List.length_map, h.length_eq List.mem_cons_self]
    have hcount : (run.map Bucket.cumulativeCount)[i]? = some (countAt i run) := by
      rw [countAt, List.getD_eq_getElem?_getD, List.getElem?_eq_getElem (by omega),
        Option.getD_some]
    have hreadings : ∀ ys ∈ runs.map (List.map Bucket.cumulativeCount),
        ys.length = (run.map Bucket.cumulativeCount).length := by
      intro ys hys
      obtain ⟨run', hrun', rfl⟩ := List.mem_map.mp hys
      rw [List.length_map, hlen, h.length_eq (List.mem_cons_of_mem run hrun')]
    rw [Histogram.getElem?_addUp hreadings hcount, List.map_map]
    simp only [Option.map_some, List.map_cons, List.sum_cons]
    rfl

/-- The last sum is the sum of the last counts. -/
theorem SameBounds.total_eq (h : SameBounds bounds runs) :
    Histogram.total (bounds.zipIdx.map fun (bound, i) =>
      (⟨bound, (runs.map (countAt i)).sum⟩ : Bucket ℚ)) = (runs.map Histogram.total).sum := by
  have htotals : runs.map Histogram.total = runs.map (countAt (bounds.length - 1)) := by
    refine List.map_congr_left fun run hrun => ?_
    rw [Histogram.total_eq_getD, h.length_eq hrun, countAt]
  rw [Histogram.total_eq_getD, htotals, List.map_map, List.getD_eq_getElem?_getD,
    List.getElem?_map, List.length_map, List.length_zipIdx, List.getElem?_zipIdx, Nat.zero_add]
  cases hbounds : bounds[bounds.length - 1]? with
  | some bound => rfl
  | none =>
    -- without bounds there is no count in any run
    have hnil : bounds.length = 0 := by
      rw [List.getElem?_eq_none_iff] at hbounds
      omega
    have hzero : ∀ run ∈ runs, countAt (bounds.length - 1) run = 0 := by
      intro run hrun
      have hrun : run = [] := List.length_eq_zero_iff.mp ((h.length_eq hrun).trans hnil)
      rw [hrun]
      rfl
    rw [List.map_congr_left hzero]
    simp

/-- The added up buckets rise as those of the runs do. -/
theorem SameBounds.rising_merge (h : SameBounds bounds runs) :
    Histogram.Rising 0 0 (Histogram.merge [] runs.flatten) := by
  cases runs with
  | nil => trivial
  | cons run runs =>
    rw [h.merge_eq]
    refine Histogram.rising_zipWith h.pos h.rising (fun _ _ => Nat.zero_le _)
      (Histogram.pairwise_addUp (h.counts run List.mem_cons_self) fun ys hys => ?_)
    obtain ⟨run', hrun', rfl⟩ := List.mem_map.mp hys
    exact h.counts run' (List.mem_cons_of_mem run hrun')

/-- The last count of the added up buckets. -/
theorem SameBounds.total_merge (h : SameBounds bounds runs) :
    Histogram.total (Histogram.merge [] runs.flatten) = (runs.map Histogram.total).sum := by
  cases runs with
  | nil => rfl
  | cons run runs => rw [h.merge_eq_map, h.total_eq]

/-- The added up buckets fit when the last counts do. -/
theorem SameBounds.fits_iff (h : SameBounds bounds runs) :
    (∀ b ∈ Histogram.merge [] runs.flatten, b.cumulativeCount < 2 ^ 64) ↔
      (runs.map Histogram.total).sum < 2 ^ 64 := by
  rw [← h.total_merge]
  constructor
  · intro hfits
    rw [Histogram.total]
    cases hlast : (Histogram.merge [] runs.flatten).getLast? with
    | none => simp
    | some b => exact hfits b (List.mem_of_getLast? hlast)
  · intro hlt b hb
    rw [← Histogram.topCount_eq_total] at hlt
    exact (h.rising_merge.le_topCount.2 b hb).trans_lt hlt

end SameBounds

/-! ### The quantiles -/

section Quantiles

variable {buckets : List (Bucket ℚ)}

/-- Nothing underflows, and the estimate is on the line through the buckets. -/
theorem estimateFrom_eq {target : ℕ} {lowerBound : ℚ} {lowerCount : ℕ}
    (h : Histogram.Rising lowerBound lowerCount buckets) (htarget : lowerCount ≤ target) :
    estimateFrom target lowerBound lowerCount buckets =
      some (Histogram.interpolate lowerBound lowerCount buckets target) := by
  induction buckets generalizing lowerBound lowerCount with
  | nil => rfl
  | cons b buckets ih =>
    obtain ⟨-, hcount, hrest⟩ := h
    rw [estimateFrom, Histogram.interpolate]
    split_ifs with hreached
    · rw [subU64, if_pos hcount, subU64, if_pos htarget]
      rfl
    · exact ih hrest (Nat.not_le.mp hreached).le

/-- The estimate is the quantile, when the last count fits: the cast of the target cuts off
nothing then. -/
theorem estimateQuantile_eq (h : Histogram.Rising 0 0 buckets)
    (hfits : Histogram.total buckets < 2 ^ 64) {q : ℚ} (hq : q ≤ 1) :
    estimateQuantile buckets q = some (Histogram.quantile buckets q) := by
  cases buckets with
  | nil => rfl
  | cons b buckets =>
    have hceil : ⌈q * Histogram.total (b :: buckets)⌉₊ ≤ Histogram.total (b :: buckets) :=
      Nat.ceil_le.mpr (mul_le_of_le_one_left (Nat.cast_nonneg _) hq)
    have htarget : min ⌈q * Histogram.total (b :: buckets)⌉₊ (2 ^ 64 - 1) =
        ⌈q * Histogram.total (b :: buckets)⌉₊ := min_eq_left (by omega)
    simp only [estimateQuantile, htarget]
    exact estimateFrom_eq h (Nat.zero_le _)

theorem soundQuantiles (h : Histogram.Rising 0 0 buckets)
    (hfits : Histogram.total buckets < 2 ^ 64) : SoundQuantiles buckets := by
  constructor
  · intro q _ hq
    refine ⟨_, estimateQuantile_eq h hfits hq, ?_⟩
    rw [lastBound, ← Histogram.top_eq_getLast?]
    exact Histogram.quantile_mem h q
  · intro q r v w _ hqr hr hv hw
    rw [estimateQuantile_eq h hfits (hqr.trans hr), Option.some_inj] at hv
    rw [estimateQuantile_eq h hfits hr, Option.some_inj] at hw
    rw [← hv, ← hw]
    exact Histogram.quantile_mono h hqr

end Quantiles

/-! ### The chart -/

namespace LatencyChart

/-- Behind the first bucket the counts are the differences. -/
theorem mapM_bucketCount {init buckets : List (Bucket ℚ)} {previous : Bucket ℚ}
    (h : Histogram.Rising previous.upperBound previous.cumulativeCount buckets) :
    ((buckets.zipIdx (init.length + 1)).mapM fun entry =>
      bucketCount (init ++ previous :: buckets) entry.2 entry.1) =
      some (Histogram.increments previous.cumulativeCount buckets) := by
  induction buckets generalizing init previous with
  | nil => rfl
  | cons b buckets ih =>
    obtain ⟨-, hcount, hrest⟩ := h
    have hprevious : (init ++ previous :: b :: buckets)[init.length + 1 - 1]? = some previous := by
      simp
    have hb : bucketCount (init ++ previous :: b :: buckets) (init.length + 1) b =
        some (b.cumulativeCount - previous.cumulativeCount) := by
      rw [bucketCount, if_neg (Nat.succ_ne_zero _), hprevious, Option.bind_some, subU64,
        if_pos hcount]
    have hnext : ((buckets.zipIdx (init.length + 1 + 1)).mapM fun entry =>
        bucketCount (init ++ previous :: b :: buckets) entry.2 entry.1) =
          some (Histogram.increments b.cumulativeCount buckets) := by
      simpa using @ih (init ++ [previous]) b hrest
    rw [List.zipIdx_cons, List.mapM_cons, hb, hnext]
    rfl

theorem counts_eq {buckets : List (Bucket ℚ)} (h : Histogram.Rising 0 0 buckets) :
    counts buckets = some (Histogram.increments 0 buckets) := by
  cases buckets with
  | nil => rfl
  | cons b buckets =>
    -- nothing is subtracted from the first count
    have htail : ((buckets.zipIdx 1).mapM fun entry =>
        bucketCount (b :: buckets) entry.2 entry.1) =
          some (Histogram.increments b.cumulativeCount buckets) :=
      @mapM_bucketCount [] buckets b h.2.2
    rw [counts, List.zipIdx_cons, List.mapM_cons, htail]
    rfl

theorem exists_labels (render : ℚ → Text) (buckets : List (Bucket ℚ)) :
    ∃ texts, labels render buckets = some texts := by
  rw [← Option.isSome_iff_exists, labels, List.mapM_isSome]
  rintro ⟨b, i⟩ hmem
  obtain ⟨-, hi, -⟩ := List.mem_zipIdx hmem
  rw [Nat.zero_add] at hi
  cases i with
  | zero => rfl
  | succ i =>
    have hget : buckets[i + 1 - 1]? = some buckets[i] := List.getElem?_eq_getElem (by omega)
    simp only [if_neg (Nat.succ_ne_zero i), hget]
    rfl

/-- The chart of rising buckets has all counts in it. -/
theorem exists_echartData (render : ℚ → Text) {buckets : List (Bucket ℚ)}
    (h : Histogram.Rising 0 0 buckets) (hfits : Histogram.total buckets < 2 ^ 64) :
    ∃ data, (LatencyChart.new buckets).echartData render = some data ∧
      data.counts.sum = Histogram.total buckets := by
  obtain ⟨texts, htexts⟩ := exists_labels render buckets
  have hsum := Histogram.sum_increments h
  rw [Nat.zero_add, Histogram.topCount_eq_total] at hsum
  have hdata : ∃ quantiles, (LatencyChart.new buckets).echartData render =
      some ⟨texts, Histogram.increments 0 buckets, quantiles⟩ := by
    have hestimate {q : ℚ} (hq : q ≤ 1) := estimateQuantile_eq h hfits hq
    rw [echartData, new, htexts, counts_eq h, hestimate (by norm_num), hestimate (by norm_num),
      hestimate (by norm_num)]
    exact ⟨_, rfl⟩
  obtain ⟨quantiles, hquantiles⟩ := hdata
  exact ⟨_, hquantiles, hsum⟩

end LatencyChart

/-- Merging and quantiles are right exactly when the last counts of the runs add up to less than
2⁶⁴. -/
theorem soundLatency_iff (render : ℚ → Text) {bounds : List ℚ} {runs : List (List (Bucket ℚ))}
    (h : SameBounds bounds runs) :
    SoundLatency render bounds runs ↔ (runs.map Histogram.total).sum < 2 ^ 64 := by
  rw [← h.fits_iff]
  constructor
  · -- a merge that comes through has only sums that fit
    rintro ⟨merged, hmerged, -⟩
    exact ((canonicalLatencyOf_eq_some h.counts_lt).mp hmerged).2
  · intro hfits
    have htotal : Histogram.total (Histogram.merge [] runs.flatten) < 2 ^ 64 := by
      rw [h.total_merge]
      exact h.fits_iff.mp hfits
    refine ⟨_, (canonicalLatencyOf_eq_some h.counts_lt).mpr ⟨rfl, hfits⟩, fun hruns => ?_,
      LatencyChart.exists_echartData render h.rising_merge htotal,
      soundQuantiles h.rising_merge htotal⟩
    obtain ⟨run, rest, rfl⟩ := List.exists_cons_of_ne_nil hruns
    exact h.merge_eq_map

/-- A method with buckets up to half a second and up to a second. -/
def twoBuckets (counts : ℕ × ℕ) : List (Bucket ℚ) := [⟨1 / 2, counts.1⟩, ⟨1, counts.2⟩]

theorem sameBounds_twoBuckets {counts : List (ℕ × ℕ)} (h : ∀ n ∈ counts, n.1 ≤ n.2)
    (hlt : ∀ n ∈ counts, n.2 < 2 ^ 64) : SameBounds [1 / 2, 1] (counts.map twoBuckets) where
  pos := by simp
  rising := by norm_num
  bounds_eq := List.forall_mem_map.mpr fun _ _ => rfl
  counts := List.forall_mem_map.mpr fun n hn => by simpa [twoBuckets] using h n hn
  counts_lt := List.forall_mem_map.mpr fun n hn =>
    List.forall_mem_cons.mpr ⟨(h n hn).trans_lt (hlt n hn), by simpa using hlt n hn⟩

/-- Two runs: three requests with the slow one in the second bucket, and five with two. -/
theorem soundLatency_two :
    SoundLatency (fun _ => []) [1 / 2, 1] ([(2, 3), (3, 5)].map twoBuckets) :=
  (soundLatency_iff _ (sameBounds_twoBuckets (by decide) (by decide))).mpr (by decide)

/-- Three runs with the largest count that the database has: the sum does not fit. -/
theorem soundLatency_counterexample :
    SameBounds [1 / 2, 1] ((List.replicate 3 (1, 2 ^ 63 - 1)).map twoBuckets) ∧
      ∀ render, ¬ SoundLatency render [1 / 2, 1]
        ((List.replicate 3 (1, 2 ^ 63 - 1)).map twoBuckets) := by
  refine ⟨sameBounds_twoBuckets (by decide) (by decide), ?_⟩
  rintro render ⟨merged, hmerged, -⟩
  have hnone : canonicalLatencyOf ((List.replicate 3 (1, 2 ^ 63 - 1)).map twoBuckets) = none := by
    decide +kernel
  rw [hnone] at hmerged
  cases hmerged

end Contender
