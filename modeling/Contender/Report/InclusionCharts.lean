import Contender.Data.Bars
import Contender.Data.Traverse
import Contender.Spammer.TxActor
import Mathlib.Data.List.Range

/-!
# Charts of inclusion times

Two charts count how long transactions took: from being sent to the end timestamp, in buckets of
the size that the report is asked for, and to the flashblock they were in, in buckets of 100 ms.
The first leaves out the empty buckets; the second keeps those between the first and the last one
that has transactions.

## Main results

* `inclusionCharts_iff` — both charts are right exactly when the buckets of the inclusion times fit
  an allocation, and the buckets of all flashblock latencies end below 2⁶⁴
-/

namespace Contender

open Nat (decimal)

/-- What `TimeToInclusionChart::new` takes from a transaction. An end before the start counts as
no time. -/
def RunTx.inclusionTimeMs (tx : RunTx) : Option ℕ :=
  tx.endTimestampMs.map fun endTimestampMs =>
    let dumbBase := if endTimestampMs < tx.startTimestampMs then
      tx.startTimestampMs - endTimestampMs else 0
    endTimestampMs + dumbBase - tx.startTimestampMs

structure TimeToInclusionChart where
  inclusionTimesMs : List ℕ
  bucketSizeMs : UInt64

structure TimeToInclusionData where
  buckets : List Text
  counts : List ℕ
  maxCount : ℕ
  deriving DecidableEq, Repr

namespace TimeToInclusionChart

def new (runTxs : List RunTx) (bucketSizeMs : UInt64) : TimeToInclusionChart :=
  ⟨runTxs.filterMap RunTx.inclusionTimeMs, bucketSizeMs⟩

/-- The label of a bucket, in seconds where its size is a number of seconds. -/
def label (bucketSizeMs i : ℕ) : Option Text := do
  let startMs ← mulU64 i bucketSizeMs
  let endMs ← addU64 startMs bucketSizeMs
  return if bucketSizeMs % 1000 = 0 then
    decimal (startMs / 1000) ++ " - ".toList ++ decimal (endMs / 1000) ++ " s".toList
  else decimal startMs ++ " - ".toList ++ decimal endMs ++ " ms".toList

/-- The bucket of a time. Without a bucket size the division panics. -/
def place (bucketSizeMs ttiMs : ℕ) : Option (ℕ × Text) :=
  if bucketSizeMs = 0 then none
  else
    let bucketIndex := ttiMs / bucketSizeMs
    (label bucketSizeMs bucketIndex).map fun bucket => (bucketIndex, bucket)

/-- `TimeToInclusionChart::echart_data`; `none` is a panic. -/
def echartData (chart : TimeToInclusionChart) : Option TimeToInclusionData := do
  let bars ← Bars.collect [] (place chart.bucketSizeMs.toNat) chart.inclusionTimesMs
  -- the empty buckets are filtered out
  let (buckets, counts) := bars.kept fun bucket count => bucket ≠ [] ∧ 0 < count
  return ⟨buckets, counts, bars.maxCount⟩

end TimeToInclusionChart

structure FlashblockTimeToInclusionChart where
  latenciesMs : List ℕ

structure FlashblockTimeToInclusionData where
  buckets : List Text
  counts : List ℕ
  maxCount : ℕ
  deriving DecidableEq, Repr

namespace FlashblockTimeToInclusionChart

/-- There is no chart without latencies. -/
def new (runTxs : List RunTx) : Option FlashblockTimeToInclusionChart :=
  let latenciesMs := runTxs.filterMap RunTx.flashblockLatencyMs
  if latenciesMs = [] then none else some ⟨latenciesMs⟩

/-- `bucket_size_ms`. -/
def bucketSizeMs : ℕ := 100

def label (i : ℕ) : Option Text := do
  let lo ← mulU64 i bucketSizeMs
  let hi ← addU64 lo bucketSizeMs
  return decimal lo ++ " - ".toList ++ decimal hi ++ " ms".toList

def place (latencyMs : ℕ) : Option (ℕ × Text) :=
  let bucketIndex := latencyMs / bucketSizeMs
  (label bucketIndex).map fun bucket => (bucketIndex, bucket)

/-- The empty buckets between the first and the last one get their labels. -/
def relabel (first last : ℕ) (buckets : List Text) : Option (List Text) :=
  buckets.zipIdx.mapM fun (bucket, i) =>
    if first ≤ i ∧ i ≤ last ∧ bucket = [] then label i else some bucket

/-- `FlashblockTimeToInclusionChart::echart_data`; `none` is a panic. -/
def echartData (chart : FlashblockTimeToInclusionChart) :
    Option FlashblockTimeToInclusionData := do
  let bars ← Bars.collect [] place chart.latenciesMs
  match bars.counts.findIdx? (fun c => 0 < c), Bars.lastIdx? (fun c => 0 < c) bars.counts with
  | some first, some last =>
    let buckets ← relabel first last bars.labels
    return ⟨(buckets.drop first).take (last + 1 - first),
      (bars.counts.drop first).take (last + 1 - first), bars.maxCount⟩
  | _, _ => return ⟨bars.labels, bars.counts, bars.maxCount⟩

end FlashblockTimeToInclusionChart

/-! ### What the charts are for -/

/-- The text is the label of a range of milliseconds, and of no other (`LabelsRange.unique`). -/
inductive LabelsRange : Text → ℕ × ℕ → Prop
  | ms (lo hi : ℕ) :
      LabelsRange (decimal lo ++ " - ".toList ++ decimal hi ++ " ms".toList) (lo, hi)
  | seconds (lo hi : ℕ) :
      LabelsRange (decimal lo ++ " - ".toList ++ decimal hi ++ " s".toList)
        (lo * 1000, hi * 1000)

/-- The time from being sent to the end, which is no time when the clocks disagree. -/
def RunTx.timeToInclusion (tx : RunTx) : Option ℕ :=
  tx.endTimestampMs.map fun endTimestampMs : ℕ =>
    (max ((endTimestampMs : ℤ) - tx.startTimestampMs) 0).toNat

/-- The chart of inclusion times counts each time in the bucket whose label has it in its range,
and shows no empty bucket. -/
def ShowsInclusionTimes (runTxs : List RunTx) (bucketSizeMs : UInt64) : Prop :=
  ∃ data ranges, (TimeToInclusionChart.new runTxs bucketSizeMs).echartData = some data ∧
    List.Forall₂ LabelsRange data.buckets ranges ∧
    (∀ r ∈ ranges, r.2 = r.1 + bucketSizeMs.toNat) ∧
    Bars.Exact (runTxs.filterMap RunTx.timeToInclusion) ranges data.counts data.maxCount ∧
    ∀ c ∈ data.counts, 0 < c

/-- The chart of flashblock latencies counts each latency in the bucket whose label has it in its
range. It shows the buckets from the first to the last one with a latency. -/
def ShowsFlashblockLatencies (runTxs : List RunTx) : Prop :=
  runTxs.filterMap RunTx.flashblockLatencyMs = [] ∧
      FlashblockTimeToInclusionChart.new runTxs = none ∨
    ∃ chart data ranges, FlashblockTimeToInclusionChart.new runTxs = some chart ∧
      chart.echartData = some data ∧ List.Forall₂ LabelsRange data.buckets ranges ∧
      (∀ r ∈ ranges, r.2 = r.1 + 100) ∧
      Bars.Exact (runTxs.filterMap RunTx.flashblockLatencyMs) ranges data.counts data.maxCount ∧
      ranges.IsChain (fun r s => r.2 = s.1) ∧
      (∃ c ∈ data.counts.head?, 0 < c) ∧ ∃ c ∈ data.counts.getLast?, 0 < c

/-! ### Labels -/

/-- A label has one range. -/
theorem LabelsRange.unique {text : Text} {r s : ℕ × ℕ} (h : LabelsRange text r)
    (h' : LabelsRange text s) : r = s := by
  have hdigits (n : ℕ) (rest : Text) :
      (decimal n ++ ' ' :: rest).takeWhile Char.isDigit = decimal n := by
    rw [List.takeWhile_append_of_pos fun c hc => Nat.isDigit_of_mem_decimal hc,
      List.takeWhile_cons, if_neg (by decide), List.append_nil]
  have hsplit {m n : ℕ} {k l : Text} (h : decimal m ++ ' ' :: k = decimal n ++ ' ' :: l) :
      m = n ∧ k = l := by
    have hdec := congrArg (List.takeWhile Char.isDigit) h
    rw [hdigits, hdigits] at hdec
    obtain rfl := Nat.decimal_injective hdec
    exact ⟨rfl, (List.cons.inj (List.append_cancel_left h)).2⟩
  have hlabel {a b c d : ℕ} {u v : Text}
      (h : decimal a ++ " - ".toList ++ decimal b ++ ' ' :: u =
        decimal c ++ " - ".toList ++ decimal d ++ ' ' :: v) : a = c ∧ b = d ∧ u = v := by
    simp only [List.append_assoc] at h
    obtain ⟨hac, hrest⟩ := hsplit (k := '-' :: ' ' :: (decimal b ++ ' ' :: u))
      (l := '-' :: ' ' :: (decimal d ++ ' ' :: v)) h
    obtain ⟨hbd, huv⟩ := hsplit (List.cons.inj (List.cons.inj hrest).2).2
    exact ⟨hac, hbd, huv⟩
  cases h with
  | ms lo hi =>
    generalize htext : decimal lo ++ " - ".toList ++ decimal hi ++ " ms".toList = text at h'
    cases h' with
    | ms lo' hi' =>
      obtain ⟨rfl, rfl, -⟩ := hlabel (u := ['m', 's']) (v := ['m', 's']) htext
      rfl
    | seconds lo' hi' =>
      obtain ⟨-, -, h⟩ := hlabel (u := ['m', 's']) (v := ['s']) htext
      cases h
  | seconds lo hi =>
    generalize htext : decimal lo ++ " - ".toList ++ decimal hi ++ " s".toList = text at h'
    cases h' with
    | ms lo' hi' =>
      obtain ⟨-, -, h⟩ := hlabel (u := ['s']) (v := ['m', 's']) htext
      cases h
    | seconds lo' hi' =>
      obtain ⟨rfl, rfl, -⟩ := hlabel (u := ['s']) (v := ['s']) htext
      rfl

theorem LabelsRange.ne_nil {text : Text} {r : ℕ × ℕ} (h : LabelsRange text r) : text ≠ [] := by
  cases h <;> simp

/-- Labels of ranges side by side. -/
theorem forall₂_labelsRange {label : ℕ → Text} {range : ℕ → ℕ × ℕ} {indices : List ℕ}
    (h : ∀ i ∈ indices, LabelsRange (label i) (range i)) :
    List.Forall₂ LabelsRange (indices.map label) (indices.map range) := by
  rw [List.forall₂_map_left_iff, List.forall₂_map_right_iff, List.forall₂_same]
  exact h

/-! ### Inclusion times -/

theorem RunTx.inclusionTimeMs_eq : RunTx.inclusionTimeMs = RunTx.timeToInclusion := by
  funext tx
  unfold inclusionTimeMs timeToInclusion
  cases tx.endTimestampMs with
  | none => rfl
  | some endTimestampMs =>
    rw [Option.map_some, Option.map_some]
    refine congrArg some ?_
    dsimp only
    split_ifs <;> omega

/-- The label that a bucket gets when its end fits 64 bits. -/
theorem TimeToInclusionChart.exists_label {bucketSizeMs i : ℕ}
    (h : i * bucketSizeMs + bucketSizeMs < 2 ^ 64) :
    ∃ text, label bucketSizeMs i = some text ∧
      LabelsRange text (i * bucketSizeMs, i * bucketSizeMs + bucketSizeMs) := by
  have hstart : mulU64 i bucketSizeMs = some (i * bucketSizeMs) :=
    mulU64_eq_some.mpr ⟨rfl, by omega⟩
  have hend : addU64 (i * bucketSizeMs) bucketSizeMs = some (i * bucketSizeMs + bucketSizeMs) :=
    addU64_eq_some.mpr ⟨rfl, h⟩
  simp only [label, hstart, hend, Option.bind_eq_bind, Option.bind_some]
  split_ifs with hseconds
  · refine ⟨_, rfl, ?_⟩
    obtain ⟨k, rfl⟩ := Nat.dvd_of_mod_eq_zero hseconds
    have hlo : i * (1000 * k) = i * k * 1000 := by rw [Nat.mul_left_comm, Nat.mul_comm]
    have hhi : i * (1000 * k) + 1000 * k = (i * k + k) * 1000 := by omega
    rw [hhi, hlo, Nat.mul_div_cancel _ (by decide), Nat.mul_div_cancel _ (by decide)]
    exact .seconds (i * k) (i * k + k)
  · exact ⟨_, rfl, .ms _ _⟩

/-- Below 2⁶³ the bucket of a time ends below 2⁶⁴. -/
theorem bucket_end_lt {ttiMs bucketSizeMs : ℕ} (htti : ttiMs < 2 ^ 63)
    (hsize : bucketSizeMs < 2 ^ 64) :
    ttiMs / bucketSizeMs * bucketSizeMs + bucketSizeMs < 2 ^ 64 := by
  have hle := Nat.div_mul_le_self ttiMs bucketSizeMs
  rcases Nat.lt_or_ge ttiMs bucketSizeMs with hlt | hge
  · rw [Nat.div_eq_of_lt hlt]
    omega
  · omega

/-- The buckets of the inclusion times, in the order in which they are made. -/
def inclusionBuckets (runTxs : List RunTx) (bucketSizeMs : UInt64) : List ℕ :=
  (runTxs.filterMap RunTx.timeToInclusion).map (· / bucketSizeMs.toNat)

/-- The times are shown exactly when their buckets fit an allocation. -/
theorem showsInclusionTimes_iff {runTxs : List RunTx} {bucketSizeMs : UInt64}
    (hbucket : 1 ≤ bucketSizeMs.toNat)
    (hstamps : ∀ tx ∈ runTxs, ∀ endTimestampMs ∈ tx.endTimestampMs, endTimestampMs < 2 ^ 63) :
    ShowsInclusionTimes runTxs bucketSizeMs ↔
      Bars.Fits (inclusionBuckets runTxs bucketSizeMs) := by
  rw [inclusionBuckets]
  set w := bucketSizeMs.toNat with hw
  set times := runTxs.filterMap RunTx.timeToInclusion with htimes
  have hlt : ∀ t ∈ times, t < 2 ^ 63 := by
    intro t ht
    obtain ⟨tx, htx, ht⟩ := List.mem_filterMap.mp ht
    obtain ⟨endTimestampMs, hend, rfl⟩ := Option.map_eq_some_iff.mp ht
    have := hstamps tx htx endTimestampMs hend
    omega
  -- every bucket that is needed has a label
  have hlabels : ∀ i, ∃ text, i ∈ times.map (· / w) →
      TimeToInclusionChart.label w i = some text ∧ LabelsRange text (i * w, i * w + w) := by
    intro i
    by_cases hi : i ∈ times.map (· / w)
    · obtain ⟨t, ht, rfl⟩ := List.mem_map.mp hi
      obtain ⟨text, htext⟩ := TimeToInclusionChart.exists_label
        (bucket_end_lt (hlt t ht) bucketSizeMs.toNat_lt)
      exact ⟨text, fun _ => htext⟩
    · -- the label of an empty bucket stays blank
      exact ⟨[], fun h => (hi h).elim⟩
  choose name hname using hlabels
  have hplace : ∀ t ∈ times,
      TimeToInclusionChart.place w t = some (t / w, name (t / w)) := by
    intro t ht
    have hlabel := (hname _ (List.mem_map_of_mem ht)).1
    simp only [TimeToInclusionChart.place, if_neg (show w ≠ 0 by omega), hlabel, Option.map_some]
  have hcollect : Bars.collect [] (TimeToInclusionChart.place w) times =
      if Bars.Fits (times.map (· / w)) then some (Bars.ofPositions [] name (times.map (· / w)))
      else none := Bars.collect_eq hplace
  have hnew : TimeToInclusionChart.new runTxs bucketSizeMs = ⟨times, bucketSizeMs⟩ := by
    rw [TimeToInclusionChart.new, RunTx.inclusionTimeMs_eq]
  constructor
  · rintro ⟨data, ranges, hdata, -⟩
    by_contra hfits
    rw [hnew, TimeToInclusionChart.echartData, ← hw, hcollect, if_neg hfits] at hdata
    cases hdata
  intro hfits
  have hkept : (Bars.ofPositions [] name (times.map (· / w))).kept
      (fun bucket count => bucket ≠ [] ∧ 0 < count) =
        ((Bars.occurring (times.map (· / w))).map name,
          (Bars.occurring (times.map (· / w))).map (times.map (· / w)).count) :=
    Bars.kept_ofPositions
      (fun i hi => decide_eq_true ⟨(hname i hi).2.ne_nil, List.count_pos_iff.mpr hi⟩) (by simp)
  refine ⟨⟨_, _, Bars.largest (times.map (· / w))⟩, _, ?_,
    forall₂_labelsRange fun i hi => (hname i (Bars.mem_occurring.mp hi)).2, ?_,
    Bars.exact_of_positions hbucket (Bars.pairwise_occurring _) fun t ht =>
      Bars.mem_occurring.mpr (List.mem_map_of_mem ht), ?_⟩
  · rw [hnew, TimeToInclusionChart.echartData, ← hw, hcollect, if_pos hfits, Option.bind_eq_bind,
      Option.bind_some, hkept]
    rfl
  · intro r hr
    obtain ⟨i, -, rfl⟩ := List.mem_map.mp hr
    rfl
  · intro c hc
    obtain ⟨i, hi, rfl⟩ := List.mem_map.mp hc
    exact List.count_pos_iff.mpr (Bars.mem_occurring.mp hi)

/-! ### Flashblock latencies -/

namespace FlashblockTimeToInclusionChart

/-- The label of a bucket that ends below 2⁶⁴. -/
def text (i : ℕ) : Text :=
  decimal (i * bucketSizeMs) ++ " - ".toList ++ decimal (i * bucketSizeMs + bucketSizeMs) ++
    " ms".toList

theorem labelsRange_text (i : ℕ) : LabelsRange (text i) (i * 100, i * 100 + 100) := .ms _ _

theorem label_eq_some {i : ℕ} (h : i * 100 + 100 < 2 ^ 64) : label i = some (text i) := by
  have hlo : mulU64 i bucketSizeMs = some (i * bucketSizeMs) :=
    mulU64_eq_some.mpr ⟨rfl, by rw [bucketSizeMs]; omega⟩
  have hhi : addU64 (i * bucketSizeMs) bucketSizeMs = some (i * bucketSizeMs + bucketSizeMs) :=
    addU64_eq_some.mpr ⟨rfl, h⟩
  simp only [label, hlo, hhi, Option.bind_eq_bind, Option.bind_some]
  rfl

theorem label_eq_none {i : ℕ} (h : 2 ^ 64 ≤ i * 100 + 100) : label i = none := by
  rw [label, Option.bind_eq_bind, Option.bind_eq_none_iff]
  intro lo hlo
  obtain ⟨rfl, -⟩ := mulU64_eq_some.mp hlo
  have hhi : addU64 (i * bucketSizeMs) bucketSizeMs = none := if_neg (not_lt.mpr h)
  rw [hhi]
  rfl

/-- The labels after the empty buckets have got theirs. -/
theorem relabel_eq_some {first last : ℕ} {positions : List ℕ}
    (hlast : ∀ i ≤ last, label i = some (text i)) :
    relabel first last ((List.range (last + 1)).map fun i => if i ∈ positions then text i else []) =
      some ((List.range (last + 1)).map fun i =>
        if first ≤ i ∨ i ∈ positions then text i else []) := by
  rw [relabel, List.zipIdx_map_range, List.mapM_map]
  refine List.mapM_eq_some_map fun i hi => ?_
  have hle : i ≤ last := Nat.lt_succ_iff.mp (List.mem_range.mp hi)
  -- a bucket without a label gets one only in the range that is shown
  by_cases hmem : i ∈ positions
  · have hne : text i ≠ [] := (labelsRange_text i).ne_nil
    simp [hmem, hne]
  · by_cases hfirst : first ≤ i
    · simp [hmem, hfirst, hle, hlast i hle]
    · simp [hmem, hfirst]

end FlashblockTimeToInclusionChart

/-- The buckets of latencies of 64 bits fit an allocation: they are few enough to be doubled. -/
theorem fits_latencies {latencies : List ℕ} (h : ∀ latency ∈ latencies, latency < 2 ^ 64) :
    Bars.Fits (latencies.map (· / 100)) := by
  have hpositions : ∀ i ∈ latencies.map (· / 100), i < 2 ^ 64 / 100 + 1 := by
    intro i hi
    obtain ⟨latency, hlatency, rfl⟩ := List.mem_map.mp hi
    have := h latency hlatency
    omega
  have hle := Bars.capacity_le hpositions
  unfold Bars.Fits Bars.labelBytes
  omega

open FlashblockTimeToInclusionChart in
/-- The chart of the latencies, when all their buckets end below 2⁶⁴. -/
theorem echartData_eq_some {latencies : List ℕ} {first last : ℕ}
    (hlast : ∀ latency ∈ latencies, latency / 100 * 100 + 100 < 2 ^ 64)
    (hfirst : first ∈ latencies.map (· / 100))
    (hmin : ∀ i ∈ latencies.map (· / 100), first ≤ i)
    (hbound : Bars.bound (latencies.map (· / 100)) = last + 1) :
    (FlashblockTimeToInclusionChart.mk latencies).echartData =
      some ⟨(List.range' first (last + 1 - first)).map text,
        (List.range' first (last + 1 - first)).map (latencies.map (· / 100)).count,
        Bars.largest (latencies.map (· / 100))⟩ := by
  set positions := latencies.map (· / 100) with hpositions
  have hmem : last ∈ positions := by
    rcases Bars.bound_eq_zero_or positions with hzero | ⟨i, hi, heq⟩
    · omega
    · obtain rfl : i = last := by omega
      exact hi
  -- the bucket of the largest latency ends last
  have hlabel : ∀ i ≤ last, label i = some (text i) := by
    intro i hi
    obtain ⟨latency, hlatency, rfl⟩ := List.mem_map.mp hmem
    have := hlast latency hlatency
    exact label_eq_some (by omega)
  have hplace : ∀ latency ∈ latencies,
      place latency = some (latency / 100, text (latency / 100)) := by
    intro latency hlatency
    have hbucket : label (latency / 100) = some (text (latency / 100)) :=
      label_eq_some (hlast latency hlatency)
    simp only [place, bucketSizeMs, hbucket, Option.map_some]
  have hfind : (Bars.ofPositions [] text positions).counts.findIdx? (fun c => 0 < c) =
      some first := Bars.findIdx?_counts hfirst hmin text
  have hlastIdx : Bars.lastIdx? (fun c => 0 < c) (Bars.ofPositions [] text positions).counts =
      some (Bars.bound positions - 1) := Bars.lastIdx?_counts (List.ne_nil_of_mem hfirst) text
  rw [hbound, Nat.add_sub_cancel] at hlastIdx
  have hlabels : (Bars.ofPositions [] text positions).labels =
      (List.range (last + 1)).map fun i => if i ∈ positions then text i else [] := by
    rw [Bars.ofPositions, hbound]
  have hcounts : (Bars.ofPositions [] text positions).counts =
      (List.range (last + 1)).map positions.count := by
    rw [Bars.counts_ofPositions, hbound]
  have hall : (List.range' first (last + 1 - first)).map
        (fun i => if first ≤ i ∨ i ∈ positions then text i else []) =
      (List.range' first (last + 1 - first)).map text := by
    refine List.map_congr_left fun i hi => ?_
    rw [if_pos (.inl (List.mem_range'_1.mp hi).1)]
  have hsmall : ∀ latency ∈ latencies, latency < 2 ^ 64 := by
    intro latency hlatency
    have := hlast latency hlatency
    omega
  have hcollect : Bars.collect [] place latencies = some (Bars.ofPositions [] text positions) :=
    (Bars.collect_eq_some_iff hplace).mpr ⟨fits_latencies hsmall, rfl⟩
  rw [echartData, hcollect, Option.bind_eq_bind, Option.bind_some, hfind, hlastIdx, hlabels]
  simp only [relabel_eq_some hlabel, Option.bind_eq_bind, Option.bind_some, hcounts,
    Bars.take_drop_map_range, hall]
  rfl

/-- The latencies are shown when all their buckets end below 2⁶⁴. -/
theorem showsFlashblockLatencies {runTxs : List RunTx}
    (hlast : ∀ tx ∈ runTxs, ∀ latency ∈ tx.flashblockLatencyMs,
      latency / 100 * 100 + 100 < 2 ^ 64) : ShowsFlashblockLatencies runTxs := by
  set latencies := runTxs.filterMap RunTx.flashblockLatencyMs with hlatencies
  by_cases hnil : latencies = []
  · exact .inl ⟨hnil, if_pos hnil⟩
  have hends : ∀ latency ∈ latencies, latency / 100 * 100 + 100 < 2 ^ 64 := by
    intro latency hlatency
    obtain ⟨tx, htx, hlatency⟩ := List.mem_filterMap.mp hlatency
    exact hlast tx htx latency hlatency
  have hne : latencies.map (· / 100) ≠ [] := fun h => hnil (List.map_eq_nil_iff.mp h)
  obtain ⟨first, hfirst, hmin⟩ := Bars.exists_first hne
  obtain ⟨last, hmem, hbound⟩ : ∃ last ∈ latencies.map (· / 100),
      Bars.bound (latencies.map (· / 100)) = last + 1 := by
    rcases Bars.bound_eq_zero_or (latencies.map (· / 100)) with hzero | hlast
    · have := Bars.lt_bound hfirst
      omega
    · exact hlast
  have hle : first ≤ last := hmin last hmem
  obtain ⟨n, hn⟩ : ∃ n, last + 1 - first = n + 1 := ⟨last - first, by omega⟩
  refine .inr ⟨⟨latencies⟩, _, _, if_neg hnil,
    echartData_eq_some hends hfirst hmin hbound,
    forall₂_labelsRange fun i _ => FlashblockTimeToInclusionChart.labelsRange_text i, ?_,
    Bars.exact_of_positions (by decide) List.pairwise_lt_range' fun latency hlatency => ?_,
    ?_, ?_, ?_⟩
  · intro r hr
    obtain ⟨i, -, rfl⟩ := List.mem_map.mp hr
    rfl
  · have hposition : latency / 100 ∈ latencies.map (· / 100) := List.mem_map_of_mem hlatency
    have hlow := hmin _ hposition
    have hhigh := Bars.lt_bound hposition
    rw [List.mem_range'_1]
    omega
  · rw [List.isChain_map]
    refine (List.isChain_range' first _ 1).imp fun i j hij => ?_
    omega
  · rw [hn, List.range'_succ]
    exact ⟨_, rfl, List.count_pos_iff.mpr hfirst⟩
  · refine ⟨(latencies.map (· / 100)).count last, ?_, List.count_pos_iff.mpr hmem⟩
    rw [hn, List.range'_1_concat, show first + n = last by omega]
    dsimp only
    rw [List.map_append]
    exact List.getLast?_concat

/-- The label of a bucket that ends above 2⁶⁴ overflows, and the chart with it. -/
theorem lt_of_showsFlashblockLatencies {runTxs : List RunTx}
    (hshows : ShowsFlashblockLatencies runTxs) :
    ∀ tx ∈ runTxs, ∀ latency ∈ tx.flashblockLatencyMs, latency / 100 * 100 + 100 < 2 ^ 64 := by
  intro tx htx latency hlatency
  by_contra hlarge
  have hmem : latency ∈ runTxs.filterMap RunTx.flashblockLatencyMs :=
    List.mem_filterMap.mpr ⟨tx, htx, hlatency⟩
  have hplace : FlashblockTimeToInclusionChart.place latency = none := by
    have hlabel : FlashblockTimeToInclusionChart.label
        (latency / FlashblockTimeToInclusionChart.bucketSizeMs) = none :=
      FlashblockTimeToInclusionChart.label_eq_none (not_lt.mp hlarge)
    simp only [FlashblockTimeToInclusionChart.place, hlabel, Option.map_none]
  rcases hshows with ⟨hnil, -⟩ | ⟨chart, data, ranges, hnew, hdata, -⟩
  · rw [hnil] at hmem
    cases hmem
  · have hchart : chart = ⟨runTxs.filterMap RunTx.flashblockLatencyMs⟩ := by
      simp only [FlashblockTimeToInclusionChart.new, if_neg (List.ne_nil_of_mem hmem),
        Option.some.injEq] at hnew
      exact hnew.symm
    subst hchart
    rw [FlashblockTimeToInclusionChart.echartData, Bars.collect_eq_none hmem hplace] at hdata
    cases hdata

/-- **The inclusion charts are right**, exactly when the vector of the buckets of the inclusion
times, as it grows from one transaction to the next, fits an allocation, and the buckets of all
flashblock latencies end below 2⁶⁴. -/
theorem inclusionCharts_iff (runTxs : List RunTx) (bucketSizeMs : UInt64)
    (hbucket : 1 ≤ bucketSizeMs.toNat)
    (hstamps : ∀ tx ∈ runTxs, tx.startTimestampMs < 2 ^ 63 ∧
      ∀ endTimestampMs ∈ tx.endTimestampMs, endTimestampMs < 2 ^ 63) :
    ShowsInclusionTimes runTxs bucketSizeMs ∧ ShowsFlashblockLatencies runTxs ↔
      Bars.Fits (inclusionBuckets runTxs bucketSizeMs) ∧
        ∀ tx ∈ runTxs, ∀ latency ∈ tx.flashblockLatencyMs,
          latency / 100 * 100 + 100 < 2 ^ 64 := by
  rw [showsInclusionTimes_iff hbucket fun tx htx => (hstamps tx htx).2]
  refine and_congr_right fun _ => ?_
  exact ⟨lt_of_showsFlashblockLatencies, showsFlashblockLatencies⟩

/-- A transaction that takes 150 ms and was in a flashblock after 250 ms. -/
def RunTx.quick : RunTx where
  txHash := 0x1
  startTimestampMs := 1000
  endTimestampMs := some 1150
  blockNumber := some 1
  gasUsed := some 21000
  kind := none
  error := none
  flashblockLatencyMs := some 250
  flashblockIndex := some 0

theorem inclusionCharts_quick :
    ShowsInclusionTimes [RunTx.quick] 100 ∧ ShowsFlashblockLatencies [RunTx.quick] := by
  refine (inclusionCharts_iff [RunTx.quick] 100 (by decide) fun tx htx => ?_).mpr
    ⟨by decide, fun tx htx latency hlatency => ?_⟩
  · obtain rfl := List.mem_singleton.mp htx
    exact ⟨by decide, fun _ h => Option.some.inj h ▸ by decide⟩
  · obtain rfl := List.mem_singleton.mp htx
    exact Option.some.inj hlatency ▸ by decide

/-- A transaction without a start, whose end is the last one that the database can hold. -/
def RunTx.endless : RunTx :=
  { RunTx.quick with startTimestampMs := 0, endTimestampMs := some (2 ^ 63 - 1) }

/-- With buckets of a millisecond it needs 2⁶³ of them. -/
theorem inclusionCharts_counterexample :
    ¬ (ShowsInclusionTimes [RunTx.endless] 1 ∧ ShowsFlashblockLatencies [RunTx.endless]) := by
  rintro ⟨⟨data, ranges, hdata, -⟩, -⟩
  have hpanic : (TimeToInclusionChart.new [RunTx.endless] 1).echartData.isNone := by
    decide +kernel
  rw [hdata] at hpanic
  exact Bool.false_ne_true hpanic

end Contender
