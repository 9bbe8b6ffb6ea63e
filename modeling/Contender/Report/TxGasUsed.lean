import Contender.Data.Bars
import Contender.Primitives

/-!
# The chart of gas used

The gas that each transaction used is counted in buckets of a fixed width. The gas is first rounded
up to the next multiple of the width, beyond itself, and the bounds of the bucket are computed from
what it is rounded to.

## Main results

* `countsGasUsed_iff` — the bounds of the buckets are right exactly when there is no transaction
-/

namespace Contender

open Nat (decimal)

/-- What the chart reads of a traced receipt. -/
structure TxTraceReceipt where
  gasUsed : ℕ
  deriving DecidableEq, Repr

structure TxGasUsedChart where
  gasUsed : List ℕ
  bucketWidth : ℕ

/-- The chart, with the label of each bucket. -/
structure TxGasUsedData (L : Type) where
  buckets : List L
  counts : List ℕ
  maxCount : ℕ
  deriving DecidableEq, Repr

/-- `abbreviate_num`, where `millions` renders a number of millions with one decimal place. -/
def abbreviateNum (millions : ℕ → Text) (num : ℕ) : Text :=
  if num ≥ 1_000_000 then millions num ++ "M".toList
  else if num ≥ 1_000 then decimal (num / 1_000) ++ "k".toList
  else decimal num

namespace TxGasUsedChart

def new (traceData : List TxTraceReceipt) (bucketWidth : ℕ) : TxGasUsedChart :=
  ⟨traceData.map TxTraceReceipt.gasUsed, bucketWidth⟩

variable {L : Type}

/-- The bucket of a transaction, with the label made from its bounds; `none` is a panic. -/
def place (label : ℕ → ℕ → L) (bucketWidth gas : ℕ) : Option (ℕ × L) :=
  if bucketWidth = 0 then none
  else do
    -- an exact multiple of the width also moves to the next one
    let gas ← addU64 gas (bucketWidth - gas % bucketWidth)
    let bucketIndex := gas / bucketWidth
    let next ← addU64 bucketIndex 1
    let lo ← mulU64 bucketIndex bucketWidth
    let hi ← mulU64 next bucketWidth
    return (bucketIndex, label lo hi)

/-- `TxGasUsedChart::echart_data` with any labels. -/
def chartWith (chart : TxGasUsedChart) (blank : L) (label : ℕ → ℕ → L) :
    Option (TxGasUsedData L) := do
  let bars ← Bars.collect blank (place label chart.bucketWidth) chart.gasUsed
  let (buckets, counts) := bars.kept fun _ count => count ≠ 0
  return ⟨buckets, counts, bars.maxCount⟩

/-- `TxGasUsedChart::echart_data`. -/
def echartData (chart : TxGasUsedChart) (millions : ℕ → Text) : Option (TxGasUsedData Text) :=
  chart.chartWith "0".toList fun lo hi =>
    abbreviateNum millions lo ++ " - ".toList ++ abbreviateNum millions hi

/-- The same chart with the bounds of the buckets instead of their labels, which are made from these
bounds (`exists_boundsData`). -/
def boundsData (chart : TxGasUsedChart) : Option (TxGasUsedData (ℕ × ℕ)) :=
  chart.chartWith (0, 0) Prod.mk

end TxGasUsedChart

/-- Each transaction is counted once, in a bucket with bounds that contain its gas. -/
def CountsGasUsed (traceData : List TxTraceReceipt) (bucketWidth : ℕ) : Prop :=
  ∃ data, (TxGasUsedChart.new traceData bucketWidth).boundsData = some data ∧
    (∀ bounds ∈ data.buckets, bounds.2 = bounds.1 + bucketWidth) ∧
    Bars.Exact (traceData.map TxTraceReceipt.gasUsed) data.buckets data.counts data.maxCount

namespace TxGasUsedChart

variable {L : Type} {label : ℕ → ℕ → L} {blank : L} {chart : TxGasUsedChart}

/-- The bucket is the one after that of the gas. -/
theorem place_eq_some {bucketWidth gas : ℕ} {p : ℕ × L}
    (h : place label bucketWidth gas = some p) :
    0 < bucketWidth ∧
      p = (gas / bucketWidth + 1, label ((gas / bucketWidth + 1) * bucketWidth)
        ((gas / bucketWidth + 1 + 1) * bucketWidth)) := by
  unfold place at h
  split_ifs at h with hzero
  have hpos : 0 < bucketWidth := Nat.pos_of_ne_zero hzero
  obtain ⟨rounded, hrounded, h⟩ := Option.bind_eq_some_iff.mp h
  obtain ⟨next, hnext, h⟩ := Option.bind_eq_some_iff.mp h
  obtain ⟨lo, hlo, h⟩ := Option.bind_eq_some_iff.mp h
  obtain ⟨hi, hhi, h⟩ := Option.bind_eq_some_iff.mp h
  obtain ⟨rfl, -⟩ := addU64_eq_some.mp hrounded
  obtain ⟨rfl, -⟩ := addU64_eq_some.mp hnext
  obtain ⟨rfl, -⟩ := mulU64_eq_some.mp hlo
  obtain ⟨rfl, -⟩ := mulU64_eq_some.mp hhi
  -- the rounded gas is a multiple of the width
  have hindex : (gas + (bucketWidth - gas % bucketWidth)) / bucketWidth =
      gas / bucketWidth + 1 := by
    have hmod := Nat.mod_lt gas hpos
    have hsplit := Nat.mod_add_div gas bucketWidth
    have hsum : gas + (bucketWidth - gas % bucketWidth) =
        bucketWidth * (gas / bucketWidth + 1) := by
      rw [Nat.mul_add, Nat.mul_one]
      omega
    rw [hsum, Nat.mul_div_cancel_left _ hpos]
  rw [hindex] at h
  exact ⟨hpos, (Option.some.inj h).symm⟩

theorem place_map {M : Type} (f : L → M) (bucketWidth gas : ℕ) :
    place (fun lo hi => f (label lo hi)) bucketWidth gas =
      (place label bucketWidth gas).map fun p => (p.1, f p.2) := by
  unfold place
  split_ifs
  · rfl
  · cases addU64 gas (bucketWidth - gas % bucketWidth) with
    | none => rfl
    | some rounded =>
      simp only [Option.bind_eq_bind, Option.bind_some]
      cases addU64 (rounded / bucketWidth) 1 with
      | none => rfl
      | some next =>
        simp only [Option.bind_some]
        cases mulU64 (rounded / bucketWidth) bucketWidth <;> cases mulU64 next bucketWidth <;> rfl

/-- The buckets of the chart, the ones after those of the gas. -/
def positions (chart : TxGasUsedChart) : List ℕ :=
  chart.gasUsed.map (· / chart.bucketWidth + 1)

theorem collect_of_isSome
    (h : ∀ gas ∈ chart.gasUsed, (place label chart.bucketWidth gas).isSome) :
    Bars.collect blank (place label chart.bucketWidth) chart.gasUsed =
      if Bars.Fits chart.positions then
        some (Bars.ofPositions blank
          (fun i => label (i * chart.bucketWidth) ((i + 1) * chart.bucketWidth)) chart.positions)
      else none := by
  refine Bars.collect_eq fun gas hgas => ?_
  obtain ⟨p, hp⟩ := Option.isSome_iff_exists.mp (h gas hgas)
  rw [hp, (place_eq_some hp).2]

/-- The chart has the bars at its buckets. -/
theorem chartWith_of_isSome
    (h : ∀ gas ∈ chart.gasUsed, (place label chart.bucketWidth gas).isSome)
    (hfits : Bars.Fits chart.positions) :
    chart.chartWith blank label =
      some ⟨(Bars.occurring chart.positions).map fun i =>
          label (i * chart.bucketWidth) ((i + 1) * chart.bucketWidth),
        (Bars.occurring chart.positions).map chart.positions.count,
        Bars.largest chart.positions⟩ := by
  rw [chartWith, collect_of_isSome h, if_pos hfits, Option.bind_eq_bind, Option.bind_some,
    Bars.kept_ofPositions (fun i hi => by simpa [List.count_eq_zero] using hi) (by simp)]
  rfl

/-- A chart comes about only if each gas has its bucket and there is room for all of them. -/
theorem isSome_of_chartWith {data : TxGasUsedData L} (h : chart.chartWith blank label = some data) :
    (∀ gas ∈ chart.gasUsed, (place label chart.bucketWidth gas).isSome) ∧
      Bars.Fits chart.positions := by
  have hplaces : ∀ gas ∈ chart.gasUsed, (place label chart.bucketWidth gas).isSome := by
    intro gas hgas
    by_contra hnone
    rw [chartWith, Bars.collect_eq_none hgas (Option.not_isSome_iff_eq_none.mp hnone)] at h
    cases h
  refine ⟨hplaces, ?_⟩
  by_contra hfits
  rw [chartWith, collect_of_isSome hplaces, if_neg hfits] at h
  cases h

/-- The labels of the chart are made from the bounds of its buckets. -/
theorem exists_boundsData {millions : ℕ → Text} {data : TxGasUsedData Text}
    (h : chart.echartData millions = some data) :
    ∃ bounds, chart.boundsData = some ⟨bounds, data.counts, data.maxCount⟩ ∧
      data.buckets = bounds.map fun b =>
        abbreviateNum millions b.1 ++ " - ".toList ++ abbreviateNum millions b.2 := by
  obtain ⟨hplaces, hfits⟩ := isSome_of_chartWith h
  have hbounds : ∀ gas ∈ chart.gasUsed, (place Prod.mk chart.bucketWidth gas).isSome := by
    intro gas hgas
    have hplace := hplaces gas hgas
    have hmap := @place_map _ Prod.mk _ (fun b : ℕ × ℕ =>
      abbreviateNum millions b.1 ++ " - ".toList ++ abbreviateNum millions b.2)
      chart.bucketWidth gas
    rwa [hmap, Option.isSome_map] at hplace
  rw [echartData, chartWith_of_isSome hplaces hfits] at h
  obtain rfl := Option.some.inj h
  refine ⟨_, chartWith_of_isSome hbounds hfits, ?_⟩
  rw [List.map_map]
  rfl

end TxGasUsedChart

/-- **The bounds are right** only for a chart without transactions: the smallest gas is below the
bounds of all buckets. -/
theorem countsGasUsed_iff (traceData : List TxTraceReceipt) (bucketWidth : ℕ) :
    CountsGasUsed traceData bucketWidth ↔ traceData = [] := by
  constructor
  · rintro ⟨data, hdata, -, hexact⟩
    by_contra hne
    obtain ⟨hplaces, hfits⟩ := TxGasUsedChart.isSome_of_chartWith hdata
    rw [TxGasUsedChart.boundsData, TxGasUsedChart.chartWith_of_isSome hplaces hfits] at hdata
    obtain rfl := Option.some.inj hdata
    simp only [TxGasUsedChart.new, TxGasUsedChart.positions] at hplaces hexact
    have hpositions : (traceData.map TxTraceReceipt.gasUsed).map (· / bucketWidth + 1) ≠ [] := by
      simpa using hne
    -- the gas of the first bucket is below that bucket, and so below all of them
    obtain ⟨first, hfirst, hmin⟩ := Bars.exists_first hpositions
    obtain ⟨gas, hgas, rfl⟩ := List.mem_map.mp hfirst
    obtain ⟨p, hp⟩ := Option.isSome_iff_exists.mp (hplaces gas hgas)
    obtain ⟨hpos, -⟩ := TxGasUsedChart.place_eq_some hp
    obtain ⟨bounds, hbounds, hlo, -⟩ := hexact.covered gas hgas
    obtain ⟨i, hi, rfl⟩ := List.mem_map.mp hbounds
    have hle := hmin i (Bars.mem_occurring.mp hi)
    have hbelow : gas < i * bucketWidth := by
      calc gas < bucketWidth * (gas / bucketWidth + 1) := Nat.lt_mul_div_succ gas hpos
        _ ≤ bucketWidth * i := Nat.mul_le_mul_left _ hle
        _ = i * bucketWidth := Nat.mul_comm _ _
    exact absurd hlo (not_le.mpr hbelow)
  · rintro rfl
    refine ⟨⟨[], [], 0⟩, rfl, nofun, .nil, nofun, rfl, rfl, nofun, .inr ⟨rfl, rfl⟩⟩

/-- 21000 gas in buckets of 4000 is counted between 24000 and 28000. -/
theorem countsGasUsed_counterexample :
    (TxGasUsedChart.new [⟨21000⟩] 4000).boundsData = some ⟨[(24000, 28000)], [1], 1⟩ ∧
      ¬ CountsGasUsed [⟨21000⟩] 4000 := by
  have hrun : (TxGasUsedChart.new [⟨21000⟩] 4000).boundsData =
      some ⟨[(24000, 28000)], [1], 1⟩ := by decide +kernel
  refine ⟨hrun, ?_⟩
  rintro ⟨data, hdata, -, hexact⟩
  obtain rfl := Option.some.inj (hrun.symm.trans hdata)
  obtain ⟨bounds, hbounds, hlo, -⟩ := hexact.covered 21000 (by simp)
  obtain rfl := List.mem_singleton.mp hbounds
  exact absurd hlo (by decide)

end Contender
