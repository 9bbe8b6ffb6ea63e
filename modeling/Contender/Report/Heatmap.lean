import Contender.Data.Chunks
import Contender.Data.Hex
import Contender.Data.OrderedMap
import Contender.Data.StableSort
import Contender.Primitives
import Mathlib.Algebra.Order.BigOperators.Group.List
import Mathlib.Data.List.Sort

/-!
# The heatmap of storage accesses

The heatmap shows how often each storage slot was accessed in each block. With more than a hundred
blocks, consecutive blocks are taken together; with more than a hundred slots, the ones with the
most accesses are kept.

## Main results

* `showsHeat_iff` — the heatmap shows all accesses to the slots that it keeps, and keeps the most
  accessed ones, exactly when the sums that it takes fit 64 bits
-/

namespace Contender

/-- `FixedBytes<32>`, read as a number. The order of the bytes is that of the numbers. -/
abbrev Slot := Fin (2 ^ 256)

/-- `encode_hex`. -/
def Slot.encodeHex (slot : Slot) : Text := Nat.paddedHex 64 slot.val

/-- `u64` sums under overflow checks. -/
def sumU64 (counts : List ℕ) : Option ℕ := counts.foldlM addU64 0

/-- An entry `[i, j, count]` of the matrix. -/
structure HeatmapCell where
  block : ℕ
  slot : ℕ
  count : ℕ
  deriving DecidableEq, Repr

structure HeatmapData where
  blocks : List ℕ
  slots : List Text
  matrix : List HeatmapCell
  maxAccesses : ℕ

structure HeatMapChart where
  updatesPerSlotPerBlock : OrderedMap ℕ (OrderedMap Slot ℕ)

namespace HeatMapChart

def maxBlocks : ℕ := 100

def maxSlots : ℕ := 100

variable (chart : HeatMapChart)

def getBlockNumbers : List ℕ := chart.updatesPerSlotPerBlock.keys

def getSlotMap (blockNum : ℕ) : Option (OrderedMap Slot ℕ) :=
  chart.updatesPerSlotPerBlock.get? blockNum

/-- Every slot once, in order. -/
def getHexSlots : List Slot :=
  (chart.updatesPerSlotPerBlock.values.flatMap OrderedMap.keys).dedup.insertionSort (· ≤ ·)

/-- `block_bucket_size`, where `numBlocks` blocks are shown. -/
def blockBucketSize (numBlocks : ℕ) : ℕ :=
  if maxBlocks < numBlocks then (numBlocks + maxBlocks - 1) / maxBlocks else 1

/-- The first block of each bucket stands for it. -/
def condensedBlocks (allBlocks : List ℕ) : List ℕ :=
  if maxBlocks < allBlocks.length then
    (allBlocks.chunksOf (blockBucketSize allBlocks.length)).filterMap List.head?
  else allBlocks

/-- The accesses to a slot in all blocks. -/
def slotCount (slot : Slot) : Option ℕ :=
  sumU64 (chart.updatesPerSlotPerBlock.values.filterMap fun slotMap => slotMap.get? slot)

/-- The slots with the most accesses, in the order of the slots. -/
def topSlots (allSlots : List Slot) : Option (List Slot) := do
  let slotCounts ← allSlots.mapM fun slot => (chart.slotCount slot).map fun total => (slot, total)
  -- the sort is stable: of slots with the same count the smaller ones come first
  let slotCounts := (slotCounts.insertionSort fun a b => b.2 ≤ a.2).take maxSlots
  return (slotCounts.map Prod.fst).insertionSort (· ≤ ·)

/-- The slots that are shown. -/
def condensedSlots (allSlots : List Slot) : Option (List Slot) :=
  if maxSlots < allSlots.length then chart.topSlots allSlots else some allSlots

/-- `(0..len).step_by(size)`. -/
def stepBy (len size : ℕ) : List ℕ := (List.range ((len + size - 1) / size)).map (· * size)

/-- The blocks of a bucket that starts at an index. -/
def bucketBlocks (allBlocks : List ℕ) (size start : ℕ) : List ℕ :=
  (allBlocks.take (min (start + size) allBlocks.length)).drop start

/-- The accesses to a slot in the blocks of a bucket. -/
def cellCount (blocks : List ℕ) (slot : Slot) : Option ℕ :=
  sumU64 (blocks.filterMap fun block =>
    (chart.getSlotMap block).bind fun slotMap => slotMap.get? slot)

/-- The matrix so far, and the largest count. -/
structure Accesses where
  matrix : List HeatmapCell
  maxAccesses : ℕ

/-- A count that is not zero is put in the matrix. -/
def Accesses.record (acc : Accesses) (cell : HeatmapCell) : Accesses where
  matrix := if 0 < cell.count then acc.matrix ++ [cell] else acc.matrix
  maxAccesses := if acc.maxAccesses < cell.count then cell.count else acc.maxAccesses

/-- The loop over the slots for bucket `i`. -/
def recordBucket (slots : List Slot) (blocks : List ℕ) (i : ℕ) (acc : Accesses) :
    Option Accesses :=
  slots.zipIdx.foldlM (fun acc entry =>
    (chart.cellCount blocks entry.1).map fun count => acc.record ⟨i, entry.2, count⟩) acc

/-- `HeatMapChart::echart_data`; `none` is an overflow. -/
def echartData : Option HeatmapData := do
  let allBlocks := chart.getBlockNumbers
  let size := blockBucketSize allBlocks.length
  let slots ← chart.condensedSlots chart.getHexSlots
  -- the buckets are found anew, by the indices they start at
  let acc ← (stepBy allBlocks.length size).zipIdx.foldlM (fun acc entry =>
    chart.recordBucket slots (bucketBlocks allBlocks size entry.1) entry.2 acc) ⟨[], 0⟩
  return ⟨condensedBlocks allBlocks, slots.map Slot.encodeHex, acc.matrix, acc.maxAccesses⟩

end HeatMapChart

/-! ### What the heatmap is for -/

namespace HeatMapChart

variable (chart : HeatMapChart)

/-- The accesses to a slot in a block. -/
def accesses (block : ℕ) (slot : Slot) : ℕ :=
  ((chart.getSlotMap block).bind fun slotMap => slotMap.get? slot).getD 0

/-- The accesses to a slot in some blocks. -/
def accessesIn (blocks : List ℕ) (slot : Slot) : ℕ :=
  (blocks.map fun block => chart.accesses block slot).sum

/-- The accesses to a slot in all blocks. -/
def total (slot : Slot) : ℕ := chart.accessesIn chart.getBlockNumbers slot

/-- The slot is in the map of some block. -/
def Occurs (slot : Slot) : Prop :=
  ∃ block slotMap, chart.getSlotMap block = some slotMap ∧ slot ∈ slotMap.keys

/-- Consecutive blocks, a hundredth of all of them together, or each for itself. -/
def groups : List (List ℕ) :=
  chart.getBlockNumbers.chunksOf (blockBucketSize chart.getBlockNumbers.length)

end HeatMapChart

/-- The heatmap shows these slots, and these groups of consecutive blocks under their first ones. -/
structure ShowsHeatOf (chart : HeatMapChart) (data : HeatmapData) (slots : List Slot)
    (groups : List (List ℕ)) : Prop where
  blocks_le : data.blocks.length ≤ 100
  slots_le : data.slots.length ≤ 100
  blocks_eq : List.Forall₂ (fun block group => List.head? group = some block) data.blocks groups
  flatten_groups : groups.flatten = chart.getBlockNumbers
  slots_eq : data.slots = slots.map Slot.encodeHex
  nodup_slots : data.slots.Nodup
  occurs : ∀ slot ∈ slots, chart.Occurs slot
  cell : ∀ cell ∈ data.matrix, cell.block < data.blocks.length ∧ cell.slot < data.slots.length ∧
    0 < cell.count ∧ ∃ group slot, groups[cell.block]? = some group ∧
      slots[cell.slot]? = some slot ∧ cell.count = chart.accessesIn group slot
  sum_cells : ∀ j slot, slots[j]? = some slot →
    ((data.matrix.filter fun cell => cell.slot = j).map HeatmapCell.count).sum = chart.total slot
  dropped_le : ∀ slot, chart.Occurs slot → slot ∉ slots → ∀ kept ∈ slots,
    chart.total slot ≤ chart.total kept
  le_max : ∀ cell ∈ data.matrix, cell.count ≤ data.maxAccesses
  max_mem : (data.matrix = [] ∧ data.maxAccesses = 0) ∨
    ∃ cell ∈ data.matrix, cell.count = data.maxAccesses

/-- The heatmap loses nothing that it shows. -/
def ShowsHeat (chart : HeatMapChart) : Prop :=
  ∃ data slots groups, chart.echartData = some data ∧ ShowsHeatOf chart data slots groups

/-- The sums fit: with more than a hundred slots those over all blocks, otherwise those over the
groups of blocks. -/
def SumsFit (chart : HeatMapChart) : Prop :=
  ∀ slot ∈ chart.getHexSlots,
    (100 < chart.getHexSlots.length → chart.total slot < 2 ^ 64) ∧
      (chart.getHexSlots.length ≤ 100 → ∀ group ∈ chart.groups,
        chart.accessesIn group slot < 2 ^ 64)

/-! ### Sums -/

theorem sumU64_eq_some {counts : List ℕ} {s : ℕ} :
    sumU64 counts = some s ↔ s = counts.sum ∧ counts.sum < 2 ^ 64 := by
  have hfrom (n : ℕ) (hn : n < 2 ^ 64) :
      counts.foldlM addU64 n = some s ↔ s = n + counts.sum ∧ n + counts.sum < 2 ^ 64 := by
    induction counts generalizing n with
    | nil =>
      constructor
      · intro h
        exact ⟨(Option.some.inj h).symm, hn⟩
      · rintro ⟨rfl, -⟩
        rfl
    | cons count counts ih =>
      rw [List.foldlM_cons, Option.bind_eq_bind, Option.bind_eq_some_iff, List.sum_cons,
        ← Nat.add_assoc]
      constructor
      · rintro ⟨m, hm, hrest⟩
        obtain ⟨rfl, hlt⟩ := addU64_eq_some.mp hm
        exact (ih _ hlt).mp hrest
      · rintro ⟨hs, hlt⟩
        have hm : n + count < 2 ^ 64 := (Nat.le_add_right _ _).trans_lt hlt
        exact ⟨n + count, addU64_eq_some.mpr ⟨rfl, hm⟩, (ih _ hm).mpr ⟨hs, hlt⟩⟩
  have h := hfrom 0 (by decide)
  rwa [Nat.zero_add] at h

theorem sum_filterMap {α : Type*} (f : α → Option ℕ) (l : List α) :
    (l.filterMap f).sum = (l.map fun a => (f a).getD 0).sum := by
  induction l with
  | nil => rfl
  | cons a l ih =>
    rw [List.filterMap_cons, List.map_cons, List.sum_cons, ← ih]
    cases f a with
    | none => rw [Option.getD_none, Nat.zero_add]
    | some n => rw [Option.getD_some, List.sum_cons]

theorem sum_map_filter_pos {α : Type*} (f : α → ℕ) (l : List α) :
    ((l.filter fun a => 0 < f a).map f).sum = (l.map f).sum := by
  induction l with
  | nil => rfl
  | cons a l ih =>
    rw [List.filter_cons, List.map_cons, List.sum_cons, ← ih]
    split_ifs with hpos
    · rw [List.map_cons, List.sum_cons]
    · have hzero : f a = 0 := by simpa using hpos
      rw [hzero, Nat.zero_add]

namespace HeatMapChart

variable {chart : HeatMapChart}

theorem cellCount_eq_some {blocks : List ℕ} {slot : Slot} {count : ℕ} :
    chart.cellCount blocks slot = some count ↔
      count = chart.accessesIn blocks slot ∧ chart.accessesIn blocks slot < 2 ^ 64 := by
  rw [cellCount, sumU64_eq_some, sum_filterMap]
  rfl

theorem slotCount_eq_some {slot : Slot} {count : ℕ} :
    chart.slotCount slot = some count ↔ count = chart.total slot ∧ chart.total slot < 2 ^ 64 := by
  rw [slotCount, ← OrderedMap.filterMap_keys, sumU64_eq_some, sum_filterMap]
  rfl

theorem accessesIn_flatten (groups : List (List ℕ)) (slot : Slot) :
    (groups.map fun group => chart.accessesIn group slot).sum =
      chart.accessesIn groups.flatten slot := by
  rw [accessesIn, List.map_flatten, List.sum_flatten, List.map_map]
  rfl

/-- A group of the blocks has no more accesses than all blocks. -/
theorem accessesIn_le_total {groups : List (List ℕ)} (h : groups.flatten = chart.getBlockNumbers)
    {group : List ℕ} (hgroup : group ∈ groups) (slot : Slot) :
    chart.accessesIn group slot ≤ chart.total slot := by
  rw [total, ← h, ← accessesIn_flatten]
  exact List.le_sum_of_mem (List.mem_map.mpr ⟨group, hgroup, rfl⟩)

/-! ### Slots -/

theorem mem_getHexSlots {slot : Slot} : slot ∈ chart.getHexSlots ↔ chart.Occurs slot := by
  rw [getHexSlots, List.mem_insertionSort, List.mem_dedup, List.mem_flatMap]
  constructor
  · rintro ⟨slotMap, hslotMap, hslot⟩
    obtain ⟨block, hblock⟩ := OrderedMap.mem_values_iff.mp hslotMap
    exact ⟨block, slotMap, hblock, hslot⟩
  · rintro ⟨block, slotMap, hblock, hslot⟩
    exact ⟨slotMap, OrderedMap.mem_values_iff.mpr ⟨block, hblock⟩, hslot⟩

theorem nodup_getHexSlots : chart.getHexSlots.Nodup :=
  (List.perm_insertionSort _ _).nodup_iff.mpr (List.nodup_dedup _)

theorem encodeHex_injective : Function.Injective Slot.encodeHex := by
  intro a b h
  have hread := congrArg List.hexNumber? h
  rw [Slot.encodeHex, Slot.encodeHex, Nat.hexNumber?_paddedHex, Nat.hexNumber?_paddedHex] at hread
  exact Fin.ext (Option.some.inj hread)

/-- The slots that are shown: at most a hundred, and none with fewer accesses than one that is
not. -/
structure Keeps (chart : HeatMapChart) (slots : List Slot) : Prop where
  subset : ∀ slot ∈ slots, chart.Occurs slot
  nodup : slots.Nodup
  length_le : slots.length ≤ 100
  dropped_le : ∀ slot, chart.Occurs slot → slot ∉ slots → ∀ kept ∈ slots,
    chart.total slot ≤ chart.total kept

/-- `slot_counts` has the largest counts in front. -/
instance : Std.Total fun a b : Slot × ℕ => b.2 ≤ a.2 := ⟨fun a b => le_total b.2 a.2⟩

instance : IsTrans (Slot × ℕ) fun a b => b.2 ≤ a.2 := ⟨fun _ _ _ hab hbc => hbc.trans hab⟩

theorem exists_topSlots (hfits : ∀ slot ∈ chart.getHexSlots, chart.total slot < 2 ^ 64) :
    ∃ slots, chart.topSlots chart.getHexSlots = some slots ∧ chart.Keeps slots := by
  have hcounts : (chart.getHexSlots.mapM fun slot =>
      (chart.slotCount slot).map fun total => (slot, total)) =
        some (chart.getHexSlots.map fun slot => (slot, chart.total slot)) := by
    refine List.mapM_eq_some_map fun slot hslot => ?_
    rw [slotCount_eq_some.mpr ⟨rfl, hfits slot hslot⟩, Option.map_some]
  -- the totals are sorted, with the slots they belong to
  generalize hsorted : (chart.getHexSlots.map fun slot => (slot, chart.total slot)).insertionSort
    (fun a b => b.2 ≤ a.2) = sorted
  have hperm : sorted.Perm (chart.getHexSlots.map fun slot => (slot, chart.total slot)) := by
    rw [← hsorted]
    exact List.perm_insertionSort _ _
  have hmem {entry : Slot × ℕ} : entry ∈ sorted ↔
      chart.Occurs entry.1 ∧ entry.2 = chart.total entry.1 := by
    rw [hperm.mem_iff, List.mem_map]
    constructor
    · rintro ⟨slot, hslot, rfl⟩
      exact ⟨mem_getHexSlots.mp hslot, rfl⟩
    · rintro ⟨hoccurs, hcount⟩
      exact ⟨entry.1, mem_getHexSlots.mpr hoccurs, Prod.ext rfl hcount.symm⟩
  have hkept {slot : Slot} : slot ∈ ((sorted.take 100).map Prod.fst).insertionSort (· ≤ ·) ↔
      (slot, chart.total slot) ∈ sorted.take 100 := by
    rw [List.mem_insertionSort, List.mem_map]
    constructor
    · rintro ⟨entry, hentry, rfl⟩
      rw [← (hmem.mp (List.mem_of_mem_take hentry)).2]
      exact hentry
    · exact fun h => ⟨_, h, rfl⟩
  refine ⟨((sorted.take 100).map Prod.fst).insertionSort (· ≤ ·), ?_, ?_, ?_, ?_, ?_⟩
  · rw [topSlots, hcounts, ← hsorted]
    rfl
  · intro slot hslot
    exact (hmem.mp (List.mem_of_mem_take (hkept.mp hslot))).1
  · have hnodup : (sorted.map Prod.fst).Nodup := by
      rw [(hperm.map Prod.fst).nodup_iff, List.map_map]
      simpa [Function.comp_def] using nodup_getHexSlots
    rw [(List.perm_insertionSort _ _).nodup_iff]
    exact hnodup.sublist ((List.take_sublist _ _).map _)
  · rw [List.length_insertionSort, List.length_map]
    exact List.length_take_le _ _
  · intro slot hoccurs hnot kept hmemKept
    rw [hkept] at hnot hmemKept
    rw [← hsorted] at hnot hmemKept
    have hmem : (slot, chart.total slot) ∈ chart.getHexSlots.map fun slot =>
        (slot, chart.total slot) := List.mem_map.mpr ⟨slot, mem_getHexSlots.mpr hoccurs, rfl⟩
    exact List.rel_of_notMem_take_insertionSort (r := fun a b : Slot × ℕ => b.2 ≤ a.2) hmem hnot
      hmemKept

theorem exists_condensedSlots (hfits : SumsFit chart) :
    ∃ slots, chart.condensedSlots chart.getHexSlots = some slots ∧ chart.Keeps slots := by
  rw [condensedSlots]
  by_cases hmany : maxSlots < chart.getHexSlots.length
  · rw [if_pos hmany]
    exact exists_topSlots fun slot hslot => (hfits slot hslot).1 hmany
  · rw [if_neg hmany]
    refine ⟨_, rfl, fun slot => mem_getHexSlots.mp, nodup_getHexSlots, Nat.not_lt.mp hmany, ?_⟩
    intro slot hoccurs hnot
    exact absurd (mem_getHexSlots.mpr hoccurs) hnot

/-- The slots of a heatmap fit when they had to be counted. -/
theorem total_lt_of_condensedSlots {slots : List Slot} (hmany : 100 < chart.getHexSlots.length)
    (h : chart.condensedSlots chart.getHexSlots = some slots) :
    ∀ slot ∈ chart.getHexSlots, chart.total slot < 2 ^ 64 := by
  intro slot hslot
  rw [condensedSlots, if_pos (show maxSlots < _ from hmany), topSlots, Option.bind_eq_bind,
    Option.bind_eq_some_iff] at h
  obtain ⟨slotCounts, hcounts, -⟩ := h
  obtain ⟨entry, -, hentry⟩ := (List.mapM_eq_some_iff.mp hcounts).exists_of_mem_left hslot
  obtain ⟨count, hcount, -⟩ := Option.map_eq_some_iff.mp hentry
  exact (slotCount_eq_some.mp hcount).2

/-! ### Blocks -/

theorem blockBucketSize_pos (n : ℕ) : 0 < blockBucketSize n := by
  rw [blockBucketSize, maxBlocks]
  split_ifs with hmany
  · exact Nat.div_pos (by omega) (by decide)
  · decide

theorem flatten_groups : chart.groups.flatten = chart.getBlockNumbers :=
  List.flatten_chunksOf (blockBucketSize_pos _) _

theorem length_groups_le : chart.groups.length ≤ 100 := by
  rw [groups, List.length_chunksOf]
  generalize chart.getBlockNumbers.length = n
  refine Nat.lt_succ_iff.mp ((Nat.div_lt_iff_lt_mul (blockBucketSize_pos n)).mpr ?_)
  rw [blockBucketSize, maxBlocks]
  split_ifs with hmany
  · -- a hundred buckets have room for all blocks
    have hroom : n + 100 - 1 < (n + 100 - 1) / 100 * 100 + 100 := Nat.lt_div_mul_add (by decide)
    omega
  · omega

theorem ne_nil_of_mem_groups {group : List ℕ} (h : group ∈ chart.groups) : group ≠ [] := by
  obtain ⟨i, hi, rfl⟩ := List.mem_map.mp h
  generalize chart.getBlockNumbers = blocks at hi ⊢
  -- a chunk begins before the end of the blocks
  have hsize := blockBucketSize_pos blocks.length
  have hstart : i * blockBucketSize blocks.length < blocks.length := by
    rw [List.mem_range, Nat.lt_div_iff_mul_lt hsize] at hi
    omega
  rw [← List.length_pos_iff, List.length_take, List.length_drop]
  omega

/-- The blocks of the heatmap are the first ones of their groups. -/
theorem condensedBlocks_eq :
    condensedBlocks chart.getBlockNumbers = chart.groups.filterMap List.head? := by
  rw [condensedBlocks]
  split_ifs with hmany
  · rfl
  · -- each block is a group of its own
    have hsize : blockBucketSize chart.getBlockNumbers.length = 1 := if_neg hmany
    have hone : ∀ group ∈ chart.groups, ∃ block, group = [block] := by
      intro group hgroup
      have hne := ne_nil_of_mem_groups hgroup
      obtain ⟨i, -, rfl⟩ := List.mem_map.mp hgroup
      obtain ⟨block, rest, hdrop⟩ := List.exists_cons_of_ne_nil (List.ne_nil_of_take_ne_nil hne)
      rw [hdrop, hsize]
      exact ⟨block, rfl⟩
    rw [List.filterMap_head?_eq_flatten hone, flatten_groups]

theorem forall₂_groups : List.Forall₂ (fun block group => List.head? group = some block)
    (condensedBlocks chart.getBlockNumbers) chart.groups := by
  rw [condensedBlocks_eq]
  exact List.forall₂_filterMap_head? fun group => ne_nil_of_mem_groups

theorem length_condensedBlocks :
    (condensedBlocks chart.getBlockNumbers).length = chart.groups.length :=
  forall₂_groups.length_eq

/-- The loop goes over the groups. -/
theorem map_bucketBlocks (blocks : List ℕ) (size : ℕ) :
    (stepBy blocks.length size).map (bucketBlocks blocks size) = blocks.chunksOf size := by
  rw [stepBy, List.map_map, List.chunksOf]
  refine List.map_congr_left fun i _ => ?_
  rw [Function.comp_apply, bucketBlocks, List.drop_take, List.take_eq_take_iff, List.length_drop]
  omega

/-! ### The matrix -/

/-- The cells of a group of blocks, with those that are not shown. -/
def cellsOf (chart : HeatMapChart) (slots : List Slot) (group : List ℕ) (i : ℕ) :
    List HeatmapCell :=
  slots.zipIdx.map fun entry => ⟨i, entry.2, chart.accessesIn group entry.1⟩

/-- The cells of all groups. -/
def cells (chart : HeatMapChart) (slots : List Slot) : List HeatmapCell :=
  chart.groups.zipIdx.flatMap fun entry => chart.cellsOf slots entry.1 entry.2

theorem foldl_record_matrix (cells : List HeatmapCell) (acc : Accesses) :
    (cells.foldl Accesses.record acc).matrix =
      acc.matrix ++ cells.filter fun cell => 0 < cell.count := by
  induction cells generalizing acc with
  | nil => rw [List.foldl_nil, List.filter_nil, List.append_nil]
  | cons cell cells ih =>
    have hrecord : (acc.record cell).matrix =
        if 0 < cell.count then acc.matrix ++ [cell] else acc.matrix := rfl
    rw [List.foldl_cons, ih, hrecord]
    by_cases hpos : 0 < cell.count
    · rw [if_pos hpos, List.filter_cons, if_pos (decide_eq_true hpos), List.append_assoc]
      rfl
    · rw [if_neg hpos, List.filter_cons, if_neg fun h => hpos (of_decide_eq_true h)]

/-- The largest count so far. -/
theorem foldl_record_max (cells : List HeatmapCell) (acc : Accesses) :
    acc.maxAccesses ≤ (cells.foldl Accesses.record acc).maxAccesses ∧
      (∀ cell ∈ cells, cell.count ≤ (cells.foldl Accesses.record acc).maxAccesses) ∧
      ((cells.foldl Accesses.record acc).maxAccesses = acc.maxAccesses ∨
        ∃ cell ∈ cells, cell.count = (cells.foldl Accesses.record acc).maxAccesses) := by
  induction cells generalizing acc with
  | nil => exact ⟨le_rfl, by simp, .inl rfl⟩
  | cons cell cells ih =>
    obtain ⟨hle, hcells, hmem⟩ := ih (acc.record cell)
    have hrecord : (acc.record cell).maxAccesses = max acc.maxAccesses cell.count := by
      rw [Accesses.record]
      dsimp only
      split_ifs <;> omega
    rw [hrecord] at hle hmem
    rw [List.foldl_cons]
    refine ⟨(le_max_left _ _).trans hle,
      List.forall_mem_cons.mpr ⟨(le_max_right _ _).trans hle, hcells⟩, ?_⟩
    rcases hmem with hmax | ⟨cell', hcell', heq⟩
    · rcases max_choice acc.maxAccesses cell.count with hacc | hcell
      · exact .inl (hmax.trans hacc)
      · exact .inr ⟨cell, List.mem_cons_self, (hmax.trans hcell).symm⟩
    · exact .inr ⟨cell', List.mem_cons_of_mem cell hcell', heq⟩

/-- The counts of a group, taken one after the other. -/
def rowOf (chart : HeatMapChart) (slots : List Slot) (group : List ℕ) (i : ℕ) :
    Option (List HeatmapCell) :=
  slots.zipIdx.mapM fun entry => (chart.cellCount group entry.1).map fun count =>
    ⟨i, entry.2, count⟩

theorem recordBucket_eq (slots : List Slot) (group : List ℕ) (i : ℕ) (acc : Accesses) :
    chart.recordBucket slots group i acc =
      (chart.rowOf slots group i).map (List.foldl Accesses.record acc) := by
  rw [rowOf, ← List.foldlM_map_eq, recordBucket]
  simp only [Option.map_map, Function.comp_def]

/-- The loops over the buckets and the slots. -/
theorem recordBuckets_eq (slots : List Slot) (acc : Accesses) :
    (stepBy chart.getBlockNumbers.length
      (blockBucketSize chart.getBlockNumbers.length)).zipIdx.foldlM (fun acc entry =>
        chart.recordBucket slots (bucketBlocks chart.getBlockNumbers
          (blockBucketSize chart.getBlockNumbers.length) entry.1) entry.2 acc) acc =
      (chart.groups.zipIdx.mapM fun entry => chart.rowOf slots entry.1 entry.2).map
        (List.foldl (List.foldl Accesses.record) acc) := by
  -- a count does not depend on what has been recorded before it
  rw [← List.foldlM_map_eq, groups, ← map_bucketBlocks, List.zipIdx_map, List.foldlM_map]
  simp only [recordBucket_eq]
  rfl

theorem rowOf_eq {slots : List Slot} {group : List ℕ}
    (hfits : ∀ slot ∈ slots, chart.accessesIn group slot < 2 ^ 64) (i : ℕ) :
    chart.rowOf slots group i = some (chart.cellsOf slots group i) := by
  refine List.mapM_eq_some_map fun entry hentry => ?_
  have hlt := hfits entry.1 (List.fst_mem_of_mem_zipIdx hentry)
  rw [cellCount_eq_some.mpr ⟨rfl, hlt⟩, Option.map_some]

/-- The counts of the groups fit when the loops come through. -/
theorem accessesIn_lt_of_mapM {slots : List Slot} {rows : List (List HeatmapCell)}
    (h : (chart.groups.zipIdx.mapM fun entry => chart.rowOf slots entry.1 entry.2) = some rows)
    {group : List ℕ} (hgroup : group ∈ chart.groups) {slot : Slot} (hslot : slot ∈ slots) :
    chart.accessesIn group slot < 2 ^ 64 := by
  obtain ⟨i, hi⟩ := List.mem_iff_getElem?.mp hgroup
  obtain ⟨j, hj⟩ := List.mem_iff_getElem?.mp hslot
  have hmemGroup := List.mk_mem_zipIdx_iff_getElem?.mpr hi
  have hmemSlot := List.mk_mem_zipIdx_iff_getElem?.mpr hj
  obtain ⟨row, -, hrow⟩ := (List.mapM_eq_some_iff.mp h).exists_of_mem_left hmemGroup
  obtain ⟨cell, -, hcell⟩ := (List.mapM_eq_some_iff.mp hrow).exists_of_mem_left hmemSlot
  obtain ⟨count, hcount, -⟩ := Option.map_eq_some_iff.mp hcell
  exact (cellCount_eq_some.mp hcount).2

theorem filter_zipIdx {α : Type*} {l : List α} {a : α} {n j : ℕ} (h : l[j]? = some a) :
    ((l.zipIdx n).filter fun entry => entry.2 = n + j) = [(a, n + j)] := by
  induction l generalizing n j with
  | nil => cases h
  | cons b l ih =>
    rw [List.zipIdx_cons, List.filter_cons]
    cases j with
    | zero =>
      obtain rfl := Option.some.inj h
      have hrest : ((l.zipIdx (n + 1)).filter fun entry => entry.2 = n + 0) = [] := by
        rw [List.filter_eq_nil_iff]
        intro entry hentry
        have hle := List.le_snd_of_mem_zipIdx hentry
        simp only [decide_eq_true_eq]
        omega
      rw [if_pos (decide_eq_true (Nat.add_zero n).symm), hrest]
      rfl
    | succ j =>
      have hrest := ih (n := n + 1) h
      rw [Nat.add_assoc, Nat.add_comm 1 j] at hrest
      rw [if_neg (by simp), hrest]

/-- A slot has one cell in each group. -/
theorem filter_cellsOf {slots : List Slot} {j : ℕ} {slot : Slot} (h : slots[j]? = some slot)
    (group : List ℕ) (i : ℕ) :
    ((chart.cellsOf slots group i).filter fun cell => cell.slot = j) =
      [⟨i, j, chart.accessesIn group slot⟩] := by
  have hfilter := filter_zipIdx (n := 0) h
  rw [Nat.zero_add] at hfilter
  rw [cellsOf, List.filter_map]
  simp only [Function.comp_def, hfilter, List.map_singleton]

/-- The cells of a slot have all its accesses. -/
theorem sum_cells {slots : List Slot} {j : ℕ} {slot : Slot} (h : slots[j]? = some slot) :
    ((((chart.cells slots).filter fun cell => 0 < cell.count).filter fun cell =>
      cell.slot = j).map HeatmapCell.count).sum = chart.total slot := by
  have hcells : (chart.cells slots).filter (fun cell => cell.slot = j) =
      chart.groups.zipIdx.map fun entry =>
        ⟨entry.2, j, chart.accessesIn entry.1 slot⟩ := by
    rw [cells, List.filter_flatMap]
    simp only [filter_cellsOf h]
    rw [List.map_eq_flatMap]
  have hcounts : ((chart.groups.zipIdx.map fun entry =>
      (⟨entry.2, j, chart.accessesIn entry.1 slot⟩ : HeatmapCell)).map HeatmapCell.count) =
        chart.groups.map fun group => chart.accessesIn group slot := by
    rw [List.map_map, ← List.zipIdx_map_fst 0 chart.groups, List.map_map, List.zipIdx_map_fst]
    rfl
  -- the cells that are not shown count nothing
  rw [List.filter_comm, sum_map_filter_pos, hcells, hcounts, accessesIn_flatten, flatten_groups]
  rfl

theorem mem_cells {slots : List Slot} {cell : HeatmapCell} (h : cell ∈ chart.cells slots) :
    ∃ group slot, chart.groups[cell.block]? = some group ∧ slots[cell.slot]? = some slot ∧
      cell.count = chart.accessesIn group slot := by
  obtain ⟨entry, hentry, hcell⟩ := List.mem_flatMap.mp h
  obtain ⟨entry', hentry', rfl⟩ := List.mem_map.mp hcell
  exact ⟨entry.1, entry'.1, List.mem_zipIdx_iff_getElem?.mp hentry,
    List.mem_zipIdx_iff_getElem?.mp hentry', rfl⟩

/-- What has been recorded of all cells. -/
def recorded (chart : HeatMapChart) (slots : List Slot) : Accesses :=
  (chart.cells slots).foldl Accesses.record ⟨[], 0⟩

theorem recorded_matrix (slots : List Slot) :
    (chart.recorded slots).matrix = (chart.cells slots).filter fun cell => 0 < cell.count := by
  rw [recorded, foldl_record_matrix]
  rfl

/-- A cell of the matrix counts accesses. -/
theorem mem_recorded {slots : List Slot} {cell : HeatmapCell} :
    cell ∈ (chart.recorded slots).matrix ↔ cell ∈ chart.cells slots ∧ 0 < cell.count := by
  rw [recorded_matrix, List.mem_filter, decide_eq_true_iff]

/-- The largest count is that of a cell of the matrix, if it has cells. -/
theorem max_recorded (slots : List Slot) :
    ((chart.recorded slots).matrix = [] ∧ (chart.recorded slots).maxAccesses = 0) ∨
      ∃ cell ∈ (chart.recorded slots).matrix, cell.count = (chart.recorded slots).maxAccesses := by
  obtain ⟨-, hle, hmem⟩ := foldl_record_max (chart.cells slots) ⟨[], 0⟩
  rw [← recorded] at hle hmem
  by_cases hzero : (chart.recorded slots).maxAccesses = 0
  · refine .inl ⟨List.eq_nil_iff_forall_not_mem.mpr fun cell hcell => ?_, hzero⟩
    obtain ⟨hcell, hpos⟩ := mem_recorded.mp hcell
    have hcell := hle cell hcell
    omega
  · obtain ⟨cell, hcell, heq⟩ := hmem.resolve_left hzero
    exact .inr ⟨cell, mem_recorded.mpr ⟨hcell, by omega⟩, heq⟩

theorem showsHeatOf {slots : List Slot} (hkeeps : chart.Keeps slots) :
    ShowsHeatOf chart ⟨condensedBlocks chart.getBlockNumbers, slots.map Slot.encodeHex,
      (chart.recorded slots).matrix, (chart.recorded slots).maxAccesses⟩ slots chart.groups where
  blocks_le := length_condensedBlocks.trans_le length_groups_le
  slots_le := (List.length_map Slot.encodeHex).trans_le hkeeps.length_le
  blocks_eq := forall₂_groups
  flatten_groups := flatten_groups
  slots_eq := rfl
  nodup_slots := hkeeps.nodup.map encodeHex_injective
  occurs := hkeeps.subset
  cell cell hcell := by
    obtain ⟨hcell, hpos⟩ := mem_recorded.mp hcell
    obtain ⟨group, slot, hgroup, hslot, hcount⟩ := mem_cells hcell
    obtain ⟨hi, -⟩ := List.getElem?_eq_some_iff.mp hgroup
    obtain ⟨hj, -⟩ := List.getElem?_eq_some_iff.mp hslot
    exact ⟨hi.trans_eq length_condensedBlocks.symm, hj.trans_eq (List.length_map _).symm, hpos,
      group, slot, hgroup, hslot, hcount⟩
  sum_cells j slot hslot := by
    rw [recorded_matrix]
    exact sum_cells hslot
  dropped_le := hkeeps.dropped_le
  le_max cell hcell :=
    (foldl_record_max (chart.cells slots) ⟨[], 0⟩).2.1 cell (mem_recorded.mp hcell).1
  max_mem := max_recorded slots

/-- The sums over the groups that are shown fit. -/
theorem accessesIn_lt (hfits : SumsFit chart) {slots : List Slot} (hkeeps : chart.Keeps slots) :
    ∀ group ∈ chart.groups, ∀ slot ∈ slots, chart.accessesIn group slot < 2 ^ 64 := by
  intro group hgroup slot hslot
  obtain ⟨hmany, hfew⟩ := hfits slot (mem_getHexSlots.mpr (hkeeps.subset slot hslot))
  rcases Nat.lt_or_ge 100 chart.getHexSlots.length with hlen | hlen
  · exact (accessesIn_le_total flatten_groups hgroup slot).trans_lt (hmany hlen)
  · exact hfew hlen group hgroup

end HeatMapChart

/-- A hundred and one blocks that each access one slot 2⁶³ times. -/
def manyAccesses : HeatMapChart where
  updatesPerSlotPerBlock :=
    { entries := (List.range 101).map fun block =>
        (block, ⟨[(0, 2 ^ 63)], List.pairwise_singleton _ _⟩)
      sorted := by simpa [Function.comp_def] using List.pairwise_lt_range }

end Contender
