import Mathlib.Algebra.GroupWithZero.Nat
import Mathlib.Algebra.Order.BigOperators.Group.List
import Mathlib.Data.List.Induction
import Mathlib.Data.List.Pairwise
import Mathlib.Data.Nat.Find

/-!
# Bar charts that grow while they are counted

A bar chart is a vector of labels beside a vector of counts. A value is counted at its position: the
vectors are made long enough for it, the count there grows by one and the label is written. The
largest count is kept on the way.

The capacity of a vector at least doubles when it grows, and growing beyond the largest size of an
allocation is fatal. An allocator that refuses a smaller size is not modelled.

## Main results

* `collect_eq_some_iff` — the chart after a list of positions, unless the vectors outgrow an
  allocation: each position that occurs has its label and the number of its occurrences
* `capacity_le` — a vector does not grow beyond twice the positions it is made for
* `exact_of_positions` — with positions that are quotients by a width, the bars at the occurring
  positions count each value once, in the range that contains it
-/

/-- The labels and counts by position, the largest count, and the capacities of the vectors. -/
structure Bars (L : Type) where
  labels : List L
  counts : List ℕ
  maxCount : ℕ
  labelsCapacity : ℕ
  countsCapacity : ℕ

namespace List

variable {α : Type*}

/-- `Vec::resize` of a list that is not longer. -/
def extend (l : List α) (n : ℕ) (a : α) : List α := l ++ replicate (n - l.length) a

theorem extend_map_range {f : ℕ → α} {a : α} {m : ℕ} (hf : ∀ j, m ≤ j → f j = a) (n : ℕ) :
    ((range m).map f).extend n a = (range (max m n)).map f := by
  refine ext_getElem? fun j => ?_
  rw [extend, length_map, length_range, getElem?_append, getElem?_replicate]
  simp only [length_map, length_range, getElem?_map]
  by_cases hj : j < m
  · rw [if_pos hj, getElem?_range hj, getElem?_range (by omega)]
  · rw [if_neg hj]
    by_cases hn : j < n
    · rw [if_pos (by omega), getElem?_range (by omega), Option.map_some, hf j (by omega)]
    · rw [if_neg (by omega), getElem?_eq_none (by simp; omega), Option.map_none]

theorem set_map_range (f : ℕ → α) (n i : ℕ) (a : α) :
    ((range n).map f).set i a = (range n).map fun j => if j = i then a else f j := by
  refine ext_getElem? fun j => ?_
  rw [getElem?_set]
  simp only [length_map, length_range, getElem?_map]
  by_cases hj : j < n
  · rw [getElem?_range hj]
    by_cases hij : i = j
    · simp [hij, hj]
    · simp [hij, Ne.symm hij]
  · rw [getElem?_eq_none (by simp; omega), Option.map_none]
    split_ifs
    · omega
    · rfl
    · rfl

theorem zipIdx_map_range (f : ℕ → α) (n : ℕ) :
    ((range n).map f).zipIdx = (range n).map fun i => (f i, i) := by
  refine ext_getElem? fun j => ?_
  rw [getElem?_zipIdx, getElem?_map, getElem?_map]
  by_cases hj : j < n
  · rw [getElem?_range hj]
    simp
  · rw [getElem?_eq_none (by simpa using hj)]
    rfl

theorem modify_map_range (f : ℕ → α) (n i : ℕ) (g : α → α) :
    ((range n).map f).modify i g = (range n).map fun j => if j = i then g (f j) else f j := by
  refine ext_getElem? fun j => ?_
  rw [getElem?_modify]
  simp only [getElem?_map]
  by_cases hj : j < n
  · rw [getElem?_range hj]
    by_cases hij : i = j
    · simp [hij]
    · simp [hij, Ne.symm hij]
  · rw [getElem?_eq_none (by simp; omega)]
    rfl

end List

namespace Bars

open List

variable {L : Type} {blank : L}

/-! ### Capacities -/

/-- The capacity of a vector that has room for so many elements. One that grows at least doubles,
and has room for four. -/
def grow (capacity needed : ℕ) : ℕ :=
  if needed ≤ capacity then capacity else max (max (2 * capacity) needed) 4

/-- `Vec::reserve` for elements of so many bytes; `none` is the panic for a capacity overflow. -/
def reserve (bytes capacity needed : ℕ) : Option ℕ :=
  if needed ≤ capacity then some capacity
  else if grow capacity needed * bytes < 2 ^ 63 then some (grow capacity needed)
  else none

/-- The bytes of a `String`. -/
def labelBytes : ℕ := 24

/-- The bytes of a `u64`. -/
def countBytes : ℕ := 8

/-- The capacity of a vector that grows for one position after the other. -/
def capacity (positions : List ℕ) : ℕ := positions.foldl (fun c i => grow c (i + 1)) 0

/-- The labels of these positions fit an allocation. -/
def Fits (positions : List ℕ) : Prop := capacity positions * labelBytes < 2 ^ 63

instance (positions : List ℕ) : Decidable (Fits positions) :=
  inferInstanceAs (Decidable (_ < _))

theorem le_grow (capacity needed : ℕ) : capacity ≤ grow capacity needed := by
  unfold grow
  split_ifs <;> omega

theorem reserve_eq {bytes capacity : ℕ} (h : capacity * bytes < 2 ^ 63) (needed : ℕ) :
    reserve bytes capacity needed =
      if grow capacity needed * bytes < 2 ^ 63 then some (grow capacity needed) else none := by
  rw [reserve]
  split_ifs with hroom hgrown hgrown
  · rw [grow, if_pos hroom]
  · rw [grow, if_pos hroom] at hgrown
    exact absurd h hgrown
  · rfl
  · rfl

theorem capacity_concat (positions : List ℕ) (i : ℕ) :
    capacity (positions ++ [i]) = grow (capacity positions) (i + 1) := by
  rw [capacity, foldl_append]
  rfl

theorem Fits.of_concat {positions : List ℕ} {i : ℕ} (h : Fits (positions ++ [i])) :
    Fits positions := by
  unfold Fits at h ⊢
  rw [capacity_concat] at h
  have hle := le_grow (capacity positions) (i + 1)
  exact (Nat.mul_le_mul_right _ hle).trans_lt h

/-- A vector grows only for a position that it has no room for. -/
theorem capacity_le {positions : List ℕ} {n : ℕ} (h : ∀ i ∈ positions, i < n) :
    capacity positions ≤ max (2 * n) 4 := by
  induction positions using List.reverseRecOn with
  | nil => exact Nat.zero_le _
  | append_singleton positions i ih =>
    have hold := ih fun j hj => h j (mem_append_left _ hj)
    have hi := h i (by simp)
    rw [capacity_concat, grow]
    split_ifs <;> omega

/-! ### Counting -/

/-- The chart without values. -/
def empty : Bars L := ⟨[], [], 0, 0, 0⟩

/-- One value more at position `i`, where new positions get the blank label at first. -/
def visit (blank : L) (bars : Bars L) (i : ℕ) (label : L) : Option (Bars L) := do
  let labelsCapacity ← reserve labelBytes bars.labelsCapacity (i + 1)
  let countsCapacity ← reserve countBytes bars.countsCapacity (i + 1)
  let counts := (bars.counts.extend (i + 1) 0).modify i (· + 1)
  return {
    labels := (bars.labels.extend (i + 1) blank).set i label
    counts := counts
    maxCount := max bars.maxCount (counts.getD i 0)
    labelsCapacity
    countsCapacity }

/-- The number of positions up to the largest one. -/
def bound (positions : List ℕ) : ℕ := positions.foldl (fun n i => max n (i + 1)) 0

theorem bound_concat (positions : List ℕ) (i : ℕ) :
    bound (positions ++ [i]) = max (bound positions) (i + 1) := by
  rw [bound, foldl_append]
  rfl

theorem lt_bound {positions : List ℕ} {i : ℕ} (h : i ∈ positions) : i < bound positions := by
  induction positions using List.reverseRecOn with
  | nil => cases h
  | append_singleton positions j ih =>
    rw [bound_concat]
    rcases mem_append.mp h with h | h
    · have := ih h
      omega
    · obtain rfl := mem_singleton.mp h
      omega

/-- The bound is that of a position, unless there are none. -/
theorem bound_eq_zero_or (positions : List ℕ) :
    bound positions = 0 ∨ ∃ i ∈ positions, bound positions = i + 1 := by
  induction positions using List.reverseRecOn with
  | nil => exact .inl rfl
  | append_singleton positions j ih =>
    rw [bound_concat]
    rcases le_total (bound positions) (j + 1) with hle | hle
    · exact .inr ⟨j, by simp, max_eq_right hle⟩
    · rw [max_eq_left hle]
      rcases ih with hzero | ⟨i, hi, heq⟩
      · omega
      · exact .inr ⟨i, mem_append_left _ hi, heq⟩

/-- The largest of the counts of a list of positions. -/
def largest (positions : List ℕ) : ℕ :=
  ((range (bound positions)).map positions.count).foldl max 0

/-- What the chart is after a list of positions. -/
def ofPositions (blank : L) (label : ℕ → L) (positions : List ℕ) : Bars L where
  labels := (range (bound positions)).map fun i => if i ∈ positions then label i else blank
  counts := (range (bound positions)).map positions.count
  maxCount := largest positions
  labelsCapacity := capacity positions
  countsCapacity := capacity positions

@[simp] theorem counts_ofPositions (label : ℕ → L) (positions : List ℕ) :
    (ofPositions blank label positions).counts =
      (range (bound positions)).map positions.count :=
  rfl

theorem foldl_max_le_iff {l : List ℕ} {n k : ℕ} :
    l.foldl max n ≤ k ↔ n ≤ k ∧ ∀ x ∈ l, x ≤ k := by
  induction l generalizing n with
  | nil => simp
  | cons x l ih =>
    rw [foldl_cons, ih, max_le_iff, forall_mem_cons, and_assoc]

theorem le_foldl_min_iff {l : List ℕ} {n k : ℕ} :
    k ≤ l.foldl min n ↔ k ≤ n ∧ ∀ x ∈ l, k ≤ x := by
  induction l generalizing n with
  | nil => simp
  | cons x l ih =>
    rw [foldl_cons, ih, le_min_iff, forall_mem_cons, and_assoc]

theorem largest_le_iff {positions : List ℕ} {k : ℕ} :
    largest positions ≤ k ↔ ∀ i ∈ positions, positions.count i ≤ k := by
  rw [largest, foldl_max_le_iff]
  simp only [Nat.zero_le, true_and, forall_mem_map, mem_range]
  constructor
  · exact fun h i hi => h i (lt_bound hi)
  · intro h i _
    by_cases hi : i ∈ positions
    · exact h i hi
    · rw [count_eq_zero.mpr hi]
      exact Nat.zero_le k

theorem largest_concat (positions : List ℕ) (i : ℕ) :
    largest (positions ++ [i]) = max (largest positions) (positions.count i + 1) := by
  refine eq_of_forall_ge_iff fun k => ?_
  rw [largest_le_iff, max_le_iff, largest_le_iff]
  simp only [count_append, count_singleton, mem_append, mem_singleton]
  constructor
  · intro h
    refine ⟨fun j hj => ?_, by simpa using h i (.inr rfl)⟩
    exact (Nat.le_add_right _ _).trans (h j (.inl hj))
  · rintro ⟨hold, hnew⟩ j hj
    by_cases hij : j = i
    · simpa [hij] using hnew
    · simpa [Ne.symm hij] using hold j (hj.resolve_right hij)

/-- One value more is one position more, if there is room for it. -/
theorem visit_ofPositions (label : ℕ → L) {positions : List ℕ} (hfits : Fits positions) (i : ℕ) :
    (ofPositions blank label positions).visit blank i (label i) =
      if Fits (positions ++ [i]) then some (ofPositions blank label (positions ++ [i]))
      else none := by
  have hlabelsRoom : reserve labelBytes (capacity positions) (i + 1) =
      if Fits (positions ++ [i]) then some (capacity (positions ++ [i])) else none := by
    rw [reserve_eq hfits, ← capacity_concat]
    rfl
  rw [visit, ofPositions]
  dsimp only
  rw [hlabelsRoom]
  split_ifs with hnext
  case neg => rfl
  -- the counts are smaller than the labels
  have hcountsRoom : reserve countBytes (capacity positions) (i + 1) =
      some (capacity (positions ++ [i])) := by
    unfold Fits labelBytes at hfits hnext
    rw [reserve_eq (by unfold countBytes; omega), ← capacity_concat,
      if_pos (by unfold countBytes; omega)]
  rw [hcountsRoom]
  -- the new positions are not among the old ones: their count is zero, their label blank
  have hcounts : ((range (bound positions)).map positions.count).extend (i + 1) 0 =
      (range (bound (positions ++ [i]))).map positions.count := by
    rw [bound_concat]
    exact extend_map_range (fun j hj => count_eq_zero.mpr fun hmem =>
      absurd (lt_bound hmem) (not_lt.mpr hj)) _
  have hlabels : ((range (bound positions)).map
        fun j => if j ∈ positions then label j else blank).extend (i + 1) blank =
      (range (bound (positions ++ [i]))).map
        fun j => if j ∈ positions then label j else blank := by
    rw [bound_concat]
    exact extend_map_range (fun j hj => if_neg fun hmem =>
      absurd (lt_bound hmem) (not_lt.mpr hj)) _
  have hmodified : ((range (bound (positions ++ [i]))).map positions.count).modify i (· + 1) =
      (range (bound (positions ++ [i]))).map (positions ++ [i]).count := by
    rw [modify_map_range]
    refine map_congr_left fun j _ => ?_
    by_cases hij : j = i
    · simp [hij, count_append]
    · simp [hij, count_append, Ne.symm hij]
  have hi : i < bound (positions ++ [i]) := lt_bound (by simp)
  have hget : ((range (bound (positions ++ [i]))).map (positions ++ [i]).count).getD i 0 =
      positions.count i + 1 := by
    rw [getD_eq_getElem?_getD, getElem?_map, getElem?_range hi]
    simp [count_append]
  simp only [hcounts, hlabels, hmodified, hget, ofPositions, largest_concat, Option.bind_eq_bind,
    Option.bind_some]
  refine congrArg some (congrArg (Bars.mk · _ _ _ _) ?_)
  rw [set_map_range]
  refine map_congr_left fun j _ => ?_
  by_cases hij : j = i
  · simp [hij]
  · simp [hij]

/-- The chart of a list of values, where placing a value may fail. -/
def collect {α : Type*} (blank : L) (place : α → Option (ℕ × L)) (values : List α) :
    Option (Bars L) :=
  values.foldlM (fun bars v => (place v).bind fun p => bars.visit blank p.1 p.2) empty

section Collect

variable {α : Type*} {place : α → Option (ℕ × L)} {values : List α}

theorem collect_concat (place : α → Option (ℕ × L)) (values : List α) (v : α) :
    collect blank place (values ++ [v]) =
      (collect blank place values).bind fun bars =>
        (place v).bind fun p => bars.visit blank p.1 p.2 := by
  rw [collect, foldlM_append]
  refine congrArg (Option.bind _) (funext fun bars => ?_)
  rw [foldlM_cons]
  cases (place v).bind fun p => bars.visit blank p.1 p.2 <;> rfl

/-- The chart after a list of positions. -/
theorem collect_eq {position : α → ℕ} {label : ℕ → L}
    (h : ∀ v ∈ values, place v = some (position v, label (position v))) :
    collect blank place values =
      if Fits (values.map position) then some (ofPositions blank label (values.map position))
      else none := by
  induction values using List.reverseRecOn with
  | nil => rfl
  | append_singleton values v ih =>
    rw [collect_concat, ih fun w hw => h w (mem_append_left _ hw), h v (by simp), map_append,
      map_singleton]
    by_cases hfits : Fits (values.map position)
    · rw [if_pos hfits, Option.bind_some, Option.bind_some, visit_ofPositions label hfits]
    · rw [if_neg hfits, if_neg fun hall => hfits hall.of_concat, Option.bind_none]

theorem collect_eq_some_iff {position : α → ℕ} {label : ℕ → L} {bars : Bars L}
    (h : ∀ v ∈ values, place v = some (position v, label (position v))) :
    collect blank place values = some bars ↔
      Fits (values.map position) ∧ ofPositions blank label (values.map position) = bars := by
  rw [collect_eq h]
  split_ifs with hfits
  · rw [Option.some.injEq]
    exact (and_iff_right hfits).symm
  · exact iff_of_false (by simp) fun hboth => hfits hboth.1

/-- A value without a place is fatal. -/
theorem collect_eq_none {v : α} (hv : v ∈ values) (h : place v = none) :
    collect blank place values = none := by
  induction values using List.reverseRecOn with
  | nil => cases hv
  | append_singleton values w ih =>
    rw [collect_concat]
    rcases mem_append.mp hv with hv | hv
    · rw [ih hv]
      rfl
    · obtain rfl := mem_singleton.mp hv
      rw [h]
      cases collect blank place values <;> rfl

end Collect

/-! ### The bars at the occurring positions -/

/-- The positions that occur, in increasing order. -/
def occurring (positions : List ℕ) : List ℕ :=
  (range (bound positions)).filter fun i => i ∈ positions

theorem mem_occurring {positions : List ℕ} {i : ℕ} : i ∈ occurring positions ↔ i ∈ positions := by
  rw [occurring, mem_filter, mem_range, decide_eq_true_eq]
  exact ⟨And.right, fun h => ⟨lt_bound h, h⟩⟩

theorem pairwise_occurring (positions : List ℕ) : (occurring positions).Pairwise (· < ·) :=
  pairwise_lt_range.filter _

/-- The labels and counts of the bars that are kept. -/
def kept (keep : L → ℕ → Bool) (bars : Bars L) : List L × List ℕ :=
  ((bars.labels.zip bars.counts).filter fun bar => keep bar.1 bar.2).unzip

/-- Without the blank bars those at the occurring positions are left. -/
theorem kept_ofPositions {keep : L → ℕ → Bool} {label : ℕ → L} {positions : List ℕ}
    (hkeep : ∀ i ∈ positions, keep (label i) (positions.count i))
    (hblank : keep blank 0 = false) :
    (ofPositions blank label positions).kept keep =
      ((occurring positions).map label, (occurring positions).map positions.count) := by
  have hfilter : ((range (bound positions)).filter fun i =>
      keep (if i ∈ positions then label i else blank) (positions.count i)) =
        occurring positions := by
    refine filter_congr fun i _ => ?_
    by_cases hi : i ∈ positions
    · rw [if_pos hi, hkeep i hi, decide_eq_true hi]
    · rw [if_neg hi, count_eq_zero.mpr hi, hblank, decide_eq_false hi]
  have hlabels : (occurring positions).map (fun i => if i ∈ positions then label i else blank) =
      (occurring positions).map label :=
    map_congr_left fun i hi => if_pos (mem_occurring.mp hi)
  rw [kept, ofPositions, zip_map', filter_map, unzip_eq_map, map_map, map_map, ← hlabels,
    ← hfilter]
  rfl

/-! ### Exact charts -/

/-- The chart is right: the ranges follow one another, each value is in one of them, each count is
the number of values in its range, and `maxCount` is the largest count. -/
structure Exact (values : List ℕ) (ranges : List (ℕ × ℕ)) (counts : List ℕ) (maxCount : ℕ) :
    Prop where
  increasing : ranges.Pairwise fun r s => r.2 ≤ s.1
  covered : ∀ v ∈ values, ∃ r ∈ ranges, r.1 ≤ v ∧ v < r.2
  counted : counts = ranges.map fun r => values.countP fun v => r.1 ≤ v ∧ v < r.2
  total : counts.sum = values.length
  le_maxCount : ∀ c ∈ counts, c ≤ maxCount
  maxCount_mem : maxCount ∈ counts ∨ counts = [] ∧ maxCount = 0

/-- Each position is counted once. -/
theorem sum_map_count {indices positions : List ℕ} (hnodup : indices.Nodup)
    (hcover : ∀ i ∈ positions, i ∈ indices) :
    (indices.map positions.count).sum = positions.length := by
  induction positions with
  | nil => simp
  | cons i positions ih =>
    have hsplit : indices.map (i :: positions).count =
        indices.map fun j => positions.count j + if i = j then 1 else 0 :=
      map_congr_left fun j _ => by rw [count_cons]; simp
    have hone : (indices.map fun j => if i = j then 1 else 0).sum = 1 := by
      rw [sum_map_eq_nsmul_single i _ fun j hj _ => if_neg (Ne.symm hj), if_pos rfl,
        hnodup.count, if_pos (hcover i mem_cons_self)]
      rfl
    rw [hsplit, sum_map_add, hone, ih fun j hj => hcover j (mem_cons_of_mem i hj), length_cons]

/-- Some position occurs as often as any other one. -/
theorem exists_count_eq_largest {positions : List ℕ} (h : positions ≠ []) :
    ∃ i ∈ positions, positions.count i = largest positions := by
  by_contra hnone
  push Not at hnone
  -- otherwise a smaller number would be a bound too
  have hlt : ∀ i ∈ positions, positions.count i ≤ largest positions - 1 := by
    intro i hi
    have hle := largest_le_iff.mp le_rfl i hi
    have hne := hnone i hi
    omega
  have hle := largest_le_iff.mpr hlt
  obtain ⟨i, hi⟩ := exists_mem_of_ne_nil positions h
  have hpos := count_pos_iff.mpr hi
  have hbound := largest_le_iff.mp le_rfl i hi
  omega

theorem div_eq_iff_mem_range {v w i : ℕ} (hw : 0 < w) : v / w = i ↔ i * w ≤ v ∧ v < i * w + w := by
  rw [Nat.div_eq_iff hw]
  omega

/-- Bars of width `w` at positions that cover the values are right. -/
theorem exact_of_positions {values indices : List ℕ} {w : ℕ} (hw : 0 < w)
    (hinc : indices.Pairwise (· < ·)) (hcover : ∀ v ∈ values, v / w ∈ indices) :
    Exact values (indices.map fun i => (i * w, i * w + w))
      (indices.map (values.map (· / w)).count) (largest (values.map (· / w))) where
  increasing := by
    rw [pairwise_map]
    refine hinc.imp fun {i j} hij => ?_
    calc i * w + w = (i + 1) * w := (Nat.succ_mul i w).symm
      _ ≤ j * w := Nat.mul_le_mul_right w hij
  covered v hv := ⟨_, mem_map_of_mem (hcover v hv), (div_eq_iff_mem_range hw).mp rfl⟩
  counted := by
    rw [map_map]
    refine map_congr_left fun i _ => ?_
    rw [count, countP_map]
    refine countP_congr fun v _ => ?_
    simp only [Function.comp_apply, beq_iff_eq, decide_eq_true_eq]
    exact div_eq_iff_mem_range hw
  total := by
    rw [sum_map_count (hinc.imp fun h => Nat.ne_of_lt h) fun i hi => ?_, length_map]
    obtain ⟨v, hv, rfl⟩ := mem_map.mp hi
    exact hcover v hv
  le_maxCount c hc := by
    obtain ⟨i, -, rfl⟩ := mem_map.mp hc
    by_cases hi : i ∈ values.map (· / w)
    · exact largest_le_iff.mp le_rfl i hi
    · rw [count_eq_zero.mpr hi]
      exact Nat.zero_le _
  maxCount_mem := by
    by_cases hvalues : values = []
    · subst hvalues
      cases indices with
      | nil => exact .inr ⟨rfl, rfl⟩
      | cons i indices => exact .inl (mem_cons_self)
    · have hne : values.map (· / w) ≠ [] := fun hnil => hvalues (map_eq_nil_iff.mp hnil)
      obtain ⟨i, hi, heq⟩ := exists_count_eq_largest hne
      obtain ⟨v, hv, rfl⟩ := mem_map.mp hi
      exact .inl (heq ▸ mem_map_of_mem (hcover v hv))

/-! ### The bars from the first to the last one -/

/-- The place of the last element with a property. -/
def lastIdx? {α : Type*} (p : α → Bool) (l : List α) : Option ℕ :=
  (l.reverse.findIdx? p).map fun i => l.length - 1 - i

theorem lastIdx?_concat {α : Type*} {p : α → Bool} {a : α} (h : p a) (l : List α) :
    lastIdx? p (l ++ [a]) = some l.length := by
  rw [lastIdx?, reverse_append, reverse_singleton, singleton_append, findIdx?_cons, if_pos h,
    Option.map_some, length_append]
  rfl

/-- The first of the occurring positions. -/
theorem exists_first {positions : List ℕ} (h : positions ≠ []) :
    ∃ i ∈ positions, ∀ j ∈ positions, i ≤ j := by
  have hex : ∃ i, i ∈ positions := exists_mem_of_ne_nil positions h
  exact ⟨Nat.find hex, Nat.find_spec hex, fun j hj => Nat.find_min' hex hj⟩

theorem findIdx?_counts {positions : List ℕ} {i : ℕ} (hi : i ∈ positions)
    (hmin : ∀ j ∈ positions, i ≤ j) (label : ℕ → L) :
    (ofPositions blank label positions).counts.findIdx? (fun c => 0 < c) = some i := by
  rw [ofPositions, findIdx?_eq_some_iff_getElem]
  refine ⟨by simpa using lt_bound hi, ?_, fun j hj => ?_⟩
  · simpa using count_pos_iff.mpr hi
  · have hnot : j ∉ positions := fun hmem => absurd (hmin j hmem) (not_le.mpr hj)
    simpa using hnot

theorem lastIdx?_counts {positions : List ℕ} (h : positions ≠ []) (label : ℕ → L) :
    lastIdx? (fun c => 0 < c) (ofPositions blank label positions).counts =
      some (bound positions - 1) := by
  rcases bound_eq_zero_or positions with hzero | ⟨i, hi, hbound⟩
  · obtain ⟨i, hi⟩ := exists_mem_of_ne_nil positions h
    have := lt_bound hi
    omega
  · have hcounts : (ofPositions blank label positions).counts =
        (range i).map positions.count ++ [positions.count i] := by
      rw [counts_ofPositions, hbound, range_succ, map_append, map_singleton]
    have hpos : decide (0 < positions.count i) = true := decide_eq_true (count_pos_iff.mpr hi)
    rw [hcounts, lastIdx?_concat (p := fun c => decide (0 < c)) hpos, length_map, length_range,
      hbound, Nat.add_sub_cancel]

/-- The part of a list of positions between two bounds. -/
theorem take_drop_map_range {α : Type*} (f : ℕ → α) (m n : ℕ) :
    (((range n).map f).drop m).take (n - m) = (range' m (n - m)).map f := by
  rw [← map_drop, ← map_take, range_eq_range', drop_range', take_range'_of_length_le (by simp)]
  simp

end Bars
