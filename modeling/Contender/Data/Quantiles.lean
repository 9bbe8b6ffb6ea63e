import Contender.Data.Histogram
import Mathlib.Algebra.Order.BigOperators.Group.List
import Mathlib.Algebra.Order.Field.Basic
import Mathlib.Algebra.Order.Floor.Semiring

/-!
# Quantiles of a histogram

A reading of a histogram stands for a distribution function that is linear within each bucket. A
quantile is read off where the function reaches the count it asks for.

## Main results

* `interpolate_mono`, `interpolate_mem` — what is read off grows with the count, and stays between
  the bounds of the reading
* `sum_increments` — the counts of the single buckets add up to the last cumulative count
-/

namespace Histogram

variable {K : Type*}

section Rising

variable [LT K]

/-- The bounds rise, and the counts do not fall, from a given bound and count on. -/
def Rising : K → ℕ → List (Bucket K) → Prop
  | _, _, [] => True
  | lower, lowerCount, b :: bs =>
    lower < b.upperBound ∧ lowerCount ≤ b.cumulativeCount ∧
      Rising b.upperBound b.cumulativeCount bs

end Rising

/-- The last bound of a reading that starts at a given bound. -/
def top : K → List (Bucket K) → K
  | lower, [] => lower
  | _, b :: bs => top b.upperBound bs

/-- The last count of a reading that starts at a given count. -/
def topCount : ℕ → List (Bucket K) → ℕ
  | lowerCount, [] => lowerCount
  | _, b :: bs => topCount b.cumulativeCount bs

theorem top_eq_getLast? (lower : K) (bs : List (Bucket K)) :
    top lower bs = (bs.getLast?.map Bucket.upperBound).getD lower := by
  induction bs generalizing lower with
  | nil => rfl
  | cons b bs ih =>
    rw [top, ih, List.getLast?_cons]
    cases bs.getLast? <;> rfl

theorem topCount_eq_total (bs : List (Bucket K)) : topCount 0 bs = total bs := by
  -- the count to start from is arbitrary in the induction
  have h (n : ℕ) (bs : List (Bucket K)) :
      topCount n bs = (bs.getLast?.map Bucket.cumulativeCount).getD n := by
    induction bs generalizing n with
    | nil => rfl
    | cons b bs ih =>
      rw [topCount, ih, List.getLast?_cons]
      cases bs.getLast? <;> rfl
  exact h 0 bs

/-- The counts of the single buckets. -/
def increments : ℕ → List (Bucket K) → List ℕ
  | _, [] => []
  | lowerCount, b :: bs => (b.cumulativeCount - lowerCount) :: increments b.cumulativeCount bs

theorem sum_increments [LT K] {lower : K} {lowerCount : ℕ} {bs : List (Bucket K)}
    (h : Rising lower lowerCount bs) :
    lowerCount + (increments lowerCount bs).sum = topCount lowerCount bs := by
  induction bs generalizing lower lowerCount with
  | nil => rfl
  | cons b bs ih =>
    obtain ⟨-, hcount, hrest⟩ := h
    rw [increments, List.sum_cons, topCount, ← ih hrest]
    omega

theorem Rising.le_topCount [LT K] {lower : K} {lowerCount : ℕ} {bs : List (Bucket K)}
    (h : Rising lower lowerCount bs) :
    lowerCount ≤ topCount lowerCount bs ∧
      ∀ b ∈ bs, b.cumulativeCount ≤ topCount lowerCount bs := by
  induction bs generalizing lower lowerCount with
  | nil => exact ⟨le_rfl, by simp⟩
  | cons b bs ih =>
    obtain ⟨-, hcount, hrest⟩ := h
    obtain ⟨hfirst, hbs⟩ := ih hrest
    exact ⟨hcount.trans hfirst, List.forall_mem_cons.mpr ⟨hfirst, hbs⟩⟩

/-- Rising bounds and counts that do not fall, side by side. -/
theorem rising_zipWith [Preorder K] {lower : K} {lowerCount : ℕ} {bounds : List K} {xs : List ℕ}
    (hlower : ∀ b ∈ bounds, lower < b) (hbounds : bounds.Pairwise (· < ·))
    (hcount : ∀ x ∈ xs, lowerCount ≤ x) (hxs : xs.Pairwise (· ≤ ·)) :
    Rising lower lowerCount (List.zipWith Bucket.mk bounds xs) := by
  induction bounds generalizing lower lowerCount xs with
  | nil => trivial
  | cons b bounds ih =>
    cases xs with
    | nil => trivial
    | cons x xs =>
      obtain ⟨hb, hbounds⟩ := List.pairwise_cons.mp hbounds
      obtain ⟨hx, hxs⟩ := List.pairwise_cons.mp hxs
      exact ⟨hlower b List.mem_cons_self, hcount x List.mem_cons_self, ih hb hbounds hx hxs⟩

/-- A reading, taken apart into its bounds and counts. -/
theorem zipWith_map_eq_self (bs : List (Bucket K)) :
    List.zipWith Bucket.mk (bs.map Bucket.upperBound) (bs.map Bucket.cumulativeCount) = bs := by
  induction bs with
  | nil => rfl
  | cons b bs ih => rw [List.map_cons, List.map_cons, List.zipWith_cons_cons, ih]

/-- Counts of several readings, added up place by place. -/
def addUp (xs : List ℕ) (readings : List (List ℕ)) : List ℕ :=
  readings.foldl (List.zipWith (· + ·)) xs

section AddUp

variable {xs : List ℕ} {readings : List (List ℕ)}

theorem getElem?_addUp {i x : ℕ} (h : ∀ ys ∈ readings, ys.length = xs.length)
    (hx : xs[i]? = some x) :
    (addUp xs readings)[i]? = some (x + (readings.map fun ys => ys.getD i 0).sum) := by
  induction readings generalizing xs x with
  | nil => exact hx
  | cons ys readings ih =>
    obtain ⟨hys, hreadings⟩ := List.forall_mem_cons.mp h
    have hlen : (List.zipWith (· + ·) xs ys).length = xs.length := by
      rw [List.length_zipWith, hys, Nat.min_self]
    obtain ⟨hi, -⟩ := List.getElem?_eq_some_iff.mp hx
    obtain ⟨y, hy⟩ : ∃ y, ys[i]? = some y := ⟨_, List.getElem?_eq_getElem (by omega)⟩
    have hsum : (List.zipWith (· + ·) xs ys)[i]? = some (x + y) := by
      rw [List.getElem?_zipWith, hx, hy]
    have hget : ys.getD i 0 = y := by rw [List.getD_eq_getElem?_getD, hy, Option.getD_some]
    rw [addUp, List.foldl_cons, List.map_cons, List.sum_cons, hget, ← Nat.add_assoc]
    exact ih (fun zs hzs => (hreadings zs hzs).trans hlen.symm) hsum

/-- Counts that do not fall do not fall when they are added up. -/
theorem pairwise_addUp (hxs : xs.Pairwise (· ≤ ·)) (h : ∀ ys ∈ readings, ys.Pairwise (· ≤ ·)) :
    (addUp xs readings).Pairwise (· ≤ ·) := by
  induction readings generalizing xs with
  | nil => exact hxs
  | cons ys readings ih =>
    obtain ⟨hys, hreadings⟩ := List.forall_mem_cons.mp h
    refine ih (List.pairwise_iff_getElem.mpr fun i j hi hj hij => ?_) hreadings
    rw [List.length_zipWith] at hi hj
    rw [List.getElem_zipWith, List.getElem_zipWith]
    exact Nat.add_le_add (List.pairwise_iff_getElem.mp hxs i j _ _ hij)
      (List.pairwise_iff_getElem.mp hys i j _ _ hij)

/-- Readings over the same bounds are added up place by place. -/
theorem merge_flatMap_zipWith [DecidableEq K] {bounds : List K} (hnodup : bounds.Nodup)
    (hxs : xs.length = bounds.length) (h : ∀ ys ∈ readings, ys.length = bounds.length) :
    merge (List.zipWith Bucket.mk bounds xs)
        (readings.flatMap fun ys => List.zipWith Bucket.mk bounds ys) =
      List.zipWith Bucket.mk bounds (addUp xs readings) := by
  induction readings generalizing xs with
  | nil => rfl
  | cons ys readings ih =>
    obtain ⟨hys, hreadings⟩ := List.forall_mem_cons.mp h
    have hnew : ∀ b ∈ bounds, b ∉ ([] : List (Bucket K)).map Bucket.upperBound := by simp
    have hfirst : merge (List.zipWith Bucket.mk bounds xs) (List.zipWith Bucket.mk bounds ys) =
        List.zipWith Bucket.mk bounds (List.zipWith (· + ·) xs ys) :=
      merge_zipWith hnodup hxs hys hnew
    have hlen : (List.zipWith (· + ·) xs ys).length = bounds.length := by
      rw [List.length_zipWith, hxs, hys, Nat.min_self]
    rw [List.flatMap_cons, merge, List.foldl_append]
    change merge (merge _ _) _ = _
    rw [hfirst, ih hlen hreadings, addUp, addUp, List.foldl_cons]

end AddUp

theorem total_eq_getD (bs : List (Bucket K)) :
    total bs = (bs.map Bucket.cumulativeCount).getD (bs.length - 1) 0 := by
  rw [total, List.getLast?_eq_getElem?, List.getD_eq_getElem?_getD, List.getElem?_map]

section Interpolation

variable [Field K]

/-- Where the linear function through the buckets reaches a count. An empty bucket counts as one
element. -/
def interpolate : K → ℕ → List (Bucket K) → ℕ → K
  | lower, _, [], _ => lower
  | lower, lowerCount, b :: bs, target =>
    if target ≤ b.cumulativeCount then
      lower + (b.upperBound - lower) *
        ((target - lowerCount : ℕ) / (max (b.cumulativeCount - lowerCount) 1 : ℕ))
    else interpolate b.upperBound b.cumulativeCount bs target

variable [LinearOrder K] [IsStrictOrderedRing K] {lower : K} {lowerCount target : ℕ}
  {bs : List (Bucket K)}

/-- The share of a bucket that a count takes. -/
theorem share_mem {count : ℕ} (h : target ≤ count) :
    (0 : K) ≤ (target - lowerCount : ℕ) / (max (count - lowerCount) 1 : ℕ) ∧
      ((target - lowerCount : ℕ) / (max (count - lowerCount) 1 : ℕ) : K) ≤ 1 := by
  refine ⟨div_nonneg (Nat.cast_nonneg _) (Nat.cast_nonneg _), ?_⟩
  refine div_le_one_of_le₀ ?_ (Nat.cast_nonneg _)
  exact_mod_cast le_max_of_le_left (Nat.sub_le_sub_right h lowerCount)

omit [Field K] [IsStrictOrderedRing K] in
theorem le_top (h : Rising lower lowerCount bs) : lower ≤ top lower bs := by
  induction bs generalizing lower lowerCount with
  | nil => exact le_rfl
  | cons b bs ih => exact h.1.le.trans (ih h.2.2)

/-- What is read off lies between the bounds of the reading. -/
theorem interpolate_mem (h : Rising lower lowerCount bs) :
    lower ≤ interpolate lower lowerCount bs target ∧
      interpolate lower lowerCount bs target ≤ top lower bs := by
  induction bs generalizing lower lowerCount with
  | nil => exact ⟨le_rfl, le_rfl⟩
  | cons b bs ih =>
    obtain ⟨hbound, -, hrest⟩ := h
    rw [interpolate, top]
    split_ifs with htarget
    · obtain ⟨hlow, hhigh⟩ := @share_mem K _ _ _ lowerCount _ _ htarget
      have hwidth : 0 ≤ b.upperBound - lower := (sub_pos.mpr hbound).le
      refine ⟨le_add_of_nonneg_right (mul_nonneg hwidth hlow), le_trans ?_ (le_top hrest)⟩
      calc _ ≤ lower + (b.upperBound - lower) * 1 :=
            add_le_add_right (mul_le_mul_of_nonneg_left hhigh hwidth) lower
        _ = b.upperBound := by rw [mul_one, add_sub_cancel]
    · obtain ⟨hlow, hhigh⟩ := ih hrest
      exact ⟨hbound.le.trans hlow, hhigh⟩

/-- What is read off grows with the count. -/
theorem interpolate_mono {target' : ℕ} (h : Rising lower lowerCount bs) (hle : target ≤ target') :
    interpolate lower lowerCount bs target ≤ interpolate lower lowerCount bs target' := by
  induction bs generalizing lower lowerCount with
  | nil => exact le_rfl
  | cons b bs ih =>
    obtain ⟨hbound, -, hrest⟩ := h
    have hwidth : 0 ≤ b.upperBound - lower := (sub_pos.mpr hbound).le
    rw [interpolate, interpolate]
    by_cases htarget' : target' ≤ b.cumulativeCount
    · -- both counts are reached in this bucket
      rw [if_pos (hle.trans htarget'), if_pos htarget']
      have hshare : ((target - lowerCount : ℕ) : K) ≤ (target' - lowerCount : ℕ) :=
        Nat.cast_le.mpr (Nat.sub_le_sub_right hle lowerCount)
      exact add_le_add_right (mul_le_mul_of_nonneg_left
        (div_le_div_of_nonneg_right hshare (Nat.cast_nonneg _)) hwidth) lower
    · rw [if_neg htarget']
      split_ifs with htarget
      · -- the larger count is reached behind the bound of this bucket
        obtain ⟨-, hhigh⟩ := @share_mem K _ _ _ lowerCount _ _ htarget
        calc _ ≤ lower + (b.upperBound - lower) * 1 :=
              add_le_add_right (mul_le_mul_of_nonneg_left hhigh hwidth) lower
          _ = b.upperBound := by rw [mul_one, add_sub_cancel]
          _ ≤ _ := (interpolate_mem hrest).1
      · exact ih hrest

variable [FloorSemiring K]

/-- The quantile of a reading. -/
def quantile (bs : List (Bucket K)) (q : K) : K :=
  interpolate 0 0 bs ⌈q * (total bs : K)⌉₊

theorem quantile_mono (h : Rising 0 0 bs) : Monotone (quantile bs) := fun _ _ hq =>
  interpolate_mono h (Nat.ceil_mono (mul_le_mul_of_nonneg_right hq (Nat.cast_nonneg _)))

theorem quantile_mem (h : Rising 0 0 bs) (q : K) : 0 ≤ quantile bs q ∧ quantile bs q ≤ top 0 bs :=
  interpolate_mem h

end Interpolation

end Histogram
