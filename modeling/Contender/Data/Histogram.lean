import Mathlib.Algebra.Order.Ring.Nat
import Mathlib.Data.List.Nodup

/-!
# Histograms

A histogram counts values by the first of its bounds they do not exceed; a value above every
bound is in no bucket. It is read off with cumulative counts, and readings of histograms over
the same bounds are added up bucket by bucket.

## Main results

* `sum_observe` — a value is counted exactly when it is under some bound
* `total_merge` — added up readings have in their last bucket the sum of all counts
-/

namespace Histogram

variable {L : Type*}

/-- A bucket as it is read off. -/
structure Bucket (L : Type*) where
  upperBound : L
  cumulativeCount : ℕ
  deriving DecidableEq, Repr

/-- The running sums of the counts. -/
def cumulative : ℕ → List ℕ → List ℕ
  | _, [] => []
  | sum, n :: counts => (sum + n) :: cumulative (sum + n) counts

/-- The reading of a histogram. -/
def buckets (bounds : List L) (counts : List ℕ) : List (Bucket L) :=
  List.zipWith Bucket.mk bounds (cumulative 0 counts)

/-- The count of the last bucket. -/
def total (bs : List (Bucket L)) : ℕ := (bs.getLast?.map Bucket.cumulativeCount).getD 0

@[simp] theorem length_cumulative (sum : ℕ) (counts : List ℕ) :
    (cumulative sum counts).length = counts.length := by
  induction counts generalizing sum with
  | nil => rfl
  | cons n counts ih => rw [cumulative, List.length_cons, ih, List.length_cons]

theorem getLast?_cumulative (sum : ℕ) (counts : List ℕ) :
    ((cumulative sum counts).getLast?).getD sum = sum + counts.sum := by
  induction counts generalizing sum with
  | nil => simp [cumulative]
  | cons n counts ih =>
    rw [cumulative, List.getLast?_cons, Option.getD_some, ih, List.sum_cons]
    omega

theorem total_zipWith {bounds : List L} {xs : List ℕ} (h : xs.length = bounds.length) :
    total (List.zipWith Bucket.mk bounds xs) = xs.getLast?.getD 0 := by
  rw [total, List.getLast?_eq_getElem?, List.getLast?_eq_getElem?, List.length_zipWith,
    List.getElem?_zipWith, h, Nat.min_self]
  cases hb : bounds[bounds.length - 1]? with
  | none =>
    have hx : xs[bounds.length - 1]? = none := by
      rw [List.getElem?_eq_none_iff] at hb ⊢
      omega
    simp [hx]
  | some b => cases xs[bounds.length - 1]? <;> rfl

section Observe

variable [LE L] [DecidableLE L]

/-- A value is counted in the first bucket whose bound it does not exceed. -/
def observe : List L → List ℕ → L → List ℕ
  | bound :: bounds, n :: counts, v =>
    if v ≤ bound then (n + 1) :: counts else n :: observe bounds counts v
  | _, counts, _ => counts

@[simp] theorem length_observe (bounds : List L) (counts : List ℕ) (v : L) :
    (observe bounds counts v).length = counts.length := by
  induction bounds, counts, v using observe.induct with
  | case1 bound bounds n counts v h => simp [observe, h]
  | case2 bound bounds n counts v h ih => simp [observe, h, ih]
  | case3 bounds counts v h => rw [observe.eq_2 _ _ _ h]

theorem sum_observe {bounds : List L} {counts : List ℕ} (h : counts.length = bounds.length)
    (v : L) :
    (observe bounds counts v).sum = counts.sum + if ∃ b ∈ bounds, v ≤ b then 1 else 0 := by
  induction bounds, counts, v using observe.induct with
  | case1 bound bounds n counts v hv =>
    rw [observe, if_pos hv, if_pos ⟨bound, List.mem_cons_self, hv⟩]
    simp only [List.sum_cons]
    omega
  | case2 bound bounds n counts v hv ih =>
    have hiff : (∃ b ∈ bound :: bounds, v ≤ b) ↔ ∃ b ∈ bounds, v ≤ b := by simp [hv]
    rw [observe, if_neg hv, List.sum_cons, ih (by simpa using h), List.sum_cons]
    simp only [hiff]
    omega
  | case3 bounds counts v hcases =>
    cases bounds with
    | nil => simp [observe]
    | cons bound bounds =>
      cases counts with
      | nil => simp at h
      | cons n counts => exact absurd rfl (hcases bound bounds n counts rfl)

end Observe

section Merge

variable [DecidableEq L]

/-- One more bucket: it is added to the bucket with its bound, if there is one. -/
def add : List (Bucket L) → Bucket L → List (Bucket L)
  | [], b => [b]
  | entry :: acc, b =>
    if entry.upperBound = b.upperBound then
      { entry with cumulativeCount := entry.cumulativeCount + b.cumulativeCount } :: acc
    else entry :: add acc b

/-- Buckets are added up one after the other. -/
def merge (acc bs : List (Bucket L)) : List (Bucket L) := bs.foldl add acc

/-- Counts do not get smaller. -/
theorem lt_of_add {acc : List (Bucket L)} {b : Bucket L} {n : ℕ}
    (h : ∀ e ∈ add acc b, e.cumulativeCount < n) : ∀ e ∈ acc, e.cumulativeCount < n := by
  induction acc with
  | nil => simp
  | cons entry acc ih =>
    rw [add] at h
    rw [List.forall_mem_cons]
    split_ifs at h
    · obtain ⟨hentry, hacc⟩ := List.forall_mem_cons.mp h
      exact ⟨(Nat.le_add_right _ _).trans_lt hentry, hacc⟩
    · obtain ⟨hentry, hacc⟩ := List.forall_mem_cons.mp h
      exact ⟨hentry, ih hacc⟩

theorem lt_of_merge {acc bs : List (Bucket L)} {n : ℕ}
    (h : ∀ e ∈ merge acc bs, e.cumulativeCount < n) : ∀ e ∈ acc, e.cumulativeCount < n := by
  induction bs generalizing acc with
  | nil => exact h
  | cons b bs ih => exact lt_of_add (ih h)

theorem add_append {acc : List (Bucket L)} {b : Bucket L}
    (h : b.upperBound ∉ acc.map Bucket.upperBound) (rest : List (Bucket L)) :
    add (acc ++ rest) b = acc ++ add rest b := by
  induction acc with
  | nil => rfl
  | cons entry acc ih =>
    rw [List.map_cons, List.mem_cons, not_or] at h
    rw [List.cons_append, add, if_neg (Ne.symm h.1), ih h.2, List.cons_append]

omit [DecidableEq L] in
private theorem new_append {acc : List (Bucket L)} {bounds : List L} {b : L} (n : ℕ)
    (hb : b ∉ bounds) (hnew : ∀ b' ∈ bounds, b' ∉ acc.map Bucket.upperBound) :
    ∀ b' ∈ bounds, b' ∉ (acc ++ [Bucket.mk b n]).map Bucket.upperBound := by
  intro b' hb' hmem
  rw [List.map_append, List.mem_append] at hmem
  rcases hmem with hold | hlast
  · exact hnew b' hb' hold
  · obtain rfl : b' = b := by simpa using hlast
    exact hb hb'

/-- New bounds are put at the end. -/
theorem merge_zipWith_of_disjoint {acc : List (Bucket L)} {bounds : List L} {ys : List ℕ}
    (hnodup : bounds.Nodup) (hnew : ∀ b ∈ bounds, b ∉ acc.map Bucket.upperBound) :
    merge acc (List.zipWith Bucket.mk bounds ys) = acc ++ List.zipWith Bucket.mk bounds ys := by
  induction bounds generalizing acc ys with
  | nil => simp [merge]
  | cons b bounds ih =>
    cases ys with
    | nil => simp [merge]
    | cons y ys =>
      obtain ⟨hb, hnodup⟩ := List.nodup_cons.mp hnodup
      obtain ⟨hfirst, hrest⟩ := List.forall_mem_cons.mp hnew
      have hadd : add acc ⟨b, y⟩ = acc ++ [⟨b, y⟩] := by
        simpa [add] using add_append (b := ⟨b, y⟩) hfirst []
      have hnext : merge (acc ++ [⟨b, y⟩]) (List.zipWith Bucket.mk bounds ys) =
          acc ++ [⟨b, y⟩] ++ List.zipWith Bucket.mk bounds ys :=
        ih hnodup (new_append y hb hrest)
      rw [List.zipWith_cons_cons, merge, List.foldl_cons, hadd]
      rw [merge] at hnext
      rw [hnext, List.append_assoc]
      rfl

/-- Readings over the same bounds are added bucket by bucket. -/
theorem merge_zipWith {acc : List (Bucket L)} {bounds : List L} {xs ys : List ℕ}
    (hnodup : bounds.Nodup) (hxs : xs.length = bounds.length) (hys : ys.length = bounds.length)
    (hnew : ∀ b ∈ bounds, b ∉ acc.map Bucket.upperBound) :
    merge (acc ++ List.zipWith Bucket.mk bounds xs) (List.zipWith Bucket.mk bounds ys) =
      acc ++ List.zipWith Bucket.mk bounds (List.zipWith (· + ·) xs ys) := by
  induction bounds generalizing acc xs ys with
  | nil => simp [merge]
  | cons b bounds ih =>
    obtain ⟨x, xs, rfl⟩ := List.exists_cons_of_length_eq_add_one hxs
    obtain ⟨y, ys, rfl⟩ := List.exists_cons_of_length_eq_add_one hys
    obtain ⟨hb, hnodup⟩ := List.nodup_cons.mp hnodup
    obtain ⟨hfirst, hrest⟩ := List.forall_mem_cons.mp hnew
    have hadd : add (acc ++ ⟨b, x⟩ :: List.zipWith Bucket.mk bounds xs) ⟨b, y⟩ =
        (acc ++ [⟨b, x + y⟩]) ++ List.zipWith Bucket.mk bounds xs := by
      rw [add_append (b := ⟨b, y⟩) hfirst]
      simp [add]
    have hnext : merge (acc ++ [⟨b, x + y⟩] ++ List.zipWith Bucket.mk bounds xs)
        (List.zipWith Bucket.mk bounds ys) = acc ++ [⟨b, x + y⟩] ++
          List.zipWith Bucket.mk bounds (List.zipWith (· + ·) xs ys) :=
      ih hnodup (by simpa using hxs) (by simpa using hys) (new_append (x + y) hb hrest)
    rw [List.zipWith_cons_cons, List.zipWith_cons_cons, merge, List.foldl_cons, hadd]
    rw [merge] at hnext
    rw [hnext, List.append_assoc]
    rfl

private theorem total_merge_zipWith {bounds : List L} (hnodup : bounds.Nodup) {xs : List ℕ}
    (hxs : xs.length = bounds.length) {readings : List (List ℕ)}
    (h : ∀ counts ∈ readings, counts.length = bounds.length) :
    total (merge (List.zipWith Bucket.mk bounds xs) (readings.flatMap (buckets bounds))) =
      xs.getLast?.getD 0 + (readings.map List.sum).sum := by
  induction readings generalizing xs with
  | nil => simp [merge, total_zipWith hxs]
  | cons counts readings ih =>
    obtain ⟨hcounts, hreadings⟩ := List.forall_mem_cons.mp h
    have hys : (cumulative 0 counts).length = bounds.length := by
      rw [length_cumulative, hcounts]
    have hsum : (List.zipWith (· + ·) xs (cumulative 0 counts)).getLast?.getD 0 =
        xs.getLast?.getD 0 + counts.sum := by
      have hlast := getLast?_cumulative 0 counts
      rw [Nat.zero_add] at hlast
      rw [← hlast, List.getLast?_eq_getElem?, List.getLast?_eq_getElem?,
        List.getLast?_eq_getElem?, List.getElem?_zipWith, List.length_zipWith, hxs, hys,
        Nat.min_self]
      cases hx : xs[bounds.length - 1]? with
      | none =>
        have hy : (cumulative 0 counts)[bounds.length - 1]? = none := by
          rw [List.getElem?_eq_none_iff] at hx ⊢
          omega
        simp [hy]
      | some x =>
        obtain ⟨y, hy⟩ : ∃ y, (cumulative 0 counts)[bounds.length - 1]? = some y := by
          obtain ⟨hlt, -⟩ := List.getElem?_eq_some_iff.mp hx
          exact ⟨_, List.getElem?_eq_getElem (by omega)⟩
        simp [hy]
    have hmerge : merge (List.zipWith Bucket.mk bounds xs)
        (List.zipWith Bucket.mk bounds (cumulative 0 counts)) =
          List.zipWith Bucket.mk bounds (List.zipWith (· + ·) xs (cumulative 0 counts)) := by
      rw [← List.nil_append (List.zipWith Bucket.mk bounds xs),
        merge_zipWith hnodup hxs hys (by simp), List.nil_append]
    rw [List.flatMap_cons, merge, List.foldl_append]
    change total (merge (merge _ (List.zipWith Bucket.mk bounds (cumulative 0 counts))) _) = _
    rw [hmerge, ih (by rw [List.length_zipWith, hxs, hys, Nat.min_self]) hreadings, hsum,
      List.map_cons, List.sum_cons, Nat.add_assoc]

/-- **Added up readings.** The last bucket has the sum of all counts. -/
theorem total_merge {bounds : List L} (hnodup : bounds.Nodup) {readings : List (List ℕ)}
    (h : ∀ counts ∈ readings, counts.length = bounds.length) :
    total (merge [] (readings.flatMap (buckets bounds))) = (readings.map List.sum).sum := by
  cases readings with
  | nil => rfl
  | cons counts readings =>
    obtain ⟨hcounts, hreadings⟩ := List.forall_mem_cons.mp h
    have hys : (cumulative 0 counts).length = bounds.length := by
      rw [length_cumulative, hcounts]
    have hfirst : merge [] (List.zipWith Bucket.mk bounds (cumulative 0 counts)) =
        [] ++ List.zipWith Bucket.mk bounds (cumulative 0 counts) :=
      merge_zipWith_of_disjoint hnodup (by simp)
    have hlast := getLast?_cumulative 0 counts
    rw [Nat.zero_add] at hlast
    rw [List.flatMap_cons, merge, List.foldl_append]
    change total (merge (merge [] (List.zipWith Bucket.mk bounds (cumulative 0 counts))) _) = _
    rw [hfirst, List.nil_append, total_merge_zipWith hnodup hys hreadings, hlast, List.map_cons,
      List.sum_cons]

end Merge

end Histogram
