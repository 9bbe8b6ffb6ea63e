import Mathlib.Algebra.BigOperators.Group.List.Basic
import Mathlib.Algebra.BigOperators.Fin
import Mathlib.Data.List.Infix

/-!
# Raising the zeros of a list

A list of numbers is leveled by raising some of its zeros to one, each at the
expense of the entry that is the largest at that moment. Only the first `n`
entries are charged, and an entry is never charged below one. So the leveling
moves units around without changing their sum, and it stops for good once the
first `n` entries are at most one.
-/

namespace List

/-! ### The largest element -/

/-- The last element whose key is not exceeded. -/
def maxByKey {α : Type*} (key : α → Nat) : List α → Option α
  | [] => none
  | a :: l => some (l.foldl (fun best b => if key best ≤ key b then b else best) a)

theorem foldl_max_spec {α : Type*} (key : α → Nat) (l : List α) (a : α) :
    let best := l.foldl (fun best b => if key best ≤ key b then b else best) a
    best ∈ a :: l ∧ ∀ b ∈ a :: l, key b ≤ key best := by
  induction l generalizing a with
  | nil => simp
  | cons b l ih =>
    rw [foldl_cons]
    split_ifs with hle
    · obtain ⟨hmem, hmax⟩ := ih b
      refine ⟨mem_cons_of_mem a hmem, fun c hc => ?_⟩
      rcases mem_cons.mp hc with rfl | hc
      · exact hle.trans (hmax b mem_cons_self)
      · exact hmax c hc
    · obtain ⟨hmem, hmax⟩ := ih a
      refine ⟨?_, fun c hc => ?_⟩
      · rcases mem_cons.mp hmem with h | h
        · rw [h]
          exact mem_cons_self
        · exact mem_cons_of_mem a (mem_cons_of_mem b h)
      · rcases mem_cons.mp hc with rfl | hc
        · exact hmax c mem_cons_self
        · rcases mem_cons.mp hc with rfl | hc
          · exact (Nat.le_of_not_le hle).trans (hmax a mem_cons_self)
          · exact hmax c (mem_cons_of_mem a hc)

theorem maxByKey_eq_some {α : Type*} {key : α → Nat} {l : List α} {a : α}
    (h : l.maxByKey key = some a) : a ∈ l ∧ ∀ b ∈ l, key b ≤ key a := by
  cases l with
  | nil => cases h
  | cons b l =>
    obtain rfl := Option.some.inj h
    exact foldl_max_spec key l b

theorem maxByKey_eq_none {α : Type*} {key : α → Nat} {l : List α} :
    l.maxByKey key = none ↔ l = [] := by
  cases l <;> simp [maxByKey]

/-! ### One entry is raised -/

/-- Raise the entry at `i` to one and charge the largest of the first `n` entries,
unless that one would be left without anything. -/
def raiseAt (n : Nat) (l : List Nat) (i : Nat) : List Nat :=
  match (l.zipIdx.take n).maxByKey Prod.fst with
  | some (largest, k) => if 1 < largest then (l.set k (largest - 1)).set i 1 else l
  | none => l

theorem mem_take_zipIdx {l : List Nat} {n a k : Nat} :
    (a, k) ∈ l.zipIdx.take n ↔ k < n ∧ l[k]? = some a := by
  rw [mem_take_iff_getElem]
  constructor
  · rintro ⟨j, hj, heq⟩
    rw [getElem_zipIdx, Nat.zero_add] at heq
    obtain ⟨rfl, rfl⟩ := Prod.mk.inj heq
    exact ⟨by omega, getElem?_eq_getElem _⟩
  · rintro ⟨hk, hget⟩
    obtain ⟨hlt, rfl⟩ := getElem?_eq_some_iff.mp hget
    refine ⟨k, by simpa using ⟨hk, hlt⟩, ?_⟩
    rw [getElem_zipIdx, Nat.zero_add]

/-- Either the first `n` entries are at most one and nothing changes, or an entry
above one pays. -/
theorem raiseAt_cases (n : Nat) (l : List Nat) (i : Nat) :
    ((∀ k < n, l.getD k 0 ≤ 1) ∧ l.raiseAt n i = l) ∨
      ∃ k < n, 1 < l.getD k 0 ∧ l.raiseAt n i = (l.set k (l.getD k 0 - 1)).set i 1 := by
  unfold raiseAt
  cases hmax : (l.zipIdx.take n).maxByKey Prod.fst with
  | none =>
    refine Or.inl ⟨fun k hk => ?_, rfl⟩
    have hnil := maxByKey_eq_none.mp hmax
    cases hget : l[k]? with
    | none => simp [getD_eq_getElem?_getD, hget]
    | some a =>
      have hmem := mem_take_zipIdx.mpr ⟨hk, hget⟩
      rw [hnil] at hmem
      cases hmem
  | some best =>
    obtain ⟨largest, k⟩ := best
    obtain ⟨hmem, hle⟩ := maxByKey_eq_some hmax
    obtain ⟨hk, hget⟩ := mem_take_zipIdx.mp hmem
    have hlargest : l.getD k 0 = largest := by simp [getD_eq_getElem?_getD, hget]
    dsimp only
    split_ifs with hone
    · exact Or.inr ⟨k, hk, hlargest ▸ hone, by rw [hlargest]⟩
    · refine Or.inl ⟨fun j hj => ?_, rfl⟩
      cases hjget : l[j]? with
      | none => simp [getD_eq_getElem?_getD, hjget]
      | some a =>
        have := hle (a, j) (mem_take_zipIdx.mpr ⟨hj, hjget⟩)
        simp only [getD_eq_getElem?_getD, hjget, Option.getD_some]
        omega

theorem getD_set_ne {l : List Nat} {i j v : Nat} (h : i ≠ j) :
    (l.set i v).getD j 0 = l.getD j 0 := by
  simp [getD_eq_getElem?_getD, getElem?_set_ne h]

theorem getD_set_self {l : List Nat} {i v : Nat} (h : i < l.length) :
    (l.set i v).getD i 0 = v := by
  simp [getD_eq_getElem?_getD, getElem?_set_self h]

theorem sum_set_add {l : List Nat} {i : Nat} (h : i < l.length) (v : Nat) :
    (l.set i v).sum + l.getD i 0 = l.sum + v := by
  induction l generalizing i with
  | nil => cases h
  | cons a l ih =>
    cases i with
    | zero =>
      simp only [set_cons_zero, sum_cons, getD_cons_zero]
      omega
    | succ i =>
      have hrest := ih (Nat.lt_of_succ_lt_succ h)
      simp only [set_cons_succ, sum_cons, getD_cons_succ]
      omega

theorem lt_length_of_getD_ne_zero {l : List Nat} {i : Nat} (h : l.getD i 0 ≠ 0) :
    i < l.length := by
  by_contra hle
  exact h (by simp [getD_eq_getElem?_getD, getElem?_eq_none (Nat.le_of_not_lt hle)])

/-! ### All entries of a list of zeros are raised -/

/-- Raise the entries at the given positions one after another. -/
def raiseAll (n : Nat) (l : List Nat) (zeros : List Nat) : List Nat := zeros.foldl (raiseAt n) l

/-- What raising zeros comes to. Those raised come first; when some are not, the
first `n` entries have nothing left to give. -/
structure Leveled (n : Nat) (zeros l l' : List Nat) : Prop where
  length : l'.length = l.length
  sum : l'.sum = l.sum
  kept : ∀ i, 0 < l.getD i 0 → 0 < l'.getD i 0
  untouched : ∀ i, i ∉ zeros → l.getD i 0 = 0 → l'.getD i 0 = 0
  beyond : ∀ i, n ≤ i → i ∉ zeros → l'.getD i 0 = l.getD i 0
  raised : ∃ done pending, zeros = done ++ pending ∧ (∀ i ∈ done, 0 < l'.getD i 0) ∧
    (∀ i ∈ done, n ≤ i → l'.getD i 0 = 1) ∧ (∀ i ∈ pending, l'.getD i 0 = 0) ∧
    (pending ≠ [] → ∀ k < n, l'.getD k 0 ≤ 1)

theorem raiseAll_of_le_one {n : Nat} {l : List Nat} (h : ∀ k < n, l.getD k 0 ≤ 1)
    (zeros : List Nat) : l.raiseAll n zeros = l := by
  induction zeros with
  | nil => rfl
  | cons i zeros ih =>
    have hfirst : l.raiseAt n i = l := by
      rcases raiseAt_cases n l i with ⟨-, heq⟩ | ⟨k, hk, hlt, -⟩
      · exact heq
      · have := h k hk
        omega
    change (l.raiseAt n i).raiseAll n zeros = l
    rw [hfirst, ih]

/-- A unit has moved from `k` to `i`, which had nothing. -/
structure Moved (k i : Nat) (l l' : List Nat) : Prop where
  length : l'.length = l.length
  sum : l'.sum = l.sum
  charged : l'.getD k 0 = l.getD k 0 - 1
  raised : l'.getD i 0 = 1
  others : ∀ j, j ≠ k → j ≠ i → l'.getD j 0 = l.getD j 0

theorem moved_set_set {l : List Nat} {k i : Nat} (hlt : 1 < l.getD k 0) (hi : i < l.length)
    (hzero : l.getD i 0 = 0) : Moved k i l ((l.set k (l.getD k 0 - 1)).set i 1) := by
  have hki : k ≠ i := by
    rintro rfl
    omega
  have hklt : k < l.length := lt_length_of_getD_ne_zero (by omega)
  have hilt : i < (l.set k (l.getD k 0 - 1)).length := by rwa [length_set]
  refine ⟨by simp, ?_, ?_, getD_set_self hilt, fun j hjk hji => ?_⟩
  · have hpaid := sum_set_add hklt (l.getD k 0 - 1)
    have hgiven := sum_set_add hilt 1
    rw [getD_set_ne hki, hzero] at hgiven
    omega
  · rw [getD_set_ne (Ne.symm hki), getD_set_self hklt]
  · rw [getD_set_ne (Ne.symm hji), getD_set_ne (Ne.symm hjk)]

/-- A move of the first `n` entries, and what is leveled after it. -/
theorem Leveled.cons {n k i : Nat} {zeros l l' l'' : List Nat} (hmoved : Moved k i l l')
    (hk : k < n) (hlt : 1 < l.getD k 0) (hfresh : i ∉ zeros) (hzero : l.getD i 0 = 0)
    (hrest : Leveled n zeros l' l'') : Leveled n (i :: zeros) l l'' := by
  have hcharged := hmoved.charged
  have hraised := hmoved.raised
  obtain ⟨done, pending, rfl, hdone, hbeyond, hpending, hstuck⟩ := hrest.raised
  refine ⟨hrest.length.trans hmoved.length, hrest.sum.trans hmoved.sum, fun j hj => ?_,
    fun j hj hjz => ?_, fun j hn hj => ?_, i :: done, pending, rfl, ?_, ?_, hpending, hstuck⟩
  · apply hrest.kept
    by_cases hjk : j = k
    · subst hjk
      omega
    · by_cases hji : j = i
      · subst hji
        omega
      · rwa [hmoved.others j hjk hji]
  · obtain ⟨hji, hj⟩ := not_or.mp (mt mem_cons.mpr hj)
    have hjk : j ≠ k := by
      rintro rfl
      omega
    exact hrest.untouched j hj (by rw [hmoved.others j hjk hji, hjz])
  · obtain ⟨hji, hj⟩ := not_or.mp (mt mem_cons.mpr hj)
    rw [hrest.beyond j hn hj, hmoved.others j (by omega) hji]
  · intro j hj
    rcases mem_cons.mp hj with rfl | hj
    · exact hrest.kept j (by omega)
    · exact hdone j hj
  · intro j hj hn
    rcases mem_cons.mp hj with rfl | hj
    · rw [hrest.beyond j hn hfresh, hraised]
    · exact hbeyond j hj hn

/-- **Leveling.** -/
theorem leveled_raiseAll {n : Nat} {l zeros : List Nat} (hnodup : zeros.Nodup)
    (hzeros : ∀ i ∈ zeros, i < l.length ∧ l.getD i 0 = 0) :
    Leveled n zeros l (l.raiseAll n zeros) := by
  induction zeros generalizing l with
  | nil =>
    exact ⟨rfl, rfl, fun _ h => h, fun _ _ h => h, fun _ _ _ => rfl, [], [], rfl, by simp, by simp,
      by simp, by simp⟩
  | cons i zeros ih =>
    obtain ⟨hfresh, hnodup⟩ := nodup_cons.mp hnodup
    obtain ⟨hi, hzero⟩ := hzeros i mem_cons_self
    rcases raiseAt_cases n l i with ⟨hle, -⟩ | ⟨k, hk, hlt, heq⟩
    · -- nothing can be charged, now or later
      rw [raiseAll_of_le_one hle]
      exact ⟨rfl, rfl, fun _ h => h, fun _ _ h => h, fun _ _ _ => rfl, [], i :: zeros, rfl,
        by simp, by simp, fun j hj => (hzeros j hj).2, fun _ => hle⟩
    · have hmoved := moved_set_set hlt hi hzero
      rw [← heq] at hmoved
      refine Leveled.cons hmoved hk hlt hfresh hzero (ih hnodup fun j hj => ?_)
      obtain ⟨hjlt, hjzero⟩ := hzeros j (mem_cons_of_mem i hj)
      have hjk : j ≠ k := by
        rintro rfl
        omega
      have hji : j ≠ i := fun h => hfresh (h ▸ hj)
      exact ⟨hmoved.length ▸ hjlt, by rw [hmoved.others j hjk hji, hjzero]⟩

/-! ### Sums and marked entries -/

section Marked

variable {α : Type*} {p : α → Bool} {marks : List α} {l : List Nat}

/-- Marked entries that are positive count for one each. -/
theorem countP_le_sum (hlength : marks.length = l.length)
    (h : ∀ i a, marks[i]? = some a → p a → 0 < l.getD i 0) : marks.countP p ≤ l.sum := by
  induction marks generalizing l with
  | nil => simp
  | cons a marks ih =>
    obtain ⟨b, l, rfl⟩ := exists_cons_of_length_eq_add_one hlength.symm
    have hrest := ih (Nat.succ.inj hlength) fun i c hc => by simpa using h (i + 1) c (by simpa)
    have hfirst := h 0 a rfl
    rw [countP_cons, sum_cons]
    split_ifs with ha
    · have := hfirst ha
      rw [getD_cons_zero] at this
      omega
    · omega

/-- A sum whose unmarked entries are zero and whose marked ones are at most one. -/
theorem sum_le_countP (hlength : marks.length = l.length)
    (h : ∀ i a, marks[i]? = some a → l.getD i 0 ≤ if p a then 1 else 0) :
    l.sum ≤ marks.countP p := by
  induction marks generalizing l with
  | nil =>
    obtain rfl := length_eq_zero_iff.mp hlength.symm
    simp
  | cons a marks ih =>
    obtain ⟨b, l, rfl⟩ := exists_cons_of_length_eq_add_one hlength.symm
    have hrest := ih (Nat.succ.inj hlength) fun i c hc => by simpa using h (i + 1) c (by simpa)
    have hfirst := h 0 a rfl
    rw [getD_cons_zero] at hfirst
    rw [countP_cons, sum_cons]
    omega

/-- A marked entry that is zero is missing from such a sum. -/
theorem sum_lt_countP (hlength : marks.length = l.length)
    (h : ∀ i a, marks[i]? = some a → l.getD i 0 ≤ if p a then 1 else 0) {i : Nat} {a : α}
    (hi : marks[i]? = some a) (ha : p a) (hzero : l.getD i 0 = 0) : l.sum < marks.countP p := by
  obtain ⟨hlt, -⟩ := getElem?_eq_some_iff.mp hi
  -- raising the entry to one keeps the bound
  have hlength' : marks.length = (l.set i 1).length := by rwa [length_set]
  have hraised := sum_le_countP (p := p) hlength' fun j b hb => by
    by_cases hij : i = j
    · subst hij
      obtain rfl : a = b := Option.some.inj (hi.symm.trans hb)
      rw [getD_set_self (hlength ▸ hlt), if_pos ha]
    · rw [getD_set_ne hij]
      exact h j b hb
  have hsum := sum_set_add (l := l) (hlength ▸ hlt) 1
  omega

end Marked

end List
