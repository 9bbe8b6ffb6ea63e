import Mathlib.Data.List.DropRight

/-!
# Trimming both ends of a list

What is left after dropping the elements with a property from both ends, and the decompositions
of a list that are its trimming.
-/

namespace List

variable {α : Type*} {p : α → Bool} {l m : List α}

/-- Drop the elements with a property from both ends. -/
def trimBoth (p : α → Bool) (l : List α) : List α := (l.dropWhile p).rdropWhile p

/-- Neither end of the list has the property. -/
structure Trimmed (p : α → Bool) (l : List α) : Prop where
  head : ∀ a, l.head? = some a → p a = false
  last : ∀ a, l.getLast? = some a → p a = false

theorem trimmed_of_forall (h : ∀ a ∈ l, p a = false) : Trimmed p l :=
  ⟨fun a ha => h a (mem_of_mem_head? ha), fun a ha => h a (mem_of_mem_getLast? ha)⟩

/-- The left end of one trimmed list and the right end of another. -/
theorem Trimmed.append {k : List α} (hl : Trimmed p l) (hm : Trimmed p m) (hl₀ : l ≠ [])
    (hm₀ : m ≠ []) : Trimmed p (l ++ k ++ m) where
  head a ha := by
    rw [append_assoc, head?_append_of_ne_nil _ hl₀] at ha
    exact hl.head a ha
  last a ha := by
    rw [getLast?_append_of_ne_nil _ hm₀] at ha
    exact hm.last a ha

theorem Trimmed.dropWhile_eq (h : Trimmed p l) : l.dropWhile p = l := by
  cases l with
  | nil => rfl
  | cons a l => rw [dropWhile_cons, h.head a rfl, if_neg (by decide)]

theorem Trimmed.reverse (h : Trimmed p l) : Trimmed p l.reverse where
  head a ha := h.last a (by rwa [head?_reverse] at ha)
  last a ha := h.head a (by rwa [getLast?_reverse] at ha)

/-- Padding with elements that have the property is trimmed off again. -/
theorem trimBoth_append_append {lead trail : List α} (hl : Trimmed p l)
    (hlead : ∀ a ∈ lead, p a) (htrail : ∀ a ∈ trail, p a) :
    (lead ++ l ++ trail).trimBoth p = l := by
  rw [trimBoth, append_assoc, dropWhile_append_of_pos hlead]
  cases l with
  | nil =>
    rw [nil_append, dropWhile_eq_nil_iff.mpr htrail]
    rfl
  | cons a l =>
    have hdrop : (a :: l ++ trail).dropWhile p = a :: l ++ trail := by
      rw [cons_append, dropWhile_cons, hl.head a rfl, if_neg (by decide)]
    rw [hdrop, rdropWhile, reverse_append,
      dropWhile_append_of_pos fun b hb => htrail b (mem_reverse.mp hb), hl.reverse.dropWhile_eq,
      reverse_reverse]

/-- A list is its trimming with padding around it. -/
theorem exists_trimBoth_padding (p : α → Bool) (l : List α) :
    ∃ lead trail, l = lead ++ l.trimBoth p ++ trail ∧ (∀ a ∈ lead, p a) ∧ ∀ a ∈ trail, p a := by
  refine ⟨l.takeWhile p, (l.dropWhile p).rtakeWhile p, ?_, fun a ha => mem_takeWhile_imp ha,
    fun a ha => mem_rtakeWhile_imp ha⟩
  rw [trimBoth, append_assoc, rdropWhile_append_rtakeWhile, takeWhile_append_dropWhile]

theorem trimBoth_subset (p : α → Bool) (l : List α) : l.trimBoth p ⊆ l := by
  obtain ⟨lead, trail, hpad, -⟩ := exists_trimBoth_padding p l
  intro a ha
  rw [hpad]
  exact mem_append_left _ (mem_append_right _ ha)

/-- Nothing is left exactly when all elements have the property. -/
theorem trimBoth_eq_nil_iff : l.trimBoth p = [] ↔ ∀ a ∈ l, p a := by
  constructor
  · intro h a ha
    obtain ⟨lead, trail, hpad, hlead, htrail⟩ := exists_trimBoth_padding p l
    rw [h, append_nil] at hpad
    rw [hpad] at ha
    exact (mem_append.mp ha).elim (hlead a) (htrail a)
  · intro h
    have htrim : (l ++ [] ++ []).trimBoth p = [] :=
      trimBoth_append_append ⟨nofun, nofun⟩ h nofun
    rwa [append_nil, append_nil] at htrim

end List
