import Mathlib.Data.List.Basic

/-!
# Lists between separators

The last place of an element in a list, the parts of a list between the occurrences of a
separator, and the joining of lists with a separator that has padding behind it.
-/

namespace List

variable {α : Type*} [DecidableEq α] {a : α} {l m : List α} {i : ℕ}

/-- The place of the last occurrence. -/
def lastIdxOf? (a : α) : List α → Option ℕ
  | [] => none
  | b :: l =>
    match lastIdxOf? a l with
    | some i => some (i + 1)
    | none => if b = a then some 0 else none

theorem lastIdxOf?_eq_none : lastIdxOf? a l = none ↔ a ∉ l := by
  induction l with
  | nil => simp [lastIdxOf?]
  | cons b l ih =>
    rw [lastIdxOf?, mem_cons, not_or, ← ih]
    cases lastIdxOf? a l with
    | none => simp [eq_comm]
    | some i => simp

theorem lastIdxOf?_lt (h : lastIdxOf? a l = some i) : i < l.length := by
  induction l generalizing i with
  | nil => cases h
  | cons b l ih =>
    rw [lastIdxOf?] at h
    rw [length_cons]
    cases hrest : lastIdxOf? a l with
    | none =>
      rw [hrest] at h
      split_ifs at h
      obtain rfl := Option.some.inj h
      exact Nat.succ_pos _
    | some j =>
      rw [hrest] at h
      obtain rfl := Option.some.inj h
      exact Nat.succ_lt_succ (ih hrest)

/-- The last occurrence in the second part is the last one. -/
theorem lastIdxOf?_append_of_some (h : lastIdxOf? a m = some i) :
    lastIdxOf? a (l ++ m) = some (l.length + i) := by
  induction l with
  | nil => rw [nil_append, h, length_nil, Nat.zero_add]
  | cons b l ih => rw [cons_append, lastIdxOf?, ih, length_cons, Nat.succ_add_eq_add_succ]; rfl

/-- Without an occurrence in the second part that of the first one is the last. -/
theorem lastIdxOf?_append_of_notMem (h : a ∉ m) : lastIdxOf? a (l ++ m) = lastIdxOf? a l := by
  induction l with
  | nil => rw [nil_append, lastIdxOf?_eq_none.mpr h, lastIdxOf?]
  | cons b l ih => rw [cons_append, lastIdxOf?, lastIdxOf?, ih]

/-- The first occurrence comes after what has none. -/
theorem idxOf?_append_cons (h : a ∉ l) : (l ++ a :: m).idxOf? a = some l.length := by
  induction l with
  | nil => rw [nil_append, idxOf?_cons, if_pos (beq_self_eq_true a), length_nil]
  | cons b l ih =>
    rw [mem_cons, not_or] at h
    rw [cons_append, idxOf?_cons, if_neg fun hb => h.1 (eq_of_beq hb).symm, ih h.2, length_cons]
    rfl

/-- No part has the separator in it. -/
theorem notMem_of_mem_splitOn (h : m ∈ l.splitOn a) : a ∉ m := by
  induction l generalizing m with
  | nil =>
    obtain rfl := mem_singleton.mp h
    exact not_mem_nil
  | cons b l ih =>
    rw [splitOn_cons_eq_if_modifyHead] at h
    split_ifs at h with hb
    · rcases mem_cons.mp h with rfl | h
      · exact not_mem_nil
      · exact ih h
    · cases hparts : l.splitOn a with
      | nil =>
        rw [hparts] at h
        cases h
      | cons first rest =>
        rw [hparts, modifyHead_cons] at h
        rcases mem_cons.mp h with rfl | h
        · have hfirst : a ∉ first := ih (hparts ▸ mem_cons_self)
          rw [mem_cons, not_or]
          exact ⟨fun hab => hb (beq_iff_eq.mpr hab.symm), hfirst⟩
        · exact ih (hparts ▸ mem_cons_of_mem _ h)

omit [DecidableEq α] in
theorem subset_intercalate_cons (sep l : List α) (ls : List (List α)) :
    l ⊆ sep.intercalate (l :: ls) := by
  cases ls with
  | nil => rw [intercalate_singleton]; exact Subset.refl l
  | cons m ls =>
    rw [intercalate_cons_cons, append_assoc]
    exact subset_append_left _ _

omit [DecidableEq α] in
theorem intercalate_append_cons (sep pad l : List α) (ls : List (List α)) :
    sep.intercalate ((pad ++ l) :: ls) = pad ++ sep.intercalate (l :: ls) := by
  induction pad with
  | nil => rfl
  | cons b pad ih => rw [cons_append, intercalate_cons_cons_left, ih, cons_append]

omit [DecidableEq α] in
/-- Padding behind the separator is padding in front of all parts but the first. -/
theorem intercalate_cons_padding (a : α) (pad l : List α) (ls : List (List α)) :
    (a :: pad).intercalate (l :: ls) = [a].intercalate (l :: ls.map (pad ++ ·)) := by
  induction ls generalizing l with
  | nil => rw [map_nil, intercalate_singleton, intercalate_singleton]
  | cons m ls ih =>
    calc (a :: pad).intercalate (l :: m :: ls)
        = l ++ a :: pad ++ (a :: pad).intercalate (m :: ls) := intercalate_cons_cons
      _ = l ++ [a] ++ (pad ++ [a].intercalate (m :: ls.map (pad ++ ·))) := by
        rw [ih, append_assoc, append_assoc, cons_append, singleton_append]
      _ = [a].intercalate (l :: (m :: ls).map (pad ++ ·)) := by
        rw [← intercalate_append_cons, map_cons, intercalate_cons_cons]

/-- Splitting what has been joined gives the parts back, with the padding in front. -/
theorem splitOn_intercalate_cons {pad : List α} {ls : List (List α)} (hpad : a ∉ pad)
    (h : ∀ m ∈ l :: ls, a ∉ m) :
    ((a :: pad).intercalate (l :: ls)).splitOn a = l :: ls.map (pad ++ ·) := by
  obtain ⟨hl, hls⟩ := forall_mem_cons.mp h
  rw [intercalate_cons_padding]
  refine splitOn_intercalate a (forall_mem_cons.mpr ⟨hl, forall_mem_map.mpr fun m hm => ?_⟩)
    (cons_ne_nil _ _)
  rw [mem_append, not_or]
  exact ⟨hpad, hls m hm⟩

end List
