import Mathlib.Data.List.Basic

/-!
# The places of a list

What a loop has done at each element depends on the elements it has gone through before. A property
of such a place is one of the list before it and of the element.
-/

namespace Contender

variable {α : Type*} {P : List α → α → Prop} {l : List α} {a : α}

/-- A place in a list with one more element is the last one, or a place before it. -/
theorem concat_eq_append_cons_iff {last : α} {done rest : List α} :
    l ++ [last] = done ++ a :: rest ↔
      (done = l ∧ a = last ∧ rest = []) ∨
        ∃ front, l = done ++ a :: front ∧ rest = front ++ [last] := by
  constructor
  · intro h
    rcases List.eq_nil_or_concat rest with rfl | ⟨front, b, rfl⟩
    · obtain ⟨hl, hlast⟩ := List.append_inj' h rfl
      exact .inl ⟨hl.symm, (List.singleton_injective hlast).symm, rfl⟩
    · rw [List.concat_eq_append, ← List.cons_append, ← List.append_assoc] at h
      obtain ⟨hl, hlast⟩ := List.append_inj' h rfl
      exact .inr ⟨front, hl, by rw [List.concat_eq_append, List.singleton_injective hlast]⟩
  · rintro (⟨rfl, rfl, rfl⟩ | ⟨front, rfl, rfl⟩)
    · rfl
    · rw [List.append_assoc, List.cons_append]

/-- The last element with a value. -/
theorem exists_last_of_mem_map {β : Type*} {f : α → β} {b : β} (h : b ∈ l.map f) :
    ∃ done a rest, l = done ++ a :: rest ∧ f a = b ∧ ∀ a' ∈ rest, f a' ≠ b := by
  induction l with
  | nil => exact absurd h List.not_mem_nil
  | cons a l ih =>
    by_cases hrest : b ∈ l.map f
    · obtain ⟨done, a', rest, rfl, heq, hlast⟩ := ih hrest
      exact ⟨a :: done, a', rest, rfl, heq, hlast⟩
    · have ha : f a = b := ((List.mem_cons.mp h).resolve_right hrest).symm
      exact ⟨[], a, l, rfl, ha, fun a' ha' heq => hrest (heq ▸ List.mem_map_of_mem ha')⟩

/-- `P` holds of each element, with the elements before it. -/
def ForallPlaces (P : List α → α → Prop) (l : List α) : Prop :=
  ∀ done a rest, l = done ++ a :: rest → P done a

namespace ForallPlaces

theorem nil : ForallPlaces P [] := by
  intro done a rest h
  exact absurd h.symm (List.append_ne_nil_of_right_ne_nil done (List.cons_ne_nil a rest))

/-- One more element is one more place. -/
theorem concat (h : ForallPlaces P l) (ha : P l a) : ForallPlaces P (l ++ [a]) := by
  intro done b rest hsplit
  rcases concat_eq_append_cons_iff.mp hsplit with ⟨rfl, rfl, -⟩ | ⟨front, hl, -⟩
  · exact ha
  · exact h done b front hl

end ForallPlaces

end Contender
