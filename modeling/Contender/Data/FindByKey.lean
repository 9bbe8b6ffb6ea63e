import Mathlib.Data.List.Nodup

/-!
# Finding an element by its key

A list of records in which each is looked up by a key of its own. Where no two have the same key,
what is found does not depend on the order of the list.
-/

namespace List

variable {α κ : Type*} [DecidableEq κ] {key : α → κ} {l : List α} {a : α} {k : κ}

theorem find?_key_eq_none_iff : l.find? (fun b => key b = k) = none ↔ k ∉ l.map key := by
  rw [find?_eq_none, mem_map]
  constructor
  · rintro h ⟨b, hb, hkey⟩
    exact h b hb (decide_eq_true hkey)
  · intro h b hb hkey
    exact h ⟨b, hb, of_decide_eq_true hkey⟩

theorem mem_of_find?_key (h : l.find? (fun b => key b = k) = some a) : a ∈ l ∧ key a = k :=
  ⟨mem_of_find?_eq_some h, by simpa using find?_some h⟩

/-- An element is found by its key if no other element of the list has that key. -/
theorem find?_key_of_unique (h : a ∈ l) (hunique : ∀ b ∈ l, key b = key a → b = a) :
    l.find? (fun b => key b = key a) = some a := by
  cases hfind : l.find? fun b => key b = key a with
  | none => exact (find?_key_eq_none_iff.mp hfind (mem_map_of_mem h)).elim
  | some b =>
    obtain ⟨hb, hkey⟩ := mem_of_find?_key hfind
    rw [hunique b hb hkey]

theorem find?_key_eq_some_iff (hnodup : (l.map key).Nodup) :
    l.find? (fun b => key b = k) = some a ↔ a ∈ l ∧ key a = k := by
  constructor
  · exact mem_of_find?_key
  · rintro ⟨ha, rfl⟩
    exact find?_key_of_unique ha fun b hb hkey => inj_on_of_nodup_map hnodup hb ha hkey

theorem find?_key_concat_self (h : key a ∉ l.map key) :
    (l ++ [a]).find? (fun b => key b = key a) = some a := by
  rw [find?_append, find?_key_eq_none_iff.mpr h, Option.none_or]
  exact find?_cons_of_pos (decide_eq_true rfl)

theorem find?_key_concat_of_ne (l : List α) (h : k ≠ key a) :
    (l ++ [a]).find? (fun b => key b = k) = l.find? fun b => key b = k := by
  rw [find?_append, find?_singleton, if_neg (by simpa using h.symm), Option.or_none]

theorem find?_key_filter_self (l : List α) (k : κ) :
    (l.filter fun b => key b ≠ k).find? (fun b => key b = k) = none := by
  rw [find?_key_eq_none_iff, mem_map]
  rintro ⟨b, hb, hkey⟩
  exact of_decide_eq_true (mem_filter.mp hb).2 hkey

/-- Leaving out another key changes nothing. -/
theorem find?_key_filter_of_ne (l : List α) {j : κ} (h : j ≠ k) :
    (l.filter fun b => key b ≠ k).find? (fun b => key b = j) = l.find? fun b => key b = j := by
  rw [find?_filter]
  refine congrArg (find? · l) (funext fun b => ?_)
  by_cases hkey : key b = j
  · simp [hkey, h]
  · simp [hkey]

end List
