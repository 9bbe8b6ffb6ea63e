import Mathlib.Algebra.Order.Ring.Nat
import Mathlib.Algebra.Order.BigOperators.Group.List
import Contender.Data.AssocMap

/-!
# Tallies over maps

Values under keys are accumulated in a map: the value of a key is updated, or made from a
default when the key is new. The tally of a map is the sum of a measure of its values. An update
changes the tally by as much as it changes the measure of the one value.
-/

namespace AList

variable {κ ν : Type*}

/-- The sum of a measure over the values. -/
def tally (g : ν → ℕ) (m : AssocMap κ ν) : ℕ := (m.values.map g).sum

@[simp] theorem tally_empty (g : ν → ℕ) : tally g (∅ : AssocMap κ ν) = 0 := rfl

private theorem tally_eq (g : ν → ℕ) (m : AssocMap κ ν) :
    tally g m = (m.entries.map fun e => g e.2).sum := by
  rw [tally, values, List.map_map]
  rfl

theorem le_tally (g : ν → ℕ) {m : AssocMap κ ν} {v : ν} (h : v ∈ m.values) :
    g v ≤ m.tally g :=
  List.le_sum_of_mem (List.mem_map_of_mem h)

variable [DecidableEq κ]

/-- The value of a key, or the default when the key is new. -/
def lookupD (m : AssocMap κ ν) (k : κ) (default : ν) : ν := (m.lookup k).getD default

private theorem sum_kerase (g : ν → ℕ) (k : κ) (l : List (Sigma fun _ : κ => ν)) :
    ((List.kerase k l).map fun e => g e.2).sum + ((l.dlookup k).map g).getD 0 =
      (l.map fun e => g e.2).sum := by
  induction l with
  | nil => rfl
  | cons e l ih =>
    obtain ⟨i, v⟩ := e
    by_cases hki : k = i
    · subst hki
      have herased : List.kerase k (⟨k, v⟩ :: l) = l := List.kerase_cons_eq rfl
      rw [herased, List.dlookup_cons_eq, List.map_cons, List.sum_cons]
      simp [Nat.add_comm]
    · have herased : List.kerase k (⟨i, v⟩ :: l) = ⟨i, v⟩ :: List.kerase k l :=
        List.kerase_cons_ne hki
      have hrest : List.dlookup k (⟨i, v⟩ :: l) = List.dlookup k l :=
        List.dlookup_cons_ne l ⟨i, v⟩ hki
      rw [herased, hrest, List.map_cons, List.map_cons, List.sum_cons, List.sum_cons, ← ih]
      omega

/-- What an insertion adds is the new measure, and what it takes away is the old one. -/
theorem tally_insert (g : ν → ℕ) (m : AssocMap κ ν) (k : κ) (v : ν) :
    (m.insert k v).tally g + ((m.lookup k).map g).getD 0 = m.tally g + g v := by
  have hentries : (m.insert k v).entries = ⟨k, v⟩ :: List.kerase k m.entries := rfl
  rw [tally_eq, tally_eq, hentries, List.map_cons, List.sum_cons]
  have herased := sum_kerase g k m.entries
  change g v + _ + ((m.entries.dlookup k).map g).getD 0 = _
  omega

/-- The same with a default that measures nothing. -/
theorem tally_insert_lookupD (g : ν → ℕ) (m : AssocMap κ ν) (k : κ) (v : ν) {default : ν}
    (hdefault : g default = 0) :
    (m.insert k v).tally g + g (m.lookupD k default) = m.tally g + g v := by
  have hmeasure : g (m.lookupD k default) = ((m.lookup k).map g).getD 0 := by
    rw [lookupD]
    cases m.lookup k with
    | none => exact hdefault
    | some w => rfl
  rw [hmeasure]
  exact tally_insert g m k v

/-- Growing one value by as much as the measure says grows the tally by as much. -/
theorem tally_insert_add (g : ν → ℕ) (m : AssocMap κ ν) (k : κ) {v default : ν} {n : ℕ}
    (hdefault : g default = 0) (hv : g v = g (m.lookupD k default) + n) :
    (m.insert k v).tally g = m.tally g + n := by
  have hinsert := tally_insert_lookupD g m k v hdefault
  omega

theorem lookupD_le_tally (g : ν → ℕ) (m : AssocMap κ ν) (k : κ) {default : ν}
    (hdefault : g default = 0) : g (m.lookupD k default) ≤ m.tally g := by
  rw [lookupD]
  cases hlookup : m.lookup k with
  | none => simp [hdefault]
  | some v => exact le_tally g (mem_values.mpr ⟨k, hlookup⟩)

/-- A value is the default, or stored. -/
theorem lookupD_cases (m : AssocMap κ ν) (k : κ) (default : ν) :
    m.lookupD k default = default ∨ m.lookupD k default ∈ m.values := by
  rw [lookupD]
  cases hlookup : m.lookup k with
  | none => exact Or.inl rfl
  | some v => exact Or.inr (mem_values.mpr ⟨k, hlookup⟩)

theorem mem_values_insert {m : AssocMap κ ν} {k : κ} {v w : ν} (h : w ∈ (m.insert k v).values) :
    w = v ∨ w ∈ m.values := by
  obtain ⟨j, hj⟩ := mem_values.mp h
  by_cases hjk : j = k
  · subst hjk
    rw [lookup_insert, Option.some.injEq] at hj
    exact Or.inl hj.symm
  · rw [lookup_insert_ne hjk] at hj
    exact Or.inr (mem_values.mpr ⟨j, hj⟩)

end AList
