import Contender.Data.FindByKey
import Mathlib.Data.List.Basic
import Mathlib.Data.List.Nodup
import Mathlib.Data.List.Pairwise
import Mathlib.Order.Lattice

/-!
# Maps with ordered keys

A finite map whose entries are kept in the order of their keys, so that reading off the keys or
the values gives them in that order.
-/

/-- A finite map with its entries in the order of the keys. -/
structure OrderedMap (κ ν : Type*) [LT κ] where
  entries : List (κ × ν)
  sorted : (entries.map Prod.fst).Pairwise (· < ·)

namespace OrderedMap

section LT

variable {κ ν : Type*} [LT κ]

def keys (m : OrderedMap κ ν) : List κ := m.entries.map Prod.fst

def values (m : OrderedMap κ ν) : List ν := m.entries.map Prod.snd

def get? [DecidableEq κ] (m : OrderedMap κ ν) (k : κ) : Option ν :=
  (m.entries.find? fun e => e.1 = k).map Prod.snd

end LT

variable {κ ν : Type*} [LinearOrder κ] (m : OrderedMap κ ν)

theorem nodup_keys : m.keys.Nodup := m.sorted.imp fun hlt => ne_of_lt hlt

variable {m}

theorem get?_eq_some {k : κ} {v : ν} : m.get? k = some v ↔ (k, v) ∈ m.entries := by
  rw [get?, Option.map_eq_some_iff]
  constructor
  · rintro ⟨⟨j, w⟩, hfind, rfl⟩
    obtain ⟨hmem, rfl⟩ := List.mem_of_find?_key hfind
    exact hmem
  · intro hmem
    exact ⟨(k, v), (List.find?_key_eq_some_iff m.nodup_keys).mpr ⟨hmem, rfl⟩, rfl⟩

/-- The values come in the order of the keys. -/
theorem filterMap_keys {γ : Type*} (f : ν → Option γ) :
    m.keys.filterMap (fun k => (m.get? k).bind f) = m.values.filterMap f := by
  rw [keys, values, List.filterMap_map, List.filterMap_map]
  refine List.filterMap_congr fun e he => ?_
  have hget : m.get? e.1 = some e.2 := get?_eq_some.mpr he
  simp only [Function.comp_apply, hget, Option.bind_some]

theorem mem_values_iff {v : ν} : v ∈ m.values ↔ ∃ k, m.get? k = some v := by
  rw [values, List.mem_map]
  constructor
  · rintro ⟨e, he, rfl⟩
    exact ⟨e.1, get?_eq_some.mpr he⟩
  · rintro ⟨k, hk⟩
    exact ⟨(k, v), get?_eq_some.mp hk, rfl⟩

end OrderedMap
