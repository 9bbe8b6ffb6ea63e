import Contender.Data.AssocMap
import Mathlib.Data.List.Induction

/-!
# Chains by key

Values are pushed one after another, each under a key. A pushed value is linked
to the one pushed last under its key, and the ends of the chains are kept in a
map. This file shows that the map and the links say what the list of keys says,
and gives the rule of induction from the ends of the chains down.
-/

namespace List

variable {κ : Type*}

/-- Position `i` is the last one that holds `k`. -/
def IsLastIdx (l : List κ) (k : κ) (i : Nat) : Prop :=
  l[i]? = some k ∧ ∀ j, i < j → l[j]? ≠ some k

theorem not_isLastIdx_nil (k : κ) (i : Nat) : ¬([] : List κ).IsLastIdx k i := fun h => by
  simpa using h.1

theorem IsLastIdx.lt_length {l : List κ} {k : κ} {i : Nat} (h : l.IsLastIdx k i) :
    i < l.length := by
  obtain ⟨hlt, -⟩ := getElem?_eq_some_iff.mp h.1
  exact hlt

/-- Appending an element makes it the last of its kind and changes nothing for
the others. -/
theorem isLastIdx_concat {l : List κ} {x k : κ} {i : Nat} :
    (l ++ [x]).IsLastIdx k i ↔ (x = k ∧ i = l.length) ∨ (x ≠ k ∧ l.IsLastIdx k i) := by
  have hend : (l ++ [x])[l.length]? = some x := getElem?_concat_length
  have hfront : ∀ j, j < l.length → (l ++ [x])[j]? = l[j]? := fun j hj => getElem?_append_left hj
  constructor
  · intro h
    by_cases hx : x = k
    · -- a later position holds `k` unless `i` is the end
      have hlt : i < l.length + 1 := by simpa using h.lt_length
      have hge : ¬i < l.length := fun hi => h.2 l.length hi (by rw [hend, hx])
      exact .inl ⟨hx, by omega⟩
    · have hi : i < l.length := by
        have hlt : i < l.length + 1 := by simpa using h.lt_length
        have hne : i ≠ l.length := by
          rintro rfl
          rw [IsLastIdx, hend, Option.some.injEq] at h
          exact hx h.1
        omega
      refine .inr ⟨hx, (hfront i hi).symm.trans h.1, fun j hij hj => ?_⟩
      obtain ⟨hlt, -⟩ := getElem?_eq_some_iff.mp hj
      exact h.2 j hij ((hfront j hlt).trans hj)
  · rintro (⟨rfl, rfl⟩ | ⟨hx, h⟩)
    · refine ⟨hend, fun j hj hsome => ?_⟩
      have hlt : j < l.length + 1 := by
        obtain ⟨hlt, -⟩ := getElem?_eq_some_iff.mp hsome
        simpa using hlt
      omega
    · refine ⟨(hfront i h.lt_length).trans h.1, fun j hij hsome => ?_⟩
      rcases Nat.lt_trichotomy j l.length with hj | rfl | hj
      · exact h.2 j hij ((hfront j hj).symm.trans hsome)
      · rw [hend, Option.some.injEq] at hsome
        exact hx hsome
      · rw [getElem?_eq_none (by simpa [Nat.succ_le_iff] using hj)] at hsome
        cases hsome

/-- What occurs has a last position. -/
theorem exists_isLastIdx_of_mem {l : List κ} {k : κ} (h : k ∈ l) : ∃ i, l.IsLastIdx k i := by
  induction l using List.reverseRecOn with
  | nil => exact absurd h not_mem_nil
  | append_singleton l x ih =>
    by_cases hx : x = k
    · exact ⟨l.length, isLastIdx_concat.mpr (.inl ⟨hx, rfl⟩)⟩
    · rcases mem_append.mp h with hl | hend
      · obtain ⟨i, hi⟩ := ih hl
        exact ⟨i, isLastIdx_concat.mpr (.inr ⟨hx, hi⟩)⟩
      · exact absurd (mem_singleton.mp hend).symm hx

/-- Every position is reached from the last position of its kind by going back to
the previous position of that kind. -/
theorem isLastIdx_induction {l : List κ} {p : Nat → Prop}
    (hlast : ∀ k i, l.IsLastIdx k i → p i)
    (hprev : ∀ i k j, l[i]? = some k → (l.take i).IsLastIdx k j → p i → p j) :
    ∀ i < l.length, p i := by
  induction l using List.reverseRecOn with
  | nil => exact fun i hi => absurd hi (Nat.not_lt_zero i)
  | append_singleton l x ih =>
    have hend : p l.length := hlast x _ (isLastIdx_concat.mpr (.inl ⟨rfl, rfl⟩))
    have htake : ∀ i ≤ l.length, (l ++ [x]).take i = l.take i :=
      fun i hi => take_append_of_le_length hi
    have hfront : ∀ i < l.length, p i := by
      refine ih (fun k i hki => ?_) (fun i k j hik => ?_)
      · by_cases hx : x = k
        · -- the new end is linked to the old one
          refine hprev l.length k i (by rw [getElem?_concat_length, hx]) ?_ hend
          rwa [htake _ le_rfl, take_length]
        · exact hlast k i (isLastIdx_concat.mpr (.inr ⟨hx, hki⟩))
      · obtain ⟨hi, -⟩ := getElem?_eq_some_iff.mp hik
        have hik' : (l ++ [x])[i]? = some k := (getElem?_append_left hi).trans hik
        have h := hprev i k j hik'
        rwa [htake i (Nat.le_of_lt hi)] at h
    intro i hi
    rw [length_append, length_singleton] at hi
    rcases Nat.lt_succ_iff_lt_or_eq.mp hi with hi | rfl
    · exact hfront i hi
    · exact hend

end List

/-- A value with its key, linked to the value before it with that key. -/
structure ChainLink (κ ν : Type*) where
  key : κ
  prev : Option Nat
  value : ν
  deriving DecidableEq, Repr

/-- Values pushed under keys, by position. -/
structure KeyedChain (κ ν : Type*) [DecidableEq κ] where
  links : List (ChainLink κ ν)
  ends : AssocMap κ Nat
  ends_iff : ∀ k i, ends.lookup k = some i ↔ (links.map ChainLink.key).IsLastIdx k i
  prev_iff : ∀ i link, links[i]? = some link → ∀ j,
    link.prev = some j ↔ ((links.take i).map ChainLink.key).IsLastIdx link.key j

namespace KeyedChain

variable {κ ν : Type*} [DecidableEq κ]

def empty : KeyedChain κ ν where
  links := []
  ends := ∅
  ends_iff k i := by simp [List.not_isLastIdx_nil]
  prev_iff i link h := by simp at h

/-- Push a value: it takes over the end of its chain. -/
def push (c : KeyedChain κ ν) (key : κ) (value : ν) : KeyedChain κ ν where
  links := c.links ++ [{ key, prev := c.ends.lookup key, value }]
  ends := (c.ends.erase key).insert key c.links.length
  ends_iff k i := by
    rw [List.map_append, List.map_singleton, List.isLastIdx_concat, List.length_map]
    by_cases hk : k = key
    · subst hk
      simp [eq_comm]
    · rw [AList.lookup_insert_ne hk, AList.lookup_erase_ne hk, c.ends_iff]
      simp [Ne.symm hk]
  prev_iff i link h j := by
    rcases Nat.lt_trichotomy i c.links.length with hi | rfl | hi
    · rw [List.getElem?_append_left hi] at h
      rw [List.take_append_of_le_length (Nat.le_of_lt hi)]
      exact c.prev_iff i link h j
    · rw [List.getElem?_concat_length, Option.some.injEq] at h
      subst h
      rw [List.take_append_of_le_length le_rfl, List.take_length]
      exact c.ends_iff key j
    · rw [List.getElem?_eq_none (by simpa [Nat.succ_le_iff] using hi)] at h
      cases h

/-- Links point backwards. -/
theorem prev_lt (c : KeyedChain κ ν) {i j : Nat} {link : ChainLink κ ν}
    (hlink : c.links[i]? = some link) (hprev : link.prev = some j) : j < i := by
  have hlast := (c.prev_iff i link hlink j).mp hprev
  have hlt := hlast.lt_length
  rw [List.length_map, List.length_take] at hlt
  omega

/-- **Induction from the ends.** What holds at the end of every chain and passes
from a link to the one before it holds at every position. -/
theorem induction_from_ends (c : KeyedChain κ ν) {p : Nat → Prop}
    (hends : ∀ k i, c.ends.lookup k = some i → p i)
    (hprev : ∀ i link j, c.links[i]? = some link → link.prev = some j → p i → p j) :
    ∀ i < c.links.length, p i := by
  intro i hi
  refine List.isLastIdx_induction (l := c.links.map ChainLink.key)
    (fun k j hj => hends k j ((c.ends_iff k j).mpr hj)) (fun m k j hm hj => ?_) i
    (by simpa using hi)
  rw [List.getElem?_map, Option.map_eq_some_iff] at hm
  obtain ⟨link, hlink, rfl⟩ := hm
  rw [← List.map_take] at hj
  exact hprev m link j hlink ((c.prev_iff m link hlink j).mpr hj)

end KeyedChain
