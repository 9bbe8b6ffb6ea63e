import Contender.Data.Traverse
import Mathlib.Data.List.Sort

/-!
# Stable sorting by a partial key

A stable sort keeps the order of elements that the comparison cannot tell apart.
Stability is stated through an arbitrary relation that holds between earlier and
later elements of the input: it still holds, after the sort, between elements
with equal keys.

The key of an element may be missing. Sorting fails then, unless the list is so
short that nothing is compared.
-/

namespace List

variable {α β κ : Type*}

section Stable

variable {r : α → α → Prop} [DecidableRel r] [Std.Total r] [IsTrans α r] {before : α → α → Prop}

theorem pairwise_orderedInsert_stable {a : α} {l : List α}
    (hl : l.Pairwise fun x y => r x y ∧ (r y x → before x y)) (ha : ∀ x ∈ l, before a x) :
    (l.orderedInsert r a).Pairwise fun x y => r x y ∧ (r y x → before x y) := by
  induction l with
  | nil => exact pairwise_singleton _ a
  | cons b l ih =>
    obtain ⟨hb, hl'⟩ := pairwise_cons.mp hl
    by_cases hab : r a b
    · -- the element goes in front, before everything it is not larger than
      rw [orderedInsert_cons_of_le r l hab]
      refine pairwise_cons.mpr ⟨fun x hx => ⟨?_, fun _ => ha x hx⟩, hl⟩
      rcases mem_cons.mp hx with rfl | hx
      · exact hab
      · exact trans_of r hab (hb x hx).1
    · rw [orderedInsert_of_not_le r l hab]
      refine pairwise_cons.mpr ⟨fun x hx => ?_, ih hl' fun x hx => ha x (mem_cons_of_mem b hx)⟩
      rcases (mem_orderedInsert r).mp hx with rfl | hx
      · exact ⟨(total_of r x b).resolve_left hab, fun h => absurd h hab⟩
      · exact hb x hx

/-- **Stability.** Insertion sort keeps the order of the elements that the
comparison does not separate. -/
theorem pairwise_insertionSort_stable {l : List α} (hl : l.Pairwise before) :
    (l.insertionSort r).Pairwise fun x y => r x y ∧ (r y x → before x y) := by
  induction l with
  | nil => exact Pairwise.nil
  | cons a l ih =>
    obtain ⟨ha, hl'⟩ := pairwise_cons.mp hl
    exact pairwise_orderedInsert_stable (ih hl') fun x hx => ha x ((mem_insertionSort r).mp hx)

/-- **The largest elements.** What is not among the first elements of a sorted list comes behind
each of them. -/
theorem rel_of_notMem_take_insertionSort {l : List α} {k : ℕ} {a b : α} (ha : a ∈ l)
    (hnot : a ∉ (l.insertionSort r).take k) (hb : b ∈ (l.insertionSort r).take k) : r b a := by
  have hsorted := pairwise_insertionSort r l
  have ha : a ∈ l.insertionSort r := (mem_insertionSort r).mpr ha
  rw [← take_append_drop k (l.insertionSort r)] at ha hsorted
  have hdrop := (mem_append.mp ha).resolve_left hnot
  exact (pairwise_append.mp hsorted).2.2 b hb a hdrop

end Stable

/-- The elements with their keys, when all have one. -/
def keyed? (key : α → Option κ) (l : List α) : Option (List (κ × α)) :=
  l.mapM fun a => (key a).map fun k => (k, a)

variable {key : α → Option κ} {l sorted : List α}

theorem keyed?_eq_some {keyed : List (κ × α)} (h : l.keyed? key = some keyed) :
    keyed.map Prod.snd = l ∧ ∀ p ∈ keyed, key p.2 = some p.1 := by
  have hmatch := mapM_eq_some_iff.mp h
  have hpair : ∀ a (p : κ × α), (key a).map (fun k => (k, a)) = some p →
      p.2 = a ∧ key p.2 = some p.1 := by
    intro a p hp
    obtain ⟨k, hk, rfl⟩ := Option.map_eq_some_iff.mp hp
    exact ⟨rfl, hk⟩
  constructor
  · rw [hmatch.map_eq fun a p hp => (hpair a p hp).1]
    exact map_id l
  · intro p hp
    obtain ⟨a, -, ha⟩ := hmatch.exists_of_mem_right hp
    exact (hpair a p ha).2

theorem keyed?_map (key : β → Option κ) (f : α → β) (l : List α) :
    (l.map f).keyed? key =
      (l.keyed? fun a => key (f a)).map (List.map fun p => (p.1, f p.2)) := by
  unfold keyed?
  induction l with
  | nil => rfl
  | cons a l ih =>
    rw [map_cons, mapM_cons, mapM_cons, ih]
    cases hkey : key (f a) with
    | none => simp [hkey]
    | some k =>
      cases hrest : l.mapM fun a => (key (f a)).map fun k => (k, a) with
      | none => simp [hkey]
      | some keyed => simp [hkey]

variable [LinearOrder κ]

/-- A stable sort by a key. Every element of a list of two or more is compared
with another one, so that a missing key makes the sort fail. -/
def sortByKey? (key : α → Option κ) (l : List α) : Option (List α) :=
  if l.length < 2 then some l
  else (l.keyed? key).map fun keyed =>
    (keyed.insertionSort fun p q => p.1 ≤ q.1).map Prod.snd

theorem sortByKey?_isSome :
    (l.sortByKey? key).isSome ↔ l.length < 2 ∨ ∀ a ∈ l, (key a).isSome := by
  unfold sortByKey?
  split_ifs with hshort
  · simp [hshort]
  · simp [keyed?, mapM_isSome, hshort]

theorem perm_of_sortByKey? (h : l.sortByKey? key = some sorted) : sorted.Perm l := by
  unfold sortByKey? at h
  split_ifs at h with hshort
  · obtain rfl := Option.some.inj h
    exact .refl _
  · obtain ⟨keyed, hkeyed, rfl⟩ := Option.map_eq_some_iff.mp h
    have hperm := (perm_insertionSort (fun p q : κ × α => p.1 ≤ q.1) keyed).map Prod.snd
    rwa [(keyed?_eq_some hkeyed).1] at hperm

instance total_fst_le : Std.Total fun p q : κ × α => p.1 ≤ q.1 :=
  ⟨fun p q => le_total p.1 q.1⟩

instance trans_fst_le : IsTrans (κ × α) fun p q => p.1 ≤ q.1 :=
  ⟨fun _ _ _ => le_trans⟩

/-- What two elements of a sorted list say about each other. -/
def SortedByKey (key : α → Option κ) (before : α → α → Prop) (a b : α) : Prop :=
  ∃ j k, key a = some j ∧ key b = some k ∧ j ≤ k ∧ (k ≤ j → before a b)

theorem pairwise_of_sortByKey? {before : α → α → Prop} (hl : l.Pairwise before)
    (h : l.sortByKey? key = some sorted) : sorted.Pairwise (SortedByKey key before) := by
  unfold sortByKey? at h
  split_ifs at h with hshort
  · obtain rfl := Option.some.inj h
    -- a list of at most one element has no pairs
    rcases l with - | ⟨a, - | ⟨b, l⟩⟩
    · exact Pairwise.nil
    · exact pairwise_singleton _ a
    · exact absurd hshort (by simp)
  · obtain ⟨keyed, hkeyed, rfl⟩ := Option.map_eq_some_iff.mp h
    obtain ⟨rfl, hkeys⟩ := keyed?_eq_some hkeyed
    have hstable := pairwise_insertionSort_stable (r := fun p q : κ × α => p.1 ≤ q.1)
      (pairwise_map.mp hl)
    refine pairwise_map.mpr (hstable.imp_of_mem fun {p q} hp hq hpq => ?_)
    rw [mem_insertionSort] at hp hq
    exact ⟨p.1, q.1, hkeys p hp, hkeys q hq, hpq.1, hpq.2⟩

/-- The key of the first element is at most that of the second one. -/
def KeyLE (key : α → Option κ) (a b : α) : Prop := ∀ j ∈ key a, ∀ k ∈ key b, j ≤ k

/-- **What a sort does to an order.** Let the input be in an order that matters
between linked elements only. The sort keeps it exactly when the keys of the
linked elements follow it. -/
theorem pairwise_sortByKey?_iff {before good linked : α → α → Prop} (hl : l.Pairwise before)
    (h : l.sortByKey? key = some sorted) (hgood : ∀ a b, before a b → good a b)
    (hfree : ∀ a b, ¬linked a b → good a b) (hsymm : ∀ a b, linked a b → linked b a)
    (hclash : ∀ a b, before a b → linked a b → ¬good b a) :
    sorted.Pairwise good ↔ l.Pairwise fun a b => linked a b → KeyLE key a b := by
  have hperm := perm_of_sortByKey? h
  have hsorted := pairwise_of_sortByKey? hl h
  constructor
  · intro hout
    -- two elements of the output, seen from the input: in either order
    have hpairs : l.Pairwise fun a b => SortedByKey key before a b ∧ good a b ∨
        SortedByKey key before b a ∧ good b a :=
      hperm.pairwise ((hsorted.and hout).imp fun hab => .inl hab) fun hab => hab.symm
    refine (hl.and hpairs).imp fun {a b} hab hlinked => ?_
    obtain ⟨hbefore, ⟨⟨j, k, hj, hk, hle, -⟩, -⟩ | ⟨-, hback⟩⟩ := hab
    · intro j' hj' k' hk'
      obtain rfl := Option.some.inj (hj.symm.trans hj')
      obtain rfl := Option.some.inj (hk.symm.trans hk')
      exact hle
    · exact absurd hback (hclash a b hbefore hlinked)
  · intro hkeys
    have hpairs : sorted.Pairwise fun a b =>
        (before a b ∧ (linked a b → KeyLE key a b)) ∨
          before b a ∧ (linked b a → KeyLE key b a) :=
      hperm.symm.pairwise ((hl.and hkeys).imp fun hab => .inl hab) fun hab => hab.symm
    refine (hsorted.and hpairs).imp fun {a b} hab => ?_
    obtain ⟨⟨j, k, hj, hk, -, hstable⟩, ⟨hbefore, -⟩ | ⟨-, hle⟩⟩ := hab
    · exact hgood a b hbefore
    · -- the sort has swapped them: they are not linked, or their keys are equal
      by_cases hlinked : linked a b
      · exact hgood a b (hstable (hle (hsymm a b hlinked) k hk j hj))
      · exact hfree a b hlinked

/-- Sorting commutes with a map that keeps the keys. -/
theorem sortByKey?_map (key : β → Option κ) (f : α → β) (l : List α) :
    (l.map f).sortByKey? key = (l.sortByKey? fun a => key (f a)).map (List.map f) := by
  unfold sortByKey?
  rw [length_map]
  split_ifs with hshort
  · rfl
  · rw [keyed?_map, Option.map_map, Option.map_map]
    congr 1
    funext keyed
    simp only [Function.comp_apply, map_map]
    rw [← map_insertionSort (fun p q : κ × α => p.1 ≤ q.1) (fun p q : κ × β => p.1 ≤ q.1)
      (fun p => (p.1, f p.2)) keyed fun _ _ _ _ => Iff.rfl, map_map]
    rfl

end List
