import Mathlib.Data.List.Basic

/-!
# Cancellation tokens

A token is cancelled by a call on it or on one of its ancestors, and stays
cancelled. A child of a cancelled token is cancelled from the start. A token
carries the path to its root, so the tree only has to remember how many tokens
there are and which of them were cancelled directly.
-/

namespace Semantics

structure CancelToken where
  id : Nat
  ancestors : List Nat
  deriving DecidableEq, Repr

/-- The token and its ancestors. -/
def CancelToken.path (t : CancelToken) : List Nat := t.id :: t.ancestors

structure CancelTree where
  created : Nat
  cancelled : List Nat
  deriving DecidableEq, Repr

namespace CancelTree

variable (tree : CancelTree) (t u : CancelToken)

def IsCancelled : Prop := ∃ i ∈ t.path, i ∈ tree.cancelled

instance : Decidable (tree.IsCancelled t) := inferInstanceAs (Decidable (∃ i ∈ t.path, _))

/-- A token without a parent. -/
def fresh : CancelToken := ⟨tree.created, []⟩

def child : CancelToken := ⟨tree.created, t.path⟩

/-- The tree with the token that `fresh` or `child` has made. -/
def grow : CancelTree := { tree with created := tree.created + 1 }

def cancel : CancelTree := { tree with cancelled := t.id :: tree.cancelled }

/-- The token belongs to the tree. -/
def Holds : Prop := ∀ i ∈ t.path, i < tree.created

/-- Only tokens of the tree have been cancelled. -/
def WellFormed : Prop := ∀ i ∈ tree.cancelled, i < tree.created

variable {tree t u}

theorem isCancelled_cancel :
    (tree.cancel t).IsCancelled u ↔ t.id ∈ u.path ∨ tree.IsCancelled u := by
  unfold IsCancelled cancel
  simp only [List.mem_cons]
  constructor
  · rintro ⟨i, hpath, rfl | hcancelled⟩
    · exact .inl hpath
    · exact .inr ⟨i, hpath, hcancelled⟩
  · rintro (hpath | ⟨i, hpath, hcancelled⟩)
    · exact ⟨t.id, hpath, .inl rfl⟩
    · exact ⟨i, hpath, .inr hcancelled⟩

@[simp] theorem isCancelled_grow : tree.grow.IsCancelled t ↔ tree.IsCancelled t := Iff.rfl

theorem WellFormed.cancel (hwf : tree.WellFormed) (ht : tree.Holds t) :
    (tree.cancel t).WellFormed := by
  intro i hi
  rcases List.mem_cons.mp hi with rfl | hi
  · exact ht _ List.mem_cons_self
  · exact hwf i hi

theorem WellFormed.grow (hwf : tree.WellFormed) : tree.grow.WellFormed :=
  fun i hi => Nat.lt_succ_of_lt (hwf i hi)

theorem Holds.grow (ht : tree.Holds t) : tree.grow.Holds t :=
  fun i hi => Nat.lt_succ_of_lt (ht i hi)

theorem holds_fresh : tree.grow.Holds tree.fresh := by
  intro i hi
  obtain rfl := List.mem_singleton.mp hi
  exact Nat.lt_succ_self _

theorem holds_child (ht : tree.Holds t) : tree.grow.Holds (tree.child t) := by
  intro i hi
  rcases List.mem_cons.mp hi with rfl | hi
  · exact Nat.lt_succ_self _
  · exact Nat.lt_succ_of_lt (ht i hi)

/-- A fresh token is out of reach of the tokens made before it. -/
theorem not_isCancelled_fresh (hwf : tree.WellFormed) (ht : tree.Holds t) :
    ¬(tree.grow.cancel t).IsCancelled tree.fresh := by
  rw [isCancelled_cancel]
  rintro (hpath | ⟨i, hpath, hcancelled⟩)
  · have hlt := ht t.id List.mem_cons_self
    rw [List.mem_singleton.mp hpath] at hlt
    exact Nat.lt_irrefl _ hlt
  · have hlt := hwf i hcancelled
    rw [List.mem_singleton.mp hpath] at hlt
    exact Nat.lt_irrefl _ hlt

end CancelTree

end Semantics
