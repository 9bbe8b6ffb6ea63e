import Mathlib.Data.List.Nodup
import Mathlib.Data.List.Range
import Mathlib.Data.Sym.Sym2

/-!
# Pairing the elements of a list

A nested loop in which the inner index starts after the outer one visits every element of a
list together with the elements after it. With a hub before the list, it pairs any two of
the hub and the elements once. Listing both directions of every pair gives the ordered pairs.

## Main results

* `flatMap_range_eq_flatMapRest` — a nested loop over indices is the visit of the indexed
  elements
* `nodup_unordered_pairings`, `mem_unordered_pairings` — the unordered pairs of the hub and
  the elements, each once
* `nodup_bothWays`, `mem_bothWays` — the ordered pairs, each once
-/

namespace List

variable {α β γ : Type*}

/-- Visit every element together with the elements after it. -/
def flatMapRest (f : α → List α → List β) : List α → List β
  | [] => []
  | a :: l => f a l ++ flatMapRest f l

theorem flatMap_range'_eq_flatMapRest (f : α → List α → List β) (g : ℕ → α) (s m : ℕ) :
    ((range' s m).flatMap fun i => f (g i) ((range' (i + 1) (s + m - (i + 1))).map g)) =
      flatMapRest f ((range' s m).map g) := by
  induction m generalizing s with
  | zero => rfl
  | succ m ih =>
    have hrest : s + (m + 1) - (s + 1) = m := by omega
    have hend : s + (m + 1) = s + 1 + m := by omega
    rw [range'_succ, flatMap_cons, map_cons, flatMapRest, hrest, hend, ih]

/-- A loop over indices that start at zero. -/
theorem flatMap_range_eq_flatMapRest (f : α → List α → List β) (g : ℕ → α) (m : ℕ) :
    ((range m).flatMap fun i => f (g i) ((range' (i + 1) (m - (i + 1))).map g)) =
      flatMapRest f ((range m).map g) := by
  simpa [range_eq_range'] using flatMap_range'_eq_flatMapRest f g 0 m

/-- What a visit gives comes from an element and elements after it. -/
theorem exists_of_mem_flatMapRest {f : α → List α → List β} {l : List α} {b : β}
    (h : b ∈ flatMapRest f l) : ∃ a ∈ l, ∃ rest ⊆ l, b ∈ f a rest := by
  induction l with
  | nil => exact absurd h not_mem_nil
  | cons a l ih =>
    rcases mem_append.mp h with hhead | htail
    · exact ⟨a, mem_cons_self, l, subset_cons_self a l, hhead⟩
    · obtain ⟨a', ha', rest, hrest, hb⟩ := ih htail
      exact ⟨a', mem_cons_of_mem a ha', rest, fun x hx => mem_cons_of_mem a (hrest hx), hb⟩

theorem map_flatMapRest (h : β → γ) (f : α → List α → List β) (l : List α) :
    (flatMapRest f l).map h = flatMapRest (fun a rest => (f a rest).map h) l := by
  induction l with
  | nil => rfl
  | cons a l ih => rw [flatMapRest, map_append, ih, flatMapRest]

theorem flatMap_flatMapRest (h : β → List γ) (f : α → List α → List β) (l : List α) :
    (flatMapRest f l).flatMap h = flatMapRest (fun a rest => (f a rest).flatMap h) l := by
  induction l with
  | nil => rfl
  | cons a l ih => rw [flatMapRest, flatMap_append, ih, flatMapRest]

theorem filterMap_flatMapRest (h : β → Option γ) (f : α → List α → List β) (l : List α) :
    (flatMapRest f l).filterMap h = flatMapRest (fun a rest => (f a rest).filterMap h) l := by
  induction l with
  | nil => rfl
  | cons a l ih => rw [flatMapRest, filterMap_append, ih, flatMapRest]

/-- Visits that correspond, element by element, give lists that correspond. -/
theorem forall₂_flatMapRest {δ : Type*} {R : β → γ → Prop} {f : α → List α → List β}
    {g : δ → List δ → List γ} {h : α → δ} {l : List α}
    (hfg : ∀ a rest, Forall₂ R (f a rest) (g (h a) (rest.map h))) :
    Forall₂ R (flatMapRest f l) (flatMapRest g (l.map h)) := by
  induction l with
  | nil => exact .nil
  | cons a l ih => exact rel_append (hfg a l) ih

/-! ### The pairs -/

/-- Each element is paired with the hub, and then with each of the elements after it. -/
def pairings (hub : α) : List α → List (α × α) :=
  flatMapRest fun a rest => (hub, a) :: rest.map (a, ·)

theorem pairings_cons (hub a : α) (l : List α) :
    pairings hub (a :: l) = (hub, a) :: (l.map (a, ·) ++ pairings hub l) := rfl

/-- The pairs without their direction. -/
def unordered (pairs : List (α × α)) : List (Sym2 α) := pairs.map fun p => s(p.1, p.2)

theorem unordered_pairings_cons (hub a : α) (l : List α) :
    unordered (pairings hub (a :: l)) =
      s(hub, a) :: (l.map (fun b => s(a, b)) ++ unordered (pairings hub l)) := by
  simp [unordered, pairings_cons]

theorem mem_unordered_pairings {hub : α} {l : List α} (h : (hub :: l).Nodup) {a b : α} :
    s(a, b) ∈ unordered (pairings hub l) ↔ a ≠ b ∧ a ∈ hub :: l ∧ b ∈ hub :: l := by
  induction l with
  | nil => simp [unordered, pairings, flatMapRest]; grind
  | cons c l ih =>
    have hl : (hub :: l).Nodup := by grind
    rw [unordered_pairings_cons, mem_cons, mem_append, ih hl]
    simp only [mem_map, Sym2.eq_iff, mem_cons]
    grind

theorem nodup_unordered_pairings {hub : α} {l : List α} (h : (hub :: l).Nodup) :
    (unordered (pairings hub l)).Nodup := by
  induction l with
  | nil => simp [unordered, pairings, flatMapRest]
  | cons c l ih =>
    have hl : (hub :: l).Nodup := by grind
    have hc : ∀ b, s(c, b) ∉ unordered (pairings hub l) := by
      intro b hmem
      have := (mem_unordered_pairings hl).mp hmem
      grind
    rw [unordered_pairings_cons, nodup_cons, nodup_append]
    refine ⟨?_, ?_, ih hl, ?_⟩
    · rw [mem_append, Sym2.eq_swap]
      rintro (hmem | hmem)
      · obtain ⟨b, hb, heq⟩ := mem_map.mp hmem
        grind
      · exact hc hub hmem
    · refine (nodup_cons.mp hl).2.map fun b b' heq => ?_
      grind [Sym2.eq_iff]
    · rintro _ hmem _ hmem' rfl
      obtain ⟨b, -, rfl⟩ := mem_map.mp hmem
      exact hc b hmem'

/-! ### Both directions -/

/-- Each pair, and then the pair the other way round. -/
def bothWays (pairs : List (α × α)) : List (α × α) := pairs.flatMap fun p => [p, p.swap]

theorem mem_bothWays {pairs : List (α × α)} {a b : α} :
    (a, b) ∈ bothWays pairs ↔ s(a, b) ∈ unordered pairs := by
  simp only [bothWays, unordered, mem_flatMap, mem_map, Sym2.eq_iff]
  constructor
  · rintro ⟨⟨c, d⟩, hmem, h⟩
    exact ⟨(c, d), hmem, by simp at h; grind⟩
  · rintro ⟨⟨c, d⟩, hmem, h⟩
    exact ⟨(c, d), hmem, by simp; grind⟩

theorem nodup_bothWays {pairs : List (α × α)} (h : (unordered pairs).Nodup)
    (hne : ∀ p ∈ pairs, p.1 ≠ p.2) : (bothWays pairs).Nodup := by
  induction pairs with
  | nil => simp [bothWays]
  | cons p pairs ih =>
    obtain ⟨a, b⟩ := p
    have hab : a ≠ b := hne (a, b) mem_cons_self
    obtain ⟨hnot, hnodup⟩ := nodup_cons.mp h
    have hnew : (a, b) ∉ bothWays pairs := fun hmem => hnot (mem_bothWays.mp hmem)
    have hnew' : (b, a) ∉ bothWays pairs := by
      rw [mem_bothWays, Sym2.eq_swap]
      exact hnot
    have hrest : (bothWays pairs).Nodup := ih hnodup fun p hp => hne p (mem_cons_of_mem _ hp)
    change ((a, b) :: (b, a) :: bothWays pairs).Nodup
    rw [nodup_cons, nodup_cons, mem_cons]
    refine ⟨?_, hnew', hrest⟩
    rintro (heq | hmem)
    · exact hab (congrArg Prod.fst heq)
    · exact hnew hmem

end List
