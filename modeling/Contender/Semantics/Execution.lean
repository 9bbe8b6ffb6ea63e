import Mathlib.Data.List.Basic

/-!
# Executions of labelled transition functions

A transition function answers a state and a label with the next state, or with
nothing when the label is not enabled. All nondeterminism sits in the labels, so
an execution is computed by its word of labels and can be evaluated.

A guard may restrict the labels taken along an execution. The invariant rules
come in two forms: one for predicates on the state alone, one for predicates
that also read the labels consumed so far.
-/

namespace Semantics.Execution

variable {σ α : Type*} (step : σ → α → Option σ)

/-- The state a word of labels leads to, when each label is enabled in turn. -/
def run : σ → List α → Option σ
  | s, [] => some s
  | s, a :: w => (step s a).bind fun t => run t w

/-- Every label of the word meets `ok` in the state where it is taken. -/
def Along (ok : σ → α → Prop) : σ → List α → Prop
  | _, [] => True
  | s, a :: w => ok s a ∧ ∀ t ∈ step s a, Along ok t w

instance Along.decidable (ok : σ → α → Prop) [∀ s a, Decidable (ok s a)] :
    ∀ s w, Decidable (Along step ok s w)
  | _, [] => isTrue trivial
  | s, a :: w =>
    match h : step s a with
    | none => decidable_of_iff (ok s a) (by simp [Along, h])
    | some t =>
      have := Along.decidable ok t w
      decidable_of_iff (ok s a ∧ Along step ok t w) (by simp [Along, h])

variable {step}

@[simp] theorem run_nil (s : σ) : run step s [] = some s := rfl

theorem run_cons_eq_some {s t : σ} {a : α} {w : List α} :
    run step s (a :: w) = some t ↔ ∃ u, step s a = some u ∧ run step u w = some t := by
  simp [run, Option.bind_eq_some_iff]

@[simp] theorem run_singleton (s : σ) (a : α) : run step s [a] = step s a := by
  simp [run]

/-- An execution of a concatenation passes through the state its first part
leads to. -/
theorem run_append_eq_some {s t : σ} {v w : List α} :
    run step s (v ++ w) = some t ↔ ∃ u, run step s v = some u ∧ run step u w = some t := by
  induction v generalizing s with
  | nil => simp
  | cons a v ih =>
    rw [List.cons_append, run_cons_eq_some]
    constructor
    · rintro ⟨m, hstep, hrest⟩
      obtain ⟨u, hu, ht⟩ := ih.mp hrest
      exact ⟨u, run_cons_eq_some.mpr ⟨m, hstep, hu⟩, ht⟩
    · rintro ⟨u, hu, ht⟩
      obtain ⟨m, hstep, hm⟩ := run_cons_eq_some.mp hu
      exact ⟨m, hstep, ih.mpr ⟨u, hm, ht⟩⟩

/-- Words that lead from one state of a sequence to the next lead along the sequence. -/
theorem run_flatMap_range {f : Nat → σ} {word : Nat → List α} {n : Nat}
    (h : ∀ i < n, run step (f i) (word i) = some (f (i + 1))) :
    run step (f 0) ((List.range n).flatMap word) = some (f n) := by
  induction n with
  | zero => rfl
  | succ n ih =>
    rw [List.range_succ, List.flatMap_append, List.flatMap_singleton]
    have hfirst := ih fun i hi => h i (Nat.lt_succ_of_lt hi)
    exact run_append_eq_some.mpr ⟨f n, hfirst, h n n.lt_succ_self⟩

/-- A guard met along a concatenation is met along its first part. -/
theorem Along.left {ok : σ → α → Prop} {s : σ} {v w : List α}
    (h : Along step ok s (v ++ w)) : Along step ok s v := by
  induction v generalizing s with
  | nil => trivial
  | cons a v ih => exact ⟨h.1, fun t ht => ih (h.2 t ht)⟩

/-- A guard met along a concatenation is met along its second part. -/
theorem Along.right {ok : σ → α → Prop} {s t : σ} {v w : List α}
    (h : Along step ok s (v ++ w)) (hrun : run step s v = some t) : Along step ok t w := by
  induction v generalizing s with
  | nil =>
    obtain rfl : s = t := Option.some.inj hrun
    exact h
  | cons a v ih =>
    obtain ⟨u, hstep, hrest⟩ := run_cons_eq_some.mp hrun
    exact ih (h.2 u hstep) hrest

/-- A guard met along two consecutive parts is met along their concatenation. -/
theorem Along.append {ok : σ → α → Prop} {s t : σ} {v w : List α} (hv : Along step ok s v)
    (hrun : run step s v = some t) (hw : Along step ok t w) : Along step ok s (v ++ w) := by
  induction v generalizing s with
  | nil =>
    obtain rfl : s = t := Option.some.inj hrun
    exact hw
  | cons a v ih =>
    obtain ⟨u, hstep, hrest⟩ := run_cons_eq_some.mp hrun
    refine ⟨hv.1, fun u' hu' => ?_⟩
    obtain rfl : u = u' := Option.some.inj (hstep.symm.trans hu')
    exact ih (hv.2 u hstep) hrest

/-- A guard that every label of the word meets in every state is met along it. -/
theorem along_of_forall {ok : σ → α → Prop} {s : σ} {w : List α}
    (h : ∀ a ∈ w, ∀ s, ok s a) : Along step ok s w := by
  induction w generalizing s with
  | nil => trivial
  | cons a w ih =>
    obtain ⟨ha, hw⟩ := List.forall_mem_cons.mp h
    exact ⟨ha s, fun t _ => ih hw⟩

theorem Along.mono {ok ok' : σ → α → Prop} (himp : ∀ s a, ok s a → ok' s a) {s : σ}
    {w : List α} (h : Along step ok s w) : Along step ok' s w := by
  induction w generalizing s with
  | nil => trivial
  | cons a w ih => exact ⟨himp s a h.1, fun t ht => ih (h.2 t ht)⟩

theorem Along.and {ok ok' : σ → α → Prop} {s : σ} {w : List α} (h : Along step ok s w)
    (h' : Along step ok' s w) : Along step (fun s a => ok s a ∧ ok' s a) s w := by
  induction w generalizing s with
  | nil => trivial
  | cons a w ih => exact ⟨⟨h.1, h'.1⟩, fun t ht => ih (h.2 t ht) (h'.2 t ht)⟩

/-- **History invariants.** A relation between the labels consumed and the
state reached holds at the end of every execution that meets the guard, when it
holds initially and each guarded step extends it. -/
theorem history_invariant {ok : σ → α → Prop} {I : List α → σ → Prop}
    (preserved : ∀ w s a t, ok s a → step s a = some t → I w s → I (w ++ [a]) t)
    {s t : σ} {w : List α} (past : List α) (hinv : I past s)
    (hrun : run step s w = some t) (hok : Along step ok s w) : I (past ++ w) t := by
  induction w generalizing s past with
  | nil =>
    obtain rfl : s = t := Option.some.inj hrun
    simpa using hinv
  | cons a w ih =>
    obtain ⟨u, hstep, hrest⟩ := run_cons_eq_some.mp hrun
    have hnext := ih (past ++ [a]) (preserved past s a u hok.1 hstep hinv) hrest
      (hok.2 u hstep)
    simpa using hnext

/-- **Invariants.** A predicate that holds initially and is kept by each guarded
step holds at the end of every execution that meets the guard. -/
theorem invariant {ok : σ → α → Prop} {I : σ → Prop}
    (preserved : ∀ s a t, ok s a → step s a = some t → I s → I t)
    {s t : σ} {w : List α} (hinv : I s) (hrun : run step s w = some t)
    (hok : Along step ok s w) : I t :=
  history_invariant (I := fun _ => I) (fun _ => preserved) [] hinv hrun hok

/-- **Simulation.** When each guarded step of one system is matched by a guarded
execution of another, through a view that is right on the states that satisfy an
invariant, so is each guarded execution. -/
theorem simulation {τ β : Type*} {step' : τ → β → Option τ} {ok : σ → α → Prop}
    {ok' : τ → β → Prop} {I : σ → Prop} (view : σ → τ) (ops : σ → α → List β)
    (preserved : ∀ s a t, step s a = some t → I s → I t)
    (matched : ∀ s a t, step s a = some t → I s →
      run step' (view s) (ops s a) = some (view t))
    (guarded : ∀ s a t, step s a = some t → I s → ok s a →
      Along step' ok' (view s) (ops s a))
    {s t : σ} {w : List α} (hinv : I s) (hrun : run step s w = some t)
    (hok : Along step ok s w) :
    ∃ w', run step' (view s) w' = some (view t) ∧ Along step' ok' (view s) w' := by
  induction w generalizing s with
  | nil =>
    obtain rfl : s = t := Option.some.inj hrun
    exact ⟨[], rfl, trivial⟩
  | cons a w ih =>
    obtain ⟨u, hstep, hrest⟩ := run_cons_eq_some.mp hrun
    obtain ⟨w', hw', hok'⟩ := ih (preserved s a u hstep hinv) hrest (hok.2 u hstep)
    have hfirst := matched s a u hstep hinv
    exact ⟨ops s a ++ w', run_append_eq_some.mpr ⟨_, hfirst, hw'⟩,
      (guarded s a u hstep hinv hok.1).append hfirst hok'⟩

/-- Every execution meets the trivial guard. -/
theorem along_true (s : σ) (w : List α) : Along step (fun _ _ => True) s w :=
  along_of_forall fun _ _ _ => trivial

/-! ### Observed executions -/

section Observed

variable {ω : Type*} (step) (emit : σ → α → List ω)

/-- The system with a record of what its steps emit. -/
def observed (p : σ × List ω) (a : α) : Option (σ × List ω) :=
  (step p.1 a).map fun t => (t, p.2 ++ emit p.1 a)

variable {step emit}

theorem observed_eq_some {p q : σ × List ω} {a : α} :
    observed step emit p a = some q ↔ step p.1 a = some q.1 ∧ p.2 ++ emit p.1 a = q.2 := by
  obtain ⟨t, record⟩ := q
  simp [observed, Option.map_eq_some_iff]

end Observed

/-! ### Executions that end -/

/-- No label is enabled. -/
def Stuck (step : σ → α → Option σ) (s : σ) : Prop := ∀ a, step s a = none

/-- Executions from the state cannot go on forever, and those that cannot go on have
reached `P`. -/
structure Inevitable (step : σ → α → Option σ) (P : σ → Prop) (s : σ) : Prop where
  bounded : ∃ n, ∀ w t, run step s w = some t → w.length ≤ n
  ends : ∀ w t, run step s w = some t → Stuck step t → P t

/-- An execution is no longer than a measure that every step decreases. -/
theorem length_le_measure {measure : σ → Nat}
    (decreases : ∀ s a t, step s a = some t → measure t < measure s) {s t : σ} {w : List α}
    (hrun : run step s w = some t) : w.length ≤ measure s := by
  induction w generalizing s with
  | nil => exact Nat.zero_le _
  | cons a w ih =>
    obtain ⟨u, hstep, hrest⟩ := run_cons_eq_some.mp hrun
    have hlt := decreases s a u hstep
    have hle := ih hrest
    rw [List.length_cons]
    omega

/-- **Progress.** When some step always leads on as long as the goal is not reached,
and decreases a measure, an execution leads to the goal. -/
theorem exists_run_to {measure : σ → Nat} {I goal : σ → Prop}
    (progress : ∀ s, I s → ¬goal s → ∃ a t, step s a = some t ∧ I t ∧ measure t < measure s)
    {s : σ} (hs : I s) : ∃ w t, run step s w = some t ∧ I t ∧ goal t := by
  induction hn : measure s using Nat.strongRecOn generalizing s with
  | ind n ih =>
    by_cases hgoal : goal s
    · exact ⟨[], s, rfl, hs, hgoal⟩
    · obtain ⟨a, t, hstep, ht, hlt⟩ := progress s hs hgoal
      obtain ⟨w, u, hrun, hu, hreached⟩ := ih (measure t) (hn ▸ hlt) ht rfl
      exact ⟨a :: w, u, run_cons_eq_some.mpr ⟨t, hstep, hrun⟩, hu, hreached⟩

end Semantics.Execution
