import Contender.Generator.SetupSchedule

/-!
# The order in which setup tasks run

`load_txs` chains the setup tasks of a sender so that they run one after another.
But the callback has already spawned the task when it is chained: the chain
orders the ends of the tasks and not their starts. The only thing a task body
waits for is a permit of the semaphore, which any task may take first.

## Main results

* `runsInTurn_iff` — the tasks of each sender run one after another under every
  schedule exactly when no sender has two of them
-/

namespace Contender

namespace SetupTasks

variable {t : SetupTasks}

/-- The tasks that hold a permit: their body has begun and has not ended. -/
def State.running (s : State) : List Nat := s.begun.filter (· ∉ s.finished)

/-- The semaphore of `run_setup`: a body begins only while fewer than `limit`
bodies run. -/
def HasPermit (limit : Nat) (s : State) : Event → Prop
  | .begin _ => s.running.length < limit
  | _ => True

instance (limit : Nat) (s : State) (e : Event) : Decidable (HasPermit limit s e) :=
  match e with
  | .begin _ => inferInstanceAs (Decidable (_ < _))
  | .load | .finish _ | .join _ | .await => isTrue trivial

/-- A body begins only after the task before it of the same sender has ended. -/
def InTurn (t : SetupTasks) (s : State) : Event → Prop
  | .begin i => ∀ j ∈ t.prev i, j ∈ s.finished
  | _ => True

instance (s : State) (e : Event) : Decidable (t.InTurn s e) :=
  match e with
  | .begin i => inferInstanceAs (Decidable (∀ j ∈ t.prev i, j ∈ s.finished))
  | .load | .finish _ | .join _ | .await => isTrue trivial

/-- Under every schedule that the semaphore allows, the tasks of each sender run
one after another. -/
def RunsInTurn (t : SetupTasks) (limit : Nat) : Prop :=
  ∀ w s, Semantics.Execution.run t.step .initial w = some s →
    Semantics.Execution.Along t.step (HasPermit limit) .initial w →
      Semantics.Execution.Along t.step t.InTurn .initial w

/-- Only a task with a follower of the same sender is waited for. -/
theorem superseded_of_prev {i j : Nat} (hj : j ∈ t.prev i) : t.Superseded j := by
  obtain ⟨link, hlink, hprev⟩ := Option.bind_eq_some_iff.mp hj
  obtain ⟨hi, -⟩ := List.getElem?_eq_some_iff.mp hlink
  refine ⟨i, prev_lt hj, hi, ?_⟩
  -- the link before `i` holds the key of `i`
  have hlast := ((t.chain.prev_iff i link hlink j).mp hprev).1
  have hlt : j < i := prev_lt hj
  rw [List.map_take, List.getElem?_take, if_pos hlt, List.getElem?_map] at hlast
  rw [hlast, hlink, Option.map_some]

/-- A follower waits for a task of its sender. -/
theorem prev_isSome_of_superseded {i : Nat} (hi : t.Superseded i) :
    ∃ j < t.count, ∃ k, k ∈ t.prev j := by
  obtain ⟨j, hij, hj, hsame⟩ := hi
  have hlink : t.chain.links[j]? = some t.chain.links[j] := List.getElem?_eq_getElem hj
  refine ⟨j, hj, ?_⟩
  by_contra hnone
  -- without a link back, no earlier task has the sender of `j`
  have hprev : t.chain.links[j].prev = none := by
    refine Option.eq_none_iff_forall_not_mem.mpr fun k hk => hnone ⟨k, ?_⟩
    rw [SetupTasks.prev, hlink, Option.bind_some]
    exact hk
  have hkey : ((t.chain.links.take j).map ChainLink.key)[i]? = some t.chain.links[j].key := by
    rw [List.map_take, List.getElem?_take, if_pos hij, List.getElem?_map, ← hsame, hlink,
      Option.map_some]
  obtain ⟨k, hk⟩ := List.exists_isLastIdx_of_mem (List.mem_of_getElem? hkey)
  rw [(t.chain.prev_iff j _ hlink k).mpr hk] at hprev
  cases hprev

/-- Loading can start all tasks before any of them begins. -/
theorem run_load {n : Nat} (hn : n ≤ t.count) :
    Semantics.Execution.run t.step .initial (List.replicate n .load) =
      some ⟨.loading, n, [], [], []⟩ := by
  induction n with
  | zero => rfl
  | succ n ih =>
    rw [List.replicate_succ', Semantics.Execution.run_append_eq_some]
    refine ⟨_, ih (Nat.le_of_succ_le hn), ?_⟩
    rw [Semantics.Execution.run_singleton]
    exact congrArg some (if_pos (show n < t.count from hn))

/-- A task with a follower can always be overtaken by it, since the body of the
follower needs only a permit to begin. -/
theorem runsInTurn_iff_of_tasks (t : SetupTasks) (limit : Nat) :
    t.RunsInTurn limit ↔ limit = 0 ∨ ∀ i < t.count, ¬t.Superseded i := by
  constructor
  · intro hturn
    by_contra hcond
    push Not at hcond
    obtain ⟨hlimit, i, hi, hsuper⟩ := hcond
    obtain ⟨j, hj, k, hk⟩ := prev_isSome_of_superseded hsuper
    -- all tasks are started, and the follower takes the first permit
    have hload := run_load (le_refl t.count)
    have hbegin : t.step ⟨.loading, t.count, [], [], []⟩ (.begin j) =
        some ⟨.loading, t.count, [j], [], []⟩ :=
      if_pos ⟨hj, List.not_mem_nil⟩
    have hpermits : Semantics.Execution.Along t.step (HasPermit limit) .initial
        (List.replicate t.count .load ++ [.begin j]) := by
      refine Semantics.Execution.Along.append
        (Semantics.Execution.along_of_forall fun e he s => ?_) hload ⟨?_, fun _ _ => trivial⟩
      · rw [List.eq_of_mem_replicate he]
        trivial
      · exact Nat.pos_of_ne_zero hlimit
    have hrun := Semantics.Execution.run_append_eq_some.mpr
      ⟨_, hload, (Semantics.Execution.run_singleton _ _).trans hbegin⟩
    have hwrong := (hturn _ _ hrun hpermits).right hload
    exact absurd (hwrong.1 k hk) List.not_mem_nil
  · rintro hcond w s hrun hpermits
    refine Semantics.Execution.Along.mono (fun s e hpermit => ?_) hpermits
    cases e with
    | begin i =>
      intro j hj
      rcases hcond with rfl | hsingle
      · exact absurd hpermit (Nat.not_lt_zero _)
      · have hlt : j < t.count := by
          obtain ⟨m, hjm, hm, -⟩ := superseded_of_prev hj
          exact hjm.trans hm
        exact absurd (superseded_of_prev hj) (hsingle j hlt)
    | load => trivial
    | finish i => trivial
    | join i => trivial
    | await => trivial

end SetupTasks

namespace Generator

open SetupTasks

/-- **Tasks in turn.** For every list of setup steps, the setup tasks of each
sender run one after another under every schedule exactly when no sender has two
setup tasks, or the semaphore lets no task run at all. -/
theorem runsInTurn_iff (g : Generator) (env : SetupEnv) (outcome : Nat → TaskOutcome)
    (limit : Nat) :
    (g.setupTasks env outcome).RunsInTurn limit ↔
      limit = 0 ∨ ∀ i < (g.setupTasks env outcome).count,
        ¬(g.setupTasks env outcome).Superseded i :=
  runsInTurn_iff_of_tasks _ limit

namespace OneSender

/-- The body of the second task begins before the first task has begun. -/
theorem not_runsInTurn_of_twoSteps :
    ¬(twoSteps.setupTasks env fun _ => .ok).RunsInTurn 25 := by
  have hrun : (Semantics.Execution.run (twoSteps.setupTasks env fun _ => .ok).step .initial
      [.load, .load, .begin 1]).isSome := by
    decide +kernel
  have hpermits : Semantics.Execution.Along (twoSteps.setupTasks env fun _ => .ok).step
      (HasPermit 25) .initial [.load, .load, .begin 1] := by
    decide +kernel
  have hwrong : ¬Semantics.Execution.Along (twoSteps.setupTasks env fun _ => .ok).step
      (twoSteps.setupTasks env fun _ => .ok).InTurn .initial [.load, .load, .begin 1] := by
    decide +kernel
  obtain ⟨s, hs⟩ := Option.isSome_iff_exists.mp hrun
  exact fun hturn => hwrong (hturn _ s hs hpermits)

end OneSender

end Generator

end Contender
