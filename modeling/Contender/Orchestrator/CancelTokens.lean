import Contender.Semantics.Cancellation
import Contender.Semantics.Execution
import Mathlib.Data.List.Induction

/-!
# The cancel tokens of a contender

A `Contender` owns a token that cancels everything it has started. Its scenario
works under a child of that token, and so does the flush loop of the scenario.
A run ends by cancelling the scenario's token; `prepare_for_run` then replaces it
for the next run. The replacement is a token of its own and not a child, so from
then on the contender's token does not reach the scenario any more.
-/

namespace Contender

open Semantics

/-- A flush loop that was spawned, with the token it listens on. -/
structure FlushTask where
  token : CancelToken
  running : Bool
  deriving DecidableEq, Repr

/-- The tokens of a scenario: `ctx.cancel_token`, and those of the flush loops of
its message handle, the current one first. -/
structure ScenarioTokens where
  token : CancelToken
  loops : List FlushTask
  deriving DecidableEq, Repr

/-- The life of a contender. It is idle between two calls of `spam`, and gone
after an initialization that failed. -/
inductive ContenderPhase
  | uninitialized
  | initializing
  | gone
  | idle
  | sending
  | flushing
  deriving DecidableEq, Repr

/-- A contender with its context's token. -/
structure ContenderTokens where
  tree : CancelTree
  ctx : CancelToken
  scenario : Option ScenarioTokens
  phase : ContenderPhase
  deriving DecidableEq, Repr

/-- What can happen to the tokens. `restarted` says that the actor could be told
about the new flush loop. -/
inductive TokenEvent
  /-- `TestScenario::new`, called by `initialize`. -/
  | buildScenario
  /-- The initialization is cancelled or fails: the scenario is shut down and
  dropped. -/
  | abortInitialize
  | initialized
  | cancelContext
  /-- A call of `cancel` on the scenario's own token. -/
  | cancelScenario
  /-- `TestScenario::shutdown`: the actors are stopped, then the token is
  cancelled. -/
  | shutdown
  | spamStart (restarted : Bool)
  /-- `spam` returns early, before it cancels the scenario's token. -/
  | spamFail
  | sendingDone
  | flushEnd (loop : Nat)
  | spamEnd (restarted : Bool)
  deriving DecidableEq, Repr

namespace ContenderTokens

/-- A contender that has not been initialized; its context has a fresh token. -/
def init : ContenderTokens where
  tree := ⟨1, []⟩
  ctx := ⟨0, []⟩
  scenario := none
  phase := .uninitialized

variable (s : ContenderTokens)

/-- `prepare_for_run`: a cancelled token is replaced, and the flush loop restarted
under the new one. -/
def prepareForRun (scenario : ScenarioTokens) (restarted : Bool) : ContenderTokens :=
  if s.tree.IsCancelled scenario.token then
    let token := s.tree.fresh
    { s with
      tree := s.tree.grow
      scenario := some {
        token
        -- without an actor the token is replaced, but no loop is spawned
        loops := if restarted then ⟨token, true⟩ :: scenario.loops else scenario.loops } }
  else s

/-- `prepare_for_run` has returned `Ok`. -/
def prepares (scenario : ScenarioTokens) (restarted : Bool) : Bool :=
  !decide (s.tree.IsCancelled scenario.token) || restarted

/-- One step. -/
def step (s : ContenderTokens) (event : TokenEvent) : Option ContenderTokens :=
  match event, s.scenario with
  | .buildScenario, none =>
    if s.phase = .uninitialized then
      let token := s.tree.child s.ctx
      some { s with
        tree := s.tree.grow, scenario := some ⟨token, [⟨token, true⟩]⟩, phase := .initializing }
    else none
  | .abortInitialize, some scenario =>
    if s.phase = .initializing then
      some { s with tree := s.tree.cancel scenario.token, scenario := none, phase := .gone }
    else none
  | .initialized, some _ =>
    if s.phase = .initializing then some { s with phase := .idle } else none
  | .cancelContext, _ => some { s with tree := s.tree.cancel s.ctx }
  | .cancelScenario, some scenario => some { s with tree := s.tree.cancel scenario.token }
  | .shutdown, some scenario => some { s with tree := s.tree.cancel scenario.token }
  | .spamStart restarted, some scenario =>
    if s.phase = .idle then
      some { s.prepareForRun scenario restarted with
        phase := if s.prepares scenario restarted then .sending else .idle }
    else none
  | .spamFail, some _ => if s.phase = .sending then some { s with phase := .idle } else none
  | .sendingDone, some scenario =>
    if s.phase = .sending then
      some { s with tree := s.tree.cancel scenario.token, phase := .flushing }
    else none
  | .flushEnd loop, some scenario =>
    some { s with scenario := some { scenario with
      loops := scenario.loops.modify loop fun task => { task with running := false } } }
  | .spamEnd restarted, some scenario =>
    -- `await_flush` waits for the loop spawned last
    if s.phase = .flushing ∧ ∀ task ∈ scenario.loops.head?, task.running = false then
      some { s.prepareForRun scenario restarted with phase := .idle }
    else none
  | _, _ => none

/-- Cancelling the context's token now would cancel the scenario's token and the
token of every flush loop that runs. -/
def ReachesScenario : Prop :=
  ∀ scenario ∈ s.scenario, (s.tree.cancel s.ctx).IsCancelled scenario.token ∧
    ∀ task ∈ scenario.loops, task.running = true → (s.tree.cancel s.ctx).IsCancelled task.token

/-- `prepare_for_run` is not called with a cancelled token. -/
def KeepsToken (s : ContenderTokens) : TokenEvent → Prop
  | .spamStart _ | .spamEnd _ => ∀ scenario ∈ s.scenario, ¬s.tree.IsCancelled scenario.token
  | _ => True

variable {s t : ContenderTokens} {event : TokenEvent}

/-! ### The tokens of a reachable contender -/

/-- The tree has only cancelled tokens of its own, and both tokens belong to it. -/
structure Sound (s : ContenderTokens) : Prop where
  tree : s.tree.WellFormed
  ctx : s.tree.Holds s.ctx
  scenario : ∀ scenario ∈ s.scenario, s.tree.Holds scenario.token

theorem sound_init : Sound init where
  tree i hi := absurd hi List.not_mem_nil
  ctx i hi := by
    obtain rfl := List.mem_singleton.mp hi
    exact Nat.one_pos
  scenario _ h := by cases h

/-- The scenario's token and those of its flush loops descend from the context's. -/
def Attached (s : ContenderTokens) : Prop :=
  ∀ scenario ∈ s.scenario, s.ctx.id ∈ scenario.token.path ∧
    ∀ task ∈ scenario.loops, s.ctx.id ∈ task.token.path

theorem Attached.reachesScenario (h : s.Attached) : s.ReachesScenario := by
  intro scenario hscenario
  obtain ⟨htoken, hloops⟩ := h scenario hscenario
  exact ⟨CancelTree.isCancelled_cancel.mpr (.inl htoken),
    fun task htask _ => CancelTree.isCancelled_cancel.mpr (.inl (hloops task htask))⟩

/-- A step that keeps the scenario's token: it builds the scenario, cancels a token,
or leaves the tree alone. -/
inductive Change (s t : ContenderTokens) : Prop
  | build (htree : t.tree = s.tree.grow)
      (htoken : t.scenario = some ⟨s.tree.child s.ctx, [⟨s.tree.child s.ctx, true⟩]⟩)
  | cancel (token : CancelToken) (htoken : s.tree.Holds token)
      (htree : t.tree = s.tree.cancel token)
      (hscenario : t.scenario = s.scenario ∨ t.scenario = none)
  | keep (htree : t.tree = s.tree)
      (hscenario : ∀ scenario ∈ t.scenario, ∃ before ∈ s.scenario,
        scenario.token = before.token ∧
        ∀ task ∈ scenario.loops, ∃ old ∈ before.loops, task.token = old.token)

/-- A step that replaces the scenario's token. -/
structure Replaces (s t : ContenderTokens) : Prop where
  tree : t.tree = s.tree.grow
  token : ∃ loops, t.scenario = some ⟨s.tree.fresh, loops⟩

theorem keep_of_eq (htree : t.tree = s.tree) (hscenario : t.scenario = s.scenario) :
    Change s t := by
  refine .keep htree fun scenario h => ⟨scenario, ?_, rfl, fun task htask => ⟨task, htask, rfl⟩⟩
  rwa [hscenario] at h

theorem prepareForRun_cases (s : ContenderTokens) (scenario : ScenarioTokens) (restarted : Bool) :
    s.tree.IsCancelled scenario.token ∧ Replaces s (s.prepareForRun scenario restarted) ∧
        (s.prepareForRun scenario restarted).ctx = s.ctx ∨
      ¬s.tree.IsCancelled scenario.token ∧ s.prepareForRun scenario restarted = s := by
  unfold prepareForRun
  by_cases hcancelled : s.tree.IsCancelled scenario.token
  · rw [if_pos hcancelled]
    exact .inl ⟨hcancelled, ⟨rfl, _, rfl⟩, rfl⟩
  · exact .inr ⟨hcancelled, if_neg hcancelled⟩

/-- The two uses of `prepare_for_run` in `spam`. -/
theorem step_of_prepare {scenario : ScenarioTokens} {restarted : Bool} {phase : ContenderPhase}
    (hscenario : s.scenario = some scenario)
    (hkeeps : s.KeepsToken event ↔ ∀ scenario ∈ s.scenario, ¬s.tree.IsCancelled scenario.token)
    (ht : t = { s.prepareForRun scenario restarted with phase := phase }) :
    t.ctx = s.ctx ∧
      (s.KeepsToken event ∧ Change s t ∨ ¬s.KeepsToken event ∧ Replaces s t) := by
  subst ht
  rw [hkeeps, hscenario]
  rcases prepareForRun_cases s scenario restarted with ⟨hcancelled, hreplaces, hctx⟩ |
    ⟨hcancelled, heq⟩
  · refine ⟨hctx, .inr ⟨fun h => h scenario rfl hcancelled, hreplaces.tree, hreplaces.token⟩⟩
  · refine ⟨by rw [heq], .inl ⟨fun other hother => ?_, keep_of_eq ?_ ?_⟩⟩
    · obtain rfl := Option.some.inj hother
      exact hcancelled
    · rw [heq]
    · rw [heq]

/-- **What a step does to the tokens.** -/
theorem step_cases (hsound : s.Sound) (hstep : s.step event = some t) :
    t.ctx = s.ctx ∧
      (s.KeepsToken event ∧ Change s t ∨ ¬s.KeepsToken event ∧ Replaces s t) := by
  unfold step at hstep
  split at hstep
  case h_1 =>
    split_ifs at hstep
    obtain rfl := Option.some.inj hstep
    exact ⟨rfl, .inl ⟨trivial, .build rfl rfl⟩⟩
  case h_2 scenario hscenario =>
    split_ifs at hstep
    obtain rfl := Option.some.inj hstep
    exact ⟨rfl, .inl ⟨trivial, .cancel _ (hsound.scenario _ hscenario) rfl (.inr rfl)⟩⟩
  case h_3 =>
    split_ifs at hstep
    obtain rfl := Option.some.inj hstep
    exact ⟨rfl, .inl ⟨trivial, keep_of_eq rfl rfl⟩⟩
  case h_4 =>
    obtain rfl := Option.some.inj hstep
    exact ⟨rfl, .inl ⟨trivial, .cancel _ hsound.ctx rfl (.inl rfl)⟩⟩
  case h_5 scenario hscenario =>
    obtain rfl := Option.some.inj hstep
    exact ⟨rfl, .inl ⟨trivial, .cancel _ (hsound.scenario _ hscenario) rfl (.inl rfl)⟩⟩
  case h_6 scenario hscenario =>
    obtain rfl := Option.some.inj hstep
    exact ⟨rfl, .inl ⟨trivial, .cancel _ (hsound.scenario _ hscenario) rfl (.inl rfl)⟩⟩
  case h_7 restarted scenario hscenario =>
    split at hstep
    · exact step_of_prepare hscenario Iff.rfl (Option.some.inj hstep).symm
    · cases hstep
  case h_8 =>
    split_ifs at hstep
    obtain rfl := Option.some.inj hstep
    exact ⟨rfl, .inl ⟨trivial, keep_of_eq rfl rfl⟩⟩
  case h_9 scenario hscenario =>
    split_ifs at hstep
    obtain rfl := Option.some.inj hstep
    exact ⟨rfl, .inl ⟨trivial, .cancel _ (hsound.scenario _ hscenario) rfl (.inl rfl)⟩⟩
  case h_10 loop scenario hscenario =>
    obtain rfl := Option.some.inj hstep
    refine ⟨rfl, .inl ⟨trivial, .keep rfl fun after hafter => ⟨scenario, hscenario, ?_⟩⟩⟩
    obtain rfl := Option.some.inj hafter
    refine ⟨rfl, fun task htask => ?_⟩
    -- a loop that has ended keeps its token
    obtain ⟨k, hk⟩ := List.mem_iff_getElem?.mp htask
    rw [List.getElem?_modify] at hk
    obtain ⟨old, hold, rfl⟩ := Option.map_eq_some_iff.mp hk
    refine ⟨old, List.mem_of_getElem? hold, ?_⟩
    split_ifs <;> rfl
  case h_11 restarted scenario hscenario =>
    split_ifs at hstep
    exact step_of_prepare hscenario Iff.rfl (Option.some.inj hstep).symm
  case h_12 => cases hstep

theorem Sound.step (hsound : s.Sound) (hstep : s.step event = some t) : t.Sound := by
  obtain ⟨hctx, ⟨-, hchange⟩ | ⟨-, hreplaces⟩⟩ := step_cases hsound hstep
  · cases hchange with
    | build htree htoken =>
      refine ⟨?_, ?_, fun scenario hscenario => ?_⟩
      · rw [htree]
        exact hsound.tree.grow
      · rw [htree, hctx]
        exact hsound.ctx.grow
      · rw [htoken] at hscenario
        obtain rfl := Option.some.inj hscenario
        rw [htree]
        exact CancelTree.holds_child hsound.ctx
    | cancel token htoken htree hscenario =>
      refine ⟨?_, ?_, fun scenario h => ?_⟩
      · rw [htree]
        exact hsound.tree.cancel htoken
      · rw [htree, hctx]
        exact hsound.ctx
      · rw [htree]
        rcases hscenario with heq | hnone
        · exact hsound.scenario scenario (heq ▸ h)
        · rw [hnone] at h
          cases h
    | keep htree hscenario =>
      refine ⟨?_, ?_, fun scenario h => ?_⟩
      · rw [htree]
        exact hsound.tree
      · rw [htree, hctx]
        exact hsound.ctx
      · obtain ⟨before, hbefore, htoken, -⟩ := hscenario scenario h
        rw [htree, htoken]
        exact hsound.scenario before hbefore
  · obtain ⟨htree, loops, htoken⟩ := hreplaces
    refine ⟨?_, ?_, fun scenario hscenario => ?_⟩
    · rw [htree]
      exact hsound.tree.grow
    · rw [htree, hctx]
      exact hsound.ctx.grow
    · rw [htoken] at hscenario
      obtain rfl := Option.some.inj hscenario
      rw [htree]
      exact CancelTree.holds_fresh

theorem Attached.of_change (hattached : s.Attached) (hctx : t.ctx = s.ctx)
    (hchange : Change s t) : t.Attached := by
  intro scenario h
  rw [hctx]
  cases hchange with
  | build htree htoken =>
    rw [htoken] at h
    obtain rfl := Option.some.inj h
    -- a child's path goes through its parent
    have hpath : s.ctx.id ∈ (s.tree.child s.ctx).path :=
      List.mem_cons_of_mem _ List.mem_cons_self
    refine ⟨hpath, fun task htask => ?_⟩
    rw [List.mem_singleton.mp htask]
    exact hpath
  | cancel token htoken htree hscenario =>
    rcases hscenario with heq | hnone
    · exact hattached scenario (heq ▸ h)
    · rw [hnone] at h
      cases h
  | keep htree hscenario =>
    obtain ⟨before, hbefore, htoken, hloops⟩ := hscenario scenario h
    obtain ⟨hold, holds⟩ := hattached before hbefore
    refine ⟨htoken ▸ hold, fun task htask => ?_⟩
    obtain ⟨old, hmem, heq⟩ := hloops task htask
    rw [heq]
    exact holds old hmem

/-- A replaced token is out of the context's reach. -/
theorem Replaces.not_reachesScenario (hreplaces : Replaces s t) (hsound : s.Sound)
    (hctx : t.ctx = s.ctx) : ¬t.ReachesScenario := by
  obtain ⟨htree, loops, htoken⟩ := hreplaces
  intro hreaches
  have hcancelled := (hreaches _ htoken).1
  rw [htree, hctx] at hcancelled
  exact CancelTree.not_isCancelled_fresh hsound.tree hsound.ctx hcancelled

theorem sound_of_run {events : List TokenEvent}
    (hrun : Execution.run step init events = some t) : t.Sound :=
  Execution.invariant (fun _ _ _ _ hstep hsound => hsound.step hstep) sound_init hrun
    (Execution.along_true _ _)

/-- As long as no cancelled token is replaced, the scenario stays attached. -/
theorem attached_of_run {events : List TokenEvent}
    (hrun : Execution.run step init events = some t)
    (hkeeps : Execution.Along step KeepsToken init events) : t.Attached := by
  have hinv : t.Sound ∧ t.Attached := by
    refine Execution.invariant (I := fun s => s.Sound ∧ s.Attached)
      (fun s event t hok hstep h => ?_) ⟨sound_init, fun _ hnone => by cases hnone⟩ hrun hkeeps
    obtain ⟨hctx, ⟨-, hchange⟩ | ⟨hreplaced, -⟩⟩ := step_cases h.1 hstep
    · exact ⟨h.1.step hstep, h.2.of_change hctx hchange⟩
    · exact absurd hok hreplaced
  exact hinv.2

/-- **Cancellation from the context.** Over every sequence of initialization, spam
runs, cancellations and shutdowns, the context's token reaches the scenario in every
state exactly when `prepare_for_run` never finds the scenario's token cancelled. -/
theorem reachesScenario_iff {events : List TokenEvent}
    (hrun : Execution.run step init events = some t) :
    (∀ past u, past <+: events → Execution.run step init past = some u → u.ReachesScenario) ↔
      Execution.Along step KeepsToken init events := by
  constructor
  · intro hreaches
    induction events using List.reverseRecOn generalizing t with
    | nil => trivial
    | append_singleton events event ih =>
      obtain ⟨u, hu, hlast⟩ := Execution.run_append_eq_some.mp hrun
      rw [Execution.run_singleton] at hlast
      have hpast := ih hu fun past v hpre =>
        hreaches past v (hpre.trans (List.prefix_append events [event]))
      refine hpast.append hu ⟨?_, fun _ _ => trivial⟩
      have hsound := sound_of_run hu
      obtain ⟨hctx, ⟨hkeeps, -⟩ | ⟨-, hreplaces⟩⟩ := step_cases hsound hlast
      · exact hkeeps
      · exact absurd (hreaches _ t List.prefix_rfl hrun)
          (hreplaces.not_reachesScenario hsound hctx)
  · rintro hkeeps past u ⟨rest, rfl⟩ hpast
    exact (attached_of_run hpast hkeeps.left).reachesScenario

/-- A contender in its first spam run. -/
def firstRun : List TokenEvent := [.buildScenario, .initialized, .spamStart true]

/-- The first run can be cancelled from the context. -/
theorem reachesScenario_of_firstRun :
    ∃ t, Execution.run step init firstRun = some t ∧ t.ReachesScenario := by
  have hrun : (Execution.run step init firstRun).isSome := by decide
  obtain ⟨t, ht⟩ := Option.isSome_iff_exists.mp hrun
  have hkeeps : Execution.Along step KeepsToken init firstRun := by
    refine ⟨trivial, fun s hs => ⟨trivial, fun u hu => ⟨?_, fun _ _ => trivial⟩⟩⟩
    obtain rfl := Option.some.inj hs
    obtain rfl := Option.some.inj hu
    intro scenario hscenario
    obtain rfl := Option.some.inj hscenario
    decide
  exact ⟨t, ht, (reachesScenario_iff ht).mpr hkeeps _ t List.prefix_rfl ht⟩

/-- After the first run has ended, cancelling the context leaves the scenario's token
as it is. -/
theorem not_reachesScenario_of_secondRun :
    ∃ t, Execution.run step init
        (firstRun ++ [.sendingDone, .flushEnd 0, .spamEnd true, .spamStart true]) = some t ∧
      ¬t.ReachesScenario := by
  refine ⟨_, rfl, fun h => ?_⟩
  have hcancelled := (h _ rfl).1
  exact absurd hcancelled (by decide)

end ContenderTokens

end Contender
