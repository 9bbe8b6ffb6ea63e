import Contender.Generator.SetupPlan
import Contender.Semantics.Execution
import Mathlib.Data.List.Sort

/-!
# Scheduling the setup tasks

The tasks that the setup callback starts run beside the loop that starts them. A
chained task ends once the chained task before it has ended, with whatever
result, and the callback's own task has ended; `load_txs` then awaits the last
chained task of each sender. This file models the schedule as a transition
function over events. No schedule gets stuck before `load_txs` returns
(`exists_step_of_run`), and when it returns `Ok` every task has ended; but a failure
of a task that is followed by another task of its sender is never reported.
-/

namespace Contender

/-- The execution requests and the nonce map. -/
abbrev Loaded := List ExecutionRequest × AssocMap Address Nat

/-- What is scheduled: the chained tasks in the order of their start, how loading
ends, and how the callback's tasks end. -/
structure SetupTasks where
  chain : KeyedChain Address NamedTxRequest
  loaded : Except SetupError Loaded
  outcome : Nat → TaskOutcome

/-- The tasks of a scenario's setup steps. -/
def Generator.setupTasks (g : Generator) (env : SetupEnv) (outcome : Nat → TaskOutcome) :
    SetupTasks where
  chain := (g.runLoadSetup env).state.chains
  loaded :=
    match g.runLoadSetup env with
    | .ok _ s => .ok (s.txs, s.nextNonce)
    | .error e _ => .error e
  outcome := outcome

namespace SetupTasks

/-- Where `load_txs` is: in the loops, awaiting the listed chained tasks, or
returned. -/
inductive Main
  | loading
  | awaiting (loaded : Loaded) (handles : List Nat)
  | returned (result : Except SetupError Loaded)

/-- The first `issued` tasks have been started by the callback. The lists hold
the callback's tasks whose body has begun, those that have ended, and the chained
tasks that have ended. -/
structure State where
  main : Main
  issued : Nat
  begun : List Nat
  finished : List Nat
  joined : List Nat

def State.initial : State := ⟨.loading, 0, [], [], []⟩

inductive Event
  | load
  | begin (i : Nat)
  | finish (i : Nat)
  | join (i : Nat)
  | await
  deriving DecidableEq, Repr

variable (t : SetupTasks)

def count : Nat := t.chain.links.length

/-- The chained task that chained task `i` awaits first. -/
def prev (i : Nat) : Option Nat := t.chain.links[i]?.bind ChainLink.prev

/-- `pending_sorted`: the last chained task of each sender, by address. -/
def pendingSorted : List Nat :=
  (t.chain.ends.entries.insertionSort fun a b => a.1 ≤ b.1).map Sigma.snd

/-- Loading starts the next task, or is over. -/
def loadNext (s : State) : State :=
  if s.issued < t.count then { s with issued := s.issued + 1 }
  else
    match t.loaded with
    | .ok loaded => { s with main := .awaiting loaded t.pendingSorted }
    | .error e => { s with main := .returned (.error e) }

/-- `load_txs` after a chained task it awaited. -/
def awaited (loaded : Loaded) (i : Nat) (handles : List Nat) : Main :=
  match (t.outcome i).join with
  | .ok _ => .awaiting loaded handles
  | .error e => .returned (.error e)

/-- Whether chained task `i` can end: the one before it has ended, and so has the
callback's own task. -/
def CanJoin (s : State) (i : Nat) : Prop :=
  i < s.issued ∧ (∀ j ∈ t.prev i, j ∈ s.joined) ∧ i ∈ s.finished

instance (s : State) (i : Nat) : Decidable (t.CanJoin s i) :=
  inferInstanceAs (Decidable (_ ∧ _ ∧ _))

def step (s : State) : Event → Option State
  | .load =>
    match s.main with
    | .loading => some (t.loadNext s)
    | _ => none
  -- the callback's task is spawned before it is chained, so nothing holds it back
  | .begin i =>
    if i < s.issued ∧ i ∉ s.begun then some { s with begun := i :: s.begun } else none
  | .finish i =>
    if i ∈ s.begun ∧ i ∉ s.finished then some { s with finished := i :: s.finished } else none
  | .join i =>
    if t.CanJoin s i ∧ i ∉ s.joined then some { s with joined := i :: s.joined } else none
  | .await =>
    match s.main with
    | .awaiting loaded [] => some { s with main := .returned (.ok loaded) }
    | .awaiting loaded (i :: handles) =>
      if i ∈ s.joined then some { s with main := t.awaited loaded i handles } else none
    | _ => none

/-! ### What a step can do -/

/-- The cases of `step`, with their guards. -/
inductive Move (s : State) : State → Prop
  | load (hmain : s.main = .loading) : Move s (t.loadNext s)
  | begin (i : Nat) (hissued : i < s.issued) : Move s { s with begun := i :: s.begun }
  | finish (i : Nat) (hbegun : i ∈ s.begun) : Move s { s with finished := i :: s.finished }
  | join (i : Nat) (hjoin : t.CanJoin s i) : Move s { s with joined := i :: s.joined }
  | awaitNone (loaded : Loaded) (hmain : s.main = .awaiting loaded []) :
      Move s { s with main := .returned (.ok loaded) }
  | awaitNext (loaded : Loaded) (i : Nat) (handles : List Nat)
      (hmain : s.main = .awaiting loaded (i :: handles)) (hjoined : i ∈ s.joined) :
      Move s { s with main := t.awaited loaded i handles }

variable {t} {s s' : State}

theorem move_of_step {e : Event} (h : t.step s e = some s') : t.Move s s' := by
  cases e with
  | load =>
    simp only [step] at h
    split at h
    case h_1 hmain =>
      obtain rfl := Option.some.inj h
      exact .load hmain
    case h_2 => cases h
  | begin i =>
    obtain ⟨hguard, h⟩ := Option.ite_none_right_eq_some.mp h
    obtain rfl := Option.some.inj h
    exact .begin i hguard.1
  | finish i =>
    obtain ⟨hguard, h⟩ := Option.ite_none_right_eq_some.mp h
    obtain rfl := Option.some.inj h
    exact .finish i hguard.1
  | join i =>
    obtain ⟨hguard, h⟩ := Option.ite_none_right_eq_some.mp h
    obtain rfl := Option.some.inj h
    exact .join i hguard.1
  | await =>
    simp only [step] at h
    split at h
    case h_1 loaded hmain =>
      obtain rfl := Option.some.inj h
      exact .awaitNone loaded hmain
    case h_2 loaded i handles hmain =>
      obtain ⟨hjoined, h⟩ := Option.ite_none_right_eq_some.mp h
      obtain rfl := Option.some.inj h
      exact .awaitNext loaded i handles hmain hjoined
    case h_3 => cases h

/-- An invariant of the moves holds in every state a schedule reaches. -/
theorem run_invariant {I : State → Prop} (hinit : I .initial)
    (hmove : ∀ s s', t.Move s s' → I s → I s') {w : List Event}
    (hrun : Semantics.Execution.run t.step .initial w = some s) : I s :=
  Semantics.Execution.invariant (fun _ _ _ _ hstep => hmove _ _ (move_of_step hstep)) hinit hrun
    (Semantics.Execution.along_true _ _)

/-! ### Ended tasks -/

/-- A chained task that has ended was preceded by its callback task and by the
chained task before it. -/
structure JoinedInOrder (t : SetupTasks) (s : State) : Prop where
  finished : ∀ i ∈ s.joined, i ∈ s.finished
  prev : ∀ i ∈ s.joined, ∀ j ∈ t.prev i, j ∈ s.joined

/-- The invariant reads the two lists of ended tasks only. -/
theorem JoinedInOrder.congr (h : t.JoinedInOrder s) (hfinished : s'.finished = s.finished)
    (hjoined : s'.joined = s.joined) : t.JoinedInOrder s' := by
  refine ⟨?_, ?_⟩
  · rw [hfinished, hjoined]
    exact h.finished
  · rw [hjoined]
    exact h.prev

theorem loadNext_lists (t : SetupTasks) (s : State) :
    (t.loadNext s).finished = s.finished ∧ (t.loadNext s).joined = s.joined := by
  unfold loadNext
  split_ifs
  · exact ⟨rfl, rfl⟩
  · split <;> exact ⟨rfl, rfl⟩

theorem JoinedInOrder.move (hmove : t.Move s s') (h : t.JoinedInOrder s) :
    t.JoinedInOrder s' := by
  cases hmove with
  | load hmain => exact h.congr (loadNext_lists t s).1 (loadNext_lists t s).2
  | begin i hissued => exact h.congr rfl rfl
  | finish i hbegun => exact ⟨fun j hj => List.mem_cons_of_mem _ (h.finished j hj), h.prev⟩
  | join i hjoin =>
    obtain ⟨-, hprev, hfinished⟩ := hjoin
    refine ⟨fun j hj => ?_, fun j hj m hm => List.mem_cons_of_mem _ ?_⟩
    · rcases List.mem_cons.mp hj with rfl | hj
      · exact hfinished
      · exact h.finished j hj
    · rcases List.mem_cons.mp hj with rfl | hj
      · exact hprev m hm
      · exact h.prev j hj m hm
  | awaitNone loaded hmain => exact h.congr rfl rfl
  | awaitNext loaded i handles hmain hjoined => exact h.congr rfl rfl

theorem joinedInOrder_of_run {w : List Event}
    (hrun : Semantics.Execution.run t.step .initial w = some s) : t.JoinedInOrder s := by
  refine run_invariant ?_ (fun _ _ hmove h => h.move hmove) hrun
  constructor <;> exact fun i hi => absurd hi List.not_mem_nil

/-! ### What `load_txs` has seen -/

/-- A chained task that `load_txs` awaited without an error. -/
def SeenOk (t : SetupTasks) (s : State) (i : Nat) : Prop := i ∈ s.joined ∧ t.outcome i = .ok

/-- What the position of `load_txs` says about the tasks. -/
def MainSound (t : SetupTasks) (s : State) : Prop :=
  match s.main with
  | .loading => True
  | .awaiting loaded handles => t.loaded = .ok loaded ∧
    ∃ seen, t.pendingSorted = seen ++ handles ∧ ∀ i ∈ seen, t.SeenOk s i
  | .returned (.ok loaded) => t.loaded = .ok loaded ∧ ∀ i ∈ t.pendingSorted, t.SeenOk s i
  | .returned (.error _) => (∀ loaded, t.loaded ≠ .ok loaded) ∨
    ∃ i ∈ t.pendingSorted, t.outcome i ≠ .ok

/-- More ended tasks do not hurt. -/
theorem MainSound.mono (h : t.MainSound s) (hmain : s'.main = s.main)
    (hjoined : s.joined ⊆ s'.joined) : t.MainSound s' := by
  have hseen : ∀ i, t.SeenOk s i → t.SeenOk s' i := fun i hi => ⟨hjoined hi.1, hi.2⟩
  unfold MainSound at h ⊢
  rw [hmain]
  split at h
  case h_1 => trivial
  case h_2 =>
    obtain ⟨hloaded, seen, hsplit, hall⟩ := h
    exact ⟨hloaded, seen, hsplit, fun i hi => hseen i (hall i hi)⟩
  case h_3 => exact ⟨h.1, fun i hi => hseen i (h.2 i hi)⟩
  case h_4 => exact h

theorem MainSound.loadNext (hmain : s.main = .loading) : t.MainSound (t.loadNext s) := by
  unfold SetupTasks.loadNext
  split_ifs
  · simp only [MainSound, hmain]
  · split
    case h_1 loaded hloaded =>
      exact ⟨hloaded, [], rfl, fun i hi => absurd hi List.not_mem_nil⟩
    -- loading stopped: the started tasks are no longer awaited
    case h_2 e hloaded =>
      exact .inl fun loaded hok => by simp [hloaded] at hok

theorem join_eq_ok {o : TaskOutcome} {u : Unit} : o.join = .ok u ↔ o = .ok := by
  cases o <;> simp [TaskOutcome.join]

theorem MainSound.awaited {loaded : Loaded} {i : Nat} {handles : List Nat} (h : t.MainSound s)
    (hmain : s.main = .awaiting loaded (i :: handles)) (hjoined : i ∈ s.joined) :
    t.MainSound { s with main := t.awaited loaded i handles } := by
  simp only [MainSound, hmain] at h
  obtain ⟨hloaded, seen, hsplit, hall⟩ := h
  unfold SetupTasks.awaited
  split
  case h_1 u hok =>
    refine ⟨hloaded, seen ++ [i], by rw [hsplit, List.append_assoc, List.singleton_append],
      fun j hj => ?_⟩
    rcases List.mem_append.mp hj with hj | hj
    · exact hall j hj
    · obtain rfl := List.mem_singleton.mp hj
      exact ⟨hjoined, join_eq_ok.mp hok⟩
  case h_2 e herror =>
    -- an awaited task is the last of its sender
    refine .inr ⟨i, by rw [hsplit]; simp, fun hok => ?_⟩
    rw [join_eq_ok (u := ()).mpr hok] at herror
    cases herror

theorem MainSound.move (hmove : t.Move s s') (h : t.MainSound s) : t.MainSound s' := by
  cases hmove with
  | load hmain => exact .loadNext hmain
  | begin i hissued => exact h.mono rfl (List.Subset.refl _)
  | finish i hbegun => exact h.mono rfl (List.Subset.refl _)
  | join i hjoin => exact h.mono rfl (List.subset_cons_self _ _)
  | awaitNone loaded hmain =>
    simp only [MainSound, hmain] at h
    obtain ⟨hloaded, seen, hsplit, hall⟩ := h
    rw [List.append_nil] at hsplit
    exact ⟨hloaded, fun i hi => hall i (hsplit ▸ hi)⟩
  | awaitNext loaded i handles hmain hjoined => exact h.awaited hmain hjoined

theorem mainSound_of_run {w : List Event}
    (hrun : Semantics.Execution.run t.step .initial w = some s) : t.MainSound s :=
  run_invariant trivial (fun _ _ hmove h => h.move hmove) hrun

/-! ### The awaited tasks -/

/-- A later task has the same sender. -/
def Superseded (t : SetupTasks) (i : Nat) : Prop :=
  ∃ j, i < j ∧ j < t.count ∧
    t.chain.links[j]?.map ChainLink.key = t.chain.links[i]?.map ChainLink.key

theorem mem_pendingSorted_iff_end {i : Nat} :
    i ∈ t.pendingSorted ↔ ∃ a, t.chain.ends.lookup a = some i := by
  rw [← AList.mem_values, pendingSorted, AList.values]
  simp only [List.mem_map, List.mem_insertionSort]

/-- The awaited tasks are the last ones of their senders. -/
theorem mem_pendingSorted {i : Nat} : i ∈ t.pendingSorted ↔ i < t.count ∧ ¬t.Superseded i := by
  have hkeys : ∀ j, (t.chain.links.map ChainLink.key)[j]? = t.chain.links[j]?.map ChainLink.key :=
    fun j => List.getElem?_map
  rw [mem_pendingSorted_iff_end]
  constructor
  · rintro ⟨a, ha⟩
    have hlast := (t.chain.ends_iff a i).mp ha
    refine ⟨lt_of_lt_of_eq hlast.lt_length (List.length_map _), ?_⟩
    rintro ⟨j, hij, -, hsame⟩
    apply hlast.2 j hij
    rw [hkeys, hsame, ← hkeys, hlast.1]
  · rintro ⟨hlt, hlast⟩
    have hlink : t.chain.links[i]? = some t.chain.links[i] := List.getElem?_eq_getElem hlt
    refine ⟨t.chain.links[i].key, (t.chain.ends_iff _ i).mpr ⟨by simp [hlink], fun j hij hj => ?_⟩⟩
    rw [hkeys] at hj
    obtain ⟨link, hlink', -⟩ := Option.map_eq_some_iff.mp hj
    obtain ⟨hjlt, -⟩ := List.getElem?_eq_some_iff.mp hlink'
    exact hlast ⟨j, hij, hjlt, by rw [hj, hlink, Option.map_some]⟩

/-! ### The schedule never gets stuck -/

/-- Once `load_txs` awaits tasks, all of them have been started. -/
def AllIssued (t : SetupTasks) (s : State) : Prop :=
  ∀ loaded handles, s.main = .awaiting loaded handles → t.count ≤ s.issued

theorem AllIssued.move (hmove : t.Move s s') (h : t.AllIssued s) : t.AllIssued s' := by
  cases hmove with
  | load hmain =>
    unfold SetupTasks.loadNext
    split_ifs with hmore
    · intro loaded handles hawaiting
      rw [hmain] at hawaiting
      cases hawaiting
    · split
      case h_1 => exact fun _ _ _ => Nat.le_of_not_lt hmore
      case h_2 => exact fun _ _ hawaiting => nomatch hawaiting
  | begin i hissued => exact h
  | finish i hbegun => exact h
  | join i hjoin => exact h
  | awaitNone loaded hmain => exact fun _ _ hawaiting => nomatch hawaiting
  | awaitNext loaded i handles hmain hjoined => exact fun _ _ _ => h loaded (i :: handles) hmain

theorem prev_lt {i j : Nat} (hj : j ∈ t.prev i) : j < i := by
  obtain ⟨link, hlink, hprev⟩ := Option.bind_eq_some_iff.mp hj
  exact t.chain.prev_lt hlink hprev

/-- Whatever chained task has not ended, something can happen on its behalf. -/
theorem exists_step_of_not_joined {i : Nat} (hissued : i < s.issued) (hjoined : i ∉ s.joined) :
    ∃ e s', t.step s e = some s' := by
  -- the chain before the task leads back to one that nothing holds up
  induction i using Nat.strong_induction_on with
  | _ i ih =>
    by_cases hbegun : i ∈ s.begun
    · by_cases hfinished : i ∈ s.finished
      · by_cases hprev : ∀ j ∈ t.prev i, j ∈ s.joined
        · exact ⟨.join i, _, if_pos ⟨⟨hissued, hprev, hfinished⟩, hjoined⟩⟩
        · push Not at hprev
          obtain ⟨j, hj, hwaits⟩ := hprev
          have hlt := prev_lt hj
          exact ih j hlt (hlt.trans hissued) hwaits
      · exact ⟨.finish i, _, if_pos ⟨hbegun, hfinished⟩⟩
    · exact ⟨.begin i, _, if_pos ⟨hissued, hbegun⟩⟩

/-- **Progress.** Until `load_txs` returns, some task or `load_txs` itself can go
on. -/
theorem exists_step_of_run {w : List Event}
    (hrun : Semantics.Execution.run t.step .initial w = some s)
    (hrunning : ∀ result, s.main ≠ .returned result) : ∃ e s', t.step s e = some s' := by
  have hissued : t.AllIssued s :=
    run_invariant (fun _ _ h => nomatch h) (fun _ _ hmove h => h.move hmove) hrun
  have hsound := mainSound_of_run hrun
  cases hmain : s.main with
  | loading => exact ⟨.load, t.loadNext s, by simp only [step, hmain]⟩
  | returned result => exact absurd hmain (hrunning result)
  | awaiting loaded handles =>
    cases handles with
    | nil =>
      exact ⟨.await, { s with main := .returned (.ok loaded) }, by simp only [step, hmain]⟩
    | cons i handles =>
      by_cases hjoined : i ∈ s.joined
      · exact ⟨.await, { s with main := t.awaited loaded i handles },
          by simp only [step, hmain, if_pos hjoined]⟩
      · simp only [MainSound, hmain] at hsound
        obtain ⟨-, seen, hsplit, -⟩ := hsound
        have hlast : i ∈ t.pendingSorted := by rw [hsplit]; simp
        have hlt := (mem_pendingSorted.mp hlast).1
        exact exists_step_of_not_joined (hlt.trans_le (hissued _ _ hmain)) hjoined

/-! ### Which failures are reported -/

/-- `load_txs` returns `Ok` only when every task of the callback has ended with
`Ok`. -/
def ReportsFailures (t : SetupTasks) (s : State) : Prop :=
  ∀ loaded, s.main = .returned (.ok loaded) →
    ∀ i < t.count, i ∈ s.finished ∧ t.outcome i = .ok

/-- Loading fails, or the last task of a sender does, or no other task does. -/
def FailsLast (t : SetupTasks) : Prop :=
  (∀ loaded, t.loaded ≠ .ok loaded) ∨
    (∃ i < t.count, ¬t.Superseded i ∧ t.outcome i ≠ .ok) ∨
      ∀ i < t.count, t.Superseded i → t.outcome i = .ok

/-- Once the last tasks have been awaited, every task has ended. -/
theorem JoinedInOrder.joined_all (h : t.JoinedInOrder s)
    (hpending : ∀ i ∈ t.pendingSorted, i ∈ s.joined) : ∀ i < t.count, i ∈ s.joined := by
  refine t.chain.induction_from_ends (fun a i hi => hpending i ?_) (fun i link j hlink hj hi => ?_)
  · exact mem_pendingSorted_iff_end.mpr ⟨a, hi⟩
  · apply h.prev i hi j
    rw [SetupTasks.prev, hlink, Option.bind_some, hj]
    rfl

theorem reportsFailures_iff_failsLast {w : List Event} {result : Except SetupError Loaded}
    (hrun : Semantics.Execution.run t.step .initial w = some s)
    (hreturned : s.main = .returned result) : t.ReportsFailures s ↔ t.FailsLast := by
  have hsound := mainSound_of_run hrun
  have horder := joinedInOrder_of_run hrun
  simp only [MainSound, hreturned] at hsound
  constructor
  · intro hreports
    cases result with
    | ok loaded => exact .inr (.inr fun i hi _ => (hreports loaded hreturned i hi).2)
    | error e =>
      rcases hsound with hloaded | ⟨i, hi, hfails⟩
      · exact .inl hloaded
      · obtain ⟨hlt, hlast⟩ := mem_pendingSorted.mp hi
        exact .inr (.inl ⟨i, hlt, hlast, hfails⟩)
  · intro hcond loaded hmain i hi
    obtain rfl : result = .ok loaded := by
      rw [hreturned] at hmain
      exact Main.returned.inj hmain
    obtain ⟨hloaded, hseen⟩ := hsound
    -- every task has ended, since the last ones have
    have hjoined := horder.joined_all fun i hi => (hseen i hi).1
    refine ⟨horder.finished i (hjoined i hi), ?_⟩
    by_cases hsuper : t.Superseded i
    · rcases hcond with hfails | ⟨j, hj, hlast, hfails⟩ | hothers
      · exact absurd hloaded (hfails loaded)
      · exact absurd (hseen j (mem_pendingSorted.mpr ⟨hj, hlast⟩)).2 hfails
      · exact hothers i hi hsuper
    · exact (hseen i (mem_pendingSorted.mpr ⟨hi, hsuper⟩)).2

end SetupTasks

namespace Generator

open SetupTasks

/-- **Reported failures.** Under every schedule, `load_txs(PlanType::Setup)`
reports every failure exactly when no failure is hidden behind a later task of
the same sender, or an error is returned anyway. -/
theorem reportsFailures_iff (g : Generator) (env : SetupEnv) (outcome : Nat → TaskOutcome)
    {w : List Event} {s : State} {result : Except SetupError Loaded}
    (hrun : Semantics.Execution.run (g.setupTasks env outcome).step .initial w = some s)
    (hreturned : s.main = .returned result) :
    (g.setupTasks env outcome).ReportsFailures s ↔ (g.setupTasks env outcome).FailsLast :=
  reportsFailures_iff_failsLast hrun hreturned

namespace OneSender

def account : Text := "0x000000000000000000000000000000000000dEaD".toList

/-- The libraries on a plain transfer from the account to itself. -/
def foreign : Foreign where
  keccak256 _ := 0
  toLowercase := List.map Char.toLower
  isNumeric := Char.isDigit
  parseAddress text := if text = account then some 0xdead else none
  addressToString _ := account
  parseU256 _ := none
  parseUnits _ _ := .error []
  parseFunction _ := .error []
  encodeInput _ _ := .error []
  fromHex _ := none
  buildSidecar _ := none
  signFails _ _ := none
  g1Point _ := (0, 0)
  g2Point _ := (0, 0, 0, 0)

def transfer : FunctionCallDefinition where
  toAddr := account
  fromAddr := some account

/-- A scenario with two setup steps of one sender. -/
def twoSteps : Generator where
  foreign := foreign
  env := ∅
  setupSteps := [transfer, transfer]
  spamSteps := []
  fuzzSeeder := ⟨0⟩
  agents := ∅
  nonces := ∅
  setcodeSigner := ⟨1, 1⟩
  chainId := 1
  source := { getNamedTx := fun _ => .ok none, scenarioLabel := none }

/-- A node that knows the sender, and a callback that always starts a task. -/
def env : SetupEnv where
  database _ _ _ := .ok none
  transactionCount _ := .ok 5
  onSetupStep _ := .ok true

/-- The first setup transaction is reverted. -/
def firstReverts (i : Nat) : TaskOutcome :=
  if i = 0 then .failed "setup tx reverted".toList else .ok

/-- The last setup transaction is reverted. -/
def lastReverts (i : Nat) : TaskOutcome :=
  if i = 1 then .failed "setup tx reverted".toList else .ok

/-- Both tasks run to their end before `load_txs` awaits the second. -/
def schedule : List Event :=
  [.load, .load, .load, .begin 0, .finish 0, .begin 1, .finish 1, .join 0, .join 1, .await]

/-- The result of `load_txs`, without the requests and nonces. -/
def resultOf : Main → Option (Except SetupError Unit)
  | .returned (.ok _) => some (.ok ())
  | .returned (.error e) => some (.error e)
  | _ => none

theorem resultOf_eq_ok {main : Main} (h : resultOf main = some (.ok ())) :
    ∃ loaded, main = .returned (.ok loaded) := by
  unfold resultOf at h
  split at h
  case h_1 loaded => exact ⟨loaded, rfl⟩
  case h_2 => cases h
  case h_3 => cases h

theorem resultOf_eq_error {main : Main} {e : SetupError} (h : resultOf main = some (.error e)) :
    main = .returned (.error e) := by
  unfold resultOf at h
  split at h
  case h_1 => cases h
  case h_2 e' =>
    obtain rfl := Except.error.inj (Option.some.inj h)
    rfl
  case h_3 => cases h

/-- The failure of the first task is not reported. -/
theorem not_reportsFailures_of_firstReverts :
    ∃ s, Semantics.Execution.run (twoSteps.setupTasks env firstReverts).step .initial
      (schedule ++ [.await]) = some s ∧
        ¬(twoSteps.setupTasks env firstReverts).ReportsFailures s := by
  have hresult : (Semantics.Execution.run (twoSteps.setupTasks env firstReverts).step .initial
      (schedule ++ [.await])).map (fun s => resultOf s.main) = some (some (.ok ())) := by
    decide +kernel
  have hcount : 0 < (twoSteps.setupTasks env firstReverts).count := by decide +kernel
  obtain ⟨s, hrun, hok⟩ := Option.map_eq_some_iff.mp hresult
  obtain ⟨loaded, hmain⟩ := resultOf_eq_ok hok
  exact ⟨s, hrun, fun hreports => nomatch (hreports loaded hmain 0 hcount).2⟩

/-- The failure of the last one is. -/
theorem reportsFailures_of_lastReverts :
    ∃ s, Semantics.Execution.run (twoSteps.setupTasks env lastReverts).step .initial schedule =
        some s ∧ s.main = .returned (.error (.callback "setup tx reverted".toList)) ∧
      ((twoSteps.setupTasks env lastReverts).ReportsFailures s ↔
        (twoSteps.setupTasks env lastReverts).FailsLast) := by
  have hresult : (Semantics.Execution.run (twoSteps.setupTasks env lastReverts).step .initial
      schedule).map (fun s => resultOf s.main) =
        some (some (.error (.callback "setup tx reverted".toList))) := by
    decide +kernel
  obtain ⟨s, hrun, herror⟩ := Option.map_eq_some_iff.mp hresult
  have hmain := resultOf_eq_error herror
  exact ⟨s, hrun, hmain, reportsFailures_iff twoSteps env lastReverts hrun hmain⟩

end OneSender

end Generator

end Contender
