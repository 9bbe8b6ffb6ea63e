import Contender.Semantics.Execution

/-!
# The two tasks of `spam_rpc`

`spam_rpc` sends the spam and, in a background task, drives block production
through the engine API: once the sender is done, the FCU loop calls
`advance_chain` until it finds `done_fcu` set. The sender waits for the loop
before it sets the flag. So with an engine provider the wait is circular, unless
the flag was set before the run began; only a failed `advance_chain` would break
it, and then the run fails.

Each step of a task between two accesses to a flag, two calls or two suspension
points is one event. A call that can fail carries its outcome.
-/

namespace Contender

open Semantics

/-- `SpamRunContext`: the flags of a spammer, which outlive a run of it. -/
structure SpamRunContext where
  doneSending : Bool := false
  doneFcu : Bool := false
  deriving DecidableEq, Repr

/-- Where the sender is. `spamming` counts the triggers that its cursor may still
yield. -/
inductive SenderPc
  | starting
  | loading
  | opening
  | spamming (periods : Nat)
  | spammed
  | joining
  | joined
  | collecting
  | syncing
  | returned (ok : Bool)
  deriving DecidableEq, Repr

/-- Where the FCU task is. `loaded` holds the value read from `done_fcu`. -/
inductive FcuPc
  | unspawned
  | spawned
  | looping
  | loaded (fcuDone : Bool)
  | advancing
  | sleeping
  | returned (ok : Bool)
  deriving DecidableEq, Repr

/-- The two tasks of a call of `spam_rpc`, with the flags they share. -/
structure SpamRpc where
  sender : SenderPc
  fcu : FcuPc
  context : SpamRunContext
  deriving DecidableEq, Repr

/-- What can happen next. `tick` is one round of `execute_spammer`, and `drained`
its end, when the cursor yields no more triggers. -/
inductive SpamRpcEvent
  | numRuns (ok : Bool)
  | chunks (ok : Bool)
  | onSpam (ok : Bool)
  | tick (ok : Bool)
  | drained (ok : Bool)
  | storeSending
  | join
  | storeFcu
  | metrics (ok : Bool)
  | syncNonces
  | fcuStart
  | loadFcu
  | loadSending
  | advanceChain (ok : Bool)
  | wake
  deriving DecidableEq, Repr

/-- The call that an event stands for, if any, succeeds. -/
def SpamRpcEvent.Succeeds : SpamRpcEvent → Prop
  | .numRuns ok | .chunks ok | .onSpam ok | .tick ok | .drained ok | .metrics ok
  | .advanceChain ok => ok = true
  | _ => True

namespace SpamRpc

/-- `spam_rpc` is called on a spammer with the flags of `context`. -/
def init (context : SpamRunContext) : SpamRpc := ⟨.starting, .unspawned, context⟩

/-- A call followed by `?`. -/
def orReturn (s : SpamRpc) (ok : Bool) (next : SenderPc) : SpamRpc :=
  { s with sender := if ok then next else .returned false }

/-- One step of the system; `hasAuth` says that the scenario has an engine
provider. -/
def step (hasAuth : Bool) (numPeriods : Nat) (s : SpamRpc) (event : SpamRpcEvent) :
    Option SpamRpc :=
  match event with
  | .numRuns ok =>
    if s.sender = .starting then
      -- the task is spawned after the run id is known
      some { s.orReturn ok .loading with fcu := if ok then .spawned else .unspawned }
    else none
  | .chunks ok => if s.sender = .loading then some (s.orReturn ok .opening) else none
  | .onSpam ok => if s.sender = .opening then some (s.orReturn ok (.spamming numPeriods)) else none
  | .tick ok =>
    match s.sender with
    | .spamming (n + 1) => some (s.orReturn ok (.spamming n))
    | _ => none
  | .drained ok =>
    -- the stream may also end early
    match s.sender with
    | .spamming _ => some (s.orReturn ok .spammed)
    | _ => none
  | .storeSending =>
    if s.sender = .spammed then
      some { s with sender := .joining, context := { s.context with doneSending := true } }
    else none
  | .join =>
    match s.sender, s.fcu with
    | .joining, .returned ok => some (s.orReturn ok .joined)
    | _, _ => none
  | .storeFcu =>
    if s.sender = .joined then
      some { s with sender := .collecting, context := { s.context with doneFcu := true } }
    else none
  | .metrics ok => if s.sender = .collecting then some (s.orReturn ok .syncing) else none
  -- a nonce that cannot be fetched is only warned about
  | .syncNonces => if s.sender = .syncing then some { s with sender := .returned true } else none
  | .fcuStart =>
    if s.fcu = .spawned then some { s with fcu := if hasAuth then .looping else .returned true }
    else none
  | .loadFcu => if s.fcu = .looping then some { s with fcu := .loaded s.context.doneFcu } else none
  | .loadSending =>
    match s.fcu with
    | .loaded fcuDone =>
      if fcuDone then some { s with fcu := .returned true }
      else if s.context.doneSending then some { s with fcu := .advancing }
      else some { s with fcu := .sleeping }
    | _ => none
  | .advanceChain ok =>
    if s.fcu = .advancing then
      if ok then some { s with fcu := .looping }
      else some { s with fcu := .returned false, context := { s.context with doneFcu := true } }
    else none
  | .wake => if s.fcu = .sleeping then some { s with fcu := .looping } else none

/-- An execution in which every call succeeds. -/
def Leads (hasAuth : Bool) (numPeriods : Nat) (s t : SpamRpc) : Prop :=
  ∃ events, Execution.run (step hasAuth numPeriods) s events = some t ∧
    ∀ event ∈ events, event.Succeeds

/-- `spam_rpc` can still return `Ok`. -/
def Finishes (hasAuth : Bool) (numPeriods : Nat) (s : SpamRpc) : Prop :=
  ∃ t, Leads hasAuth numPeriods s t ∧ t.sender = .returned true

/-- Whatever has happened, as long as every call succeeds, `spam_rpc` can still
return `Ok`. -/
def CanFinish (hasAuth : Bool) (numPeriods : Nat) (context : SpamRunContext) : Prop :=
  ∀ s, Leads hasAuth numPeriods (init context) s → Finishes hasAuth numPeriods s

variable {hasAuth : Bool} {numPeriods : Nat} {s t u : SpamRpc}

theorem Leads.refl (s : SpamRpc) : Leads hasAuth numPeriods s s :=
  ⟨[], rfl, by simp⟩

theorem Leads.trans (hst : Leads hasAuth numPeriods s t) (htu : Leads hasAuth numPeriods t u) :
    Leads hasAuth numPeriods s u := by
  obtain ⟨v, hv, hvs⟩ := hst
  obtain ⟨w, hw, hws⟩ := htu
  refine ⟨v ++ w, Execution.run_append_eq_some.mpr ⟨t, hv, hw⟩, fun event hevent => ?_⟩
  rcases List.mem_append.mp hevent with h | h
  · exact hvs event h
  · exact hws event h

/-- One event, then the rest. -/
theorem Leads.head (event : SpamRpcEvent) (hsucceeds : event.Succeeds)
    (hstep : step hasAuth numPeriods s event = some t) (htu : Leads hasAuth numPeriods t u) :
    Leads hasAuth numPeriods s u := by
  have hfirst : Leads hasAuth numPeriods s t :=
    ⟨[event], (Execution.run_singleton s event).trans hstep, by simpa using hsucceeds⟩
  exact hfirst.trans htu

/-! ### The FCU task ends when the flag is set -/

/-- The FCU task can return without waiting for the sender. -/
def FcuFree (hasAuth : Bool) (s : SpamRpc) : Prop := hasAuth = false ∨ s.context.doneFcu = true

theorem leads_of_looping (hdone : s.context.doneFcu = true) (hpc : s.fcu = .looping) :
    Leads hasAuth numPeriods s { s with fcu := .returned true } := by
  apply Leads.head .loadFcu (t := { s with fcu := .loaded true }) trivial
  · simp [step, hpc, hdone]
  apply Leads.head .loadSending trivial
  · simp [step]
    rfl
  exact Leads.refl _

/-- From every point of the FCU task but a failed one, it can return. Without an
engine provider the task is never inside the loop. -/
theorem leads_returned (hfree : FcuFree hasAuth s) (hspawned : s.fcu ≠ .unspawned)
    (hfailed : s.fcu ≠ .returned false)
    (hloop : hasAuth = false → s.fcu = .spawned ∨ s.fcu = .returned true) :
    Leads hasAuth numPeriods s { s with fcu := .returned true } := by
  rcases hfree with hauth | hdone
  · subst hauth
    rcases hloop rfl with hpc | hpc
    · apply Leads.head .fcuStart trivial
      · simp [step, hpc]
        rfl
      exact Leads.refl _
    · rw [← hpc]
      exact Leads.refl s
  · cases hpc : s.fcu with
    | unspawned => exact absurd hpc hspawned
    | spawned =>
      cases hasAuth with
      | false =>
        apply Leads.head .fcuStart trivial
        · simp [step, hpc]
          rfl
        exact Leads.refl _
      | true =>
        apply Leads.head .fcuStart (t := { s with fcu := .looping }) trivial
        · simp [step, hpc]
        exact leads_of_looping (s := { s with fcu := .looping }) hdone rfl
    | looping => exact leads_of_looping hdone hpc
    | loaded fcuDone =>
      cases fcuDone with
      | true =>
        apply Leads.head .loadSending trivial
        · simp [step, hpc]
          rfl
        exact Leads.refl _
      | false =>
        by_cases hsending : s.context.doneSending = true
        · apply Leads.head .loadSending (t := { s with fcu := .advancing }) trivial
          · simp [step, hpc, hsending]
          apply Leads.head (.advanceChain true) (t := { s with fcu := .looping }) rfl
          · simp [step]
          exact leads_of_looping (s := { s with fcu := .looping }) hdone rfl
        · apply Leads.head .loadSending (t := { s with fcu := .sleeping }) trivial
          · simp [step, hpc, hsending]
          apply Leads.head .wake (t := { s with fcu := .looping }) trivial
          · simp [step]
          exact leads_of_looping (s := { s with fcu := .looping }) hdone rfl
    | advancing =>
      apply Leads.head (.advanceChain true) (t := { s with fcu := .looping }) rfl
      · simp [step, hpc]
      exact leads_of_looping (s := { s with fcu := .looping }) hdone rfl
    | sleeping =>
      apply Leads.head .wake (t := { s with fcu := .looping }) trivial
      · simp [step, hpc]
      exact leads_of_looping (s := { s with fcu := .looping }) hdone rfl
    | returned ok =>
      cases ok with
      | false => exact absurd hpc hfailed
      | true =>
        rw [← hpc]
        exact Leads.refl s

/-! ### The sender returns when the FCU task has -/

theorem Finishes.of_leads (hst : Leads hasAuth numPeriods s t)
    (ht : Finishes hasAuth numPeriods t) : Finishes hasAuth numPeriods s := by
  obtain ⟨u, htu, hreturned⟩ := ht
  exact ⟨u, hst.trans htu, hreturned⟩

theorem Finishes.head (event : SpamRpcEvent) (hsucceeds : event.Succeeds)
    (hstep : step hasAuth numPeriods s event = some t) (ht : Finishes hasAuth numPeriods t) :
    Finishes hasAuth numPeriods s :=
  ht.of_leads (Leads.head event hsucceeds hstep (Leads.refl t))

theorem finishes_of_syncing (hpc : s.sender = .syncing) : Finishes hasAuth numPeriods s := by
  apply Finishes.head .syncNonces (t := { s with sender := .returned true }) trivial
  · simp [step, hpc]
  exact ⟨_, Leads.refl _, rfl⟩

theorem finishes_of_collecting (hpc : s.sender = .collecting) :
    Finishes hasAuth numPeriods s := by
  apply Finishes.head (.metrics true) (t := { s with sender := .syncing }) rfl
  · simp [step, hpc, orReturn]
  exact finishes_of_syncing rfl

theorem finishes_of_joined (hpc : s.sender = .joined) : Finishes hasAuth numPeriods s := by
  apply Finishes.head .storeFcu (t := { s with
    sender := .collecting, context := { s.context with doneFcu := true } }) trivial
  · simp [step, hpc]
  exact finishes_of_collecting rfl

theorem finishes_of_joining (hfcu : s.fcu = .returned true) (hpc : s.sender = .joining) :
    Finishes hasAuth numPeriods s := by
  apply Finishes.head .join (t := { s with sender := .joined }) trivial
  · simp [step, hpc, hfcu, orReturn]
  exact finishes_of_joined rfl

theorem finishes_of_spammed (hfcu : s.fcu = .returned true) (hpc : s.sender = .spammed) :
    Finishes hasAuth numPeriods s := by
  apply Finishes.head .storeSending (t := { s with
    sender := .joining, context := { s.context with doneSending := true } }) trivial
  · simp [step, hpc]
  exact finishes_of_joining hfcu rfl

theorem finishes_of_spamming (hfcu : s.fcu = .returned true) {n : Nat}
    (hpc : s.sender = .spamming n) : Finishes hasAuth numPeriods s := by
  apply Finishes.head (.drained true) (t := { s with sender := .spammed }) rfl
  · simp [step, hpc, orReturn]
  exact finishes_of_spammed hfcu rfl

theorem finishes_of_opening (hfcu : s.fcu = .returned true) (hpc : s.sender = .opening) :
    Finishes hasAuth numPeriods s := by
  apply Finishes.head (.onSpam true) (t := { s with sender := .spamming numPeriods }) rfl
  · simp [step, hpc, orReturn]
  exact finishes_of_spamming hfcu rfl

theorem finishes_of_loading (hfcu : s.fcu = .returned true) (hpc : s.sender = .loading) :
    Finishes hasAuth numPeriods s := by
  apply Finishes.head (.chunks true) (t := { s with sender := .opening }) rfl
  · simp [step, hpc, orReturn]
  exact finishes_of_opening hfcu rfl

/-- What holds while every call succeeds: neither task has failed, the FCU task is
spawned by the first step of the sender, and without an engine provider it does
not enter its loop. -/
structure Healthy (hasAuth : Bool) (s : SpamRpc) : Prop where
  sender : s.sender ≠ .returned false
  fcu : s.fcu ≠ .returned false
  spawned : s.fcu = .unspawned ↔ s.sender = .starting
  loop : hasAuth = false → s.fcu = .unspawned ∨ s.fcu = .spawned ∨ s.fcu = .returned true

/-- Once the FCU task has returned, the sender can return from wherever it is. -/
theorem finishes_of_returned (hhealthy : Healthy hasAuth s) (hfcu : s.fcu = .returned true) :
    Finishes hasAuth numPeriods s := by
  cases hpc : s.sender with
  | starting =>
    have := hhealthy.spawned.mpr hpc
    simp [hfcu] at this
  | loading => exact finishes_of_loading hfcu hpc
  | opening => exact finishes_of_opening hfcu hpc
  | spamming n => exact finishes_of_spamming hfcu hpc
  | spammed => exact finishes_of_spammed hfcu hpc
  | joining => exact finishes_of_joining hfcu hpc
  | joined => exact finishes_of_joined hpc
  | collecting => exact finishes_of_collecting hpc
  | syncing => exact finishes_of_syncing hpc
  | returned ok =>
    cases ok with
    | false => exact absurd hpc hhealthy.sender
    | true => exact ⟨s, Leads.refl s, hpc⟩

/-! ### Runs in which every call succeeds -/

/-- A call that succeeds leaves both tasks healthy, and keeps the FCU task free. -/
theorem Healthy.step {event : SpamRpcEvent} (hhealthy : Healthy hasAuth s)
    (hsucceeds : event.Succeeds) (hstep : step hasAuth numPeriods s event = some t) :
    Healthy hasAuth t ∧ (FcuFree hasAuth s → FcuFree hasAuth t) := by
  obtain ⟨hsender, hfcu, hspawned, hloop⟩ := hhealthy
  unfold FcuFree
  cases event <;> simp only [SpamRpc.step, SpamRpcEvent.Succeeds] at hstep hsucceeds <;>
    grind [orReturn, Healthy]

/-- The sender waits for a task that waits for it: the flag is not set, so the FCU
task has not read it as set, so the sender has not got past the join. -/
structure Circular (s : SpamRpc) : Prop where
  doneFcu : s.context.doneFcu = false
  fcu : s.fcu ≠ .loaded true ∧ ∀ ok, s.fcu ≠ .returned ok
  sender : s.sender ≠ .joined ∧ s.sender ≠ .collecting ∧ s.sender ≠ .syncing ∧
    s.sender ≠ .returned true

theorem Circular.step {event : SpamRpcEvent} (hcircular : Circular s)
    (hsucceeds : event.Succeeds) (hstep : step true numPeriods s event = some t) :
    Circular t := by
  obtain ⟨hdone, hfcu, hsender⟩ := hcircular
  cases event with
  -- the join needs a task that has returned
  | join =>
    simp only [SpamRpc.step] at hstep
    split at hstep
    case h_1 ok _ hreturned => exact absurd hreturned (hfcu.2 ok)
    case h_2 => cases hstep
  -- only the sender, past the join, or a failed call sets the flag
  | storeFcu =>
    simp only [SpamRpc.step, hsender.1, if_false] at hstep
    cases hstep
  | advanceChain ok =>
    obtain rfl : ok = true := hsucceeds
    simp only [SpamRpc.step, if_true] at hstep
    split_ifs at hstep
    obtain rfl := Option.some.inj hstep
    exact ⟨hdone, by simp, hsender⟩
  | _ =>
    simp only [SpamRpc.step, SpamRpcEvent.Succeeds] at hstep hsucceeds
    grind [orReturn, Circular]

/-- What every successful step keeps holds at the end of a successful run. -/
theorem Leads.invariant {I : SpamRpc → Prop}
    (preserved : ∀ s event t, event.Succeeds → SpamRpc.step hasAuth numPeriods s event = some t →
      I s → I t)
    (hst : Leads hasAuth numPeriods s t) (hs : I s) : I t := by
  obtain ⟨events, hrun, hsucceed⟩ := hst
  have halong : Execution.Along (SpamRpc.step hasAuth numPeriods)
      (fun _ event => event.Succeeds) s events :=
    Execution.along_of_forall fun event hevent _ => hsucceed event hevent
  exact Execution.invariant preserved hs hrun halong

theorem not_finishes_of_circular (hcircular : Circular s) : ¬Finishes true numPeriods s := by
  rintro ⟨t, ht, hreturned⟩
  have hend := ht.invariant (fun _ _ _ hsucceeds hstep h => h.step hsucceeds hstep) hcircular
  exact hend.sender.2.2.2 hreturned

/-- A run that is healthy, with the FCU task free, can finish. -/
theorem finishes_of_healthy (hhealthy : Healthy hasAuth s) (hfree : FcuFree hasAuth s) :
    Finishes hasAuth numPeriods s := by
  by_cases hstarting : s.sender = .starting
  · -- the task is spawned first
    have hstep : step hasAuth numPeriods s (.numRuns true) =
        some { s with sender := .loading, fcu := .spawned } := by
      simp [step, hstarting, orReturn]
    have hsucceeds : (SpamRpcEvent.numRuns true).Succeeds := rfl
    obtain ⟨hnext, hfreeNext⟩ := hhealthy.step hsucceeds hstep
    apply Finishes.head (.numRuns true) hsucceeds hstep
    exact (finishes_of_loading rfl rfl).of_leads
      (leads_returned (hfreeNext hfree) (by simp) hnext.fcu fun _ => .inl rfl)
  · have hspawned : s.fcu ≠ .unspawned := fun h => hstarting (hhealthy.spawned.mp h)
    have hleads : Leads hasAuth numPeriods s { s with fcu := .returned true } :=
      leads_returned hfree hspawned hhealthy.fcu
        fun hauth => (hhealthy.loop hauth).resolve_left hspawned
    have hreturned : Healthy hasAuth { s with fcu := .returned true } :=
      ⟨hhealthy.sender, by simp, by simpa using hstarting, fun _ => .inr (.inr rfl)⟩
    exact (finishes_of_returned hreturned rfl).of_leads hleads

/-- **Runs with an engine provider.** For every number of periods, a run in which
every call succeeds can always finish exactly when there is no engine provider, or
`done_fcu` was set before it began. -/
theorem canFinish_iff (hasAuth : Bool) (numPeriods : Nat) (context : SpamRunContext) :
    CanFinish hasAuth numPeriods context ↔ hasAuth = false ∨ context.doneFcu = true := by
  constructor
  · intro hfinish
    by_contra hcond
    push Not at hcond
    obtain ⟨hauth, hdone⟩ := hcond
    obtain rfl : hasAuth = true := by simpa using hauth
    have hinit : Circular (init context) := ⟨by simpa [init] using hdone, by simp [init],
      by simp [init]⟩
    exact not_finishes_of_circular hinit (hfinish (init context) (Leads.refl _))
  · intro hcond s hs
    have hinit : Healthy hasAuth (init context) ∧ FcuFree hasAuth (init context) :=
      ⟨⟨by simp [init], by simp [init], by simp [init], fun _ => .inl rfl⟩, hcond⟩
    have hreached := hs.invariant (I := fun s => Healthy hasAuth s ∧ FcuFree hasAuth s)
      (fun s event t hsucceeds hstep h =>
        ⟨(h.1.step hsucceeds hstep).1, (h.1.step hsucceeds hstep).2 h.2⟩) hinit
    exact finishes_of_healthy hreached.1 hreached.2

/-- A first run with an engine provider and one period cannot finish. -/
theorem not_canFinish_of_engine : ¬CanFinish true 1 {} := by
  intro h
  have hcircular : Circular (init {}) := ⟨rfl, by simp [init], by simp [init]⟩
  exact not_finishes_of_circular hcircular (h (init {}) (Leads.refl _))

end SpamRpc

end Contender
