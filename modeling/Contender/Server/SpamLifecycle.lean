import Contender.Semantics.Execution
import Contender.Server.Sessions

/-!
# Spamming sessions

The calls of the server and its background tasks share the session cache behind
a lock; between two holds of the lock anything else may run. `spam` checks under
the read lock that the session is ready, and changes the session under the write
lock later, before it knows that the contender can still be taken. This file
models the holds of the lock as the steps of a transition function over events.

A session is consistent when it is spamming exactly while one spam task owns its
contender and the token in the session is the one that task listens on. Three
kinds of steps can break this: a `spam` call that finds the contender gone, a
funding failure while a spam task runs, and a new session that is given the id of
a removed one whose task still runs.

## Main results

* `consistent_of_run` — every execution without such steps keeps all sessions
  consistent, and `stop` cancels the running task
* `not_consistent_of_twoCalls` — two `spam` calls that overlap break it
-/

namespace Contender.Server

open ContenderSessionCache

/-- The task that initializes a session; it has taken the contender or not. -/
structure InitTask where
  sessionId : SessionId
  contender : Option ContenderInstance
  deriving DecidableEq, Repr

/-- A spam task: it owns the contender and listens on the token. -/
structure SpamTask where
  sessionId : SessionId
  contender : ContenderInstance
  token : Token
  deriving DecidableEq, Repr

/-- The cache and all that is in flight: `spam` calls that have passed the check,
and the tasks of sessions, including those of removed ones. -/
structure System where
  sessions : ContenderSessionCache
  cancelled : List Token
  nextToken : Token
  initTasks : List InitTask
  spamCalls : List SpamParams
  spamTasks : List SpamTask
  fundTasks : List SessionId

def System.initial : System := ⟨∅, [], 0, [], [], [], []⟩

/-- One hold of the lock, or the creation of the objects around it. -/
inductive Event
  | addSession (id : SessionId) (funder : Bool)
  | initTake (task : InitTask)
  | initEnd (task : InitTask) (result : Except Text Unit)
  | spamCheck (params : SpamParams)
  | spamTake (params : SpamParams)
  | spamEnd (task : SpamTask) (result : Except Text Unit)
  | spamPanic (task : SpamTask) (message : Text)
  | stop (id : SessionId)
  | fund (id : SessionId)
  | fundEnd (id : SessionId) (result : Except Text Unit)
  | removeSession (id : SessionId)

namespace System

variable (s : System)

/-- `add_session`: a new contender, and a task to initialize it. -/
def addSession (id : SessionId) (funder : Bool) : System :=
  let contender : ContenderInstance := ⟨s.nextToken, funder⟩
  { s with
    sessions := s.sessions.insert id (.new contender)
    nextToken := s.nextToken + 1
    initTasks := ⟨id, none⟩ :: s.initTasks }

/-- The initialization takes the contender; without one it is over. -/
def initTake (task : InitTask) : System :=
  match takeUninitialized s.sessions task.sessionId with
  | (some contender, sessions) =>
    { s with
      sessions
      initTasks := ⟨task.sessionId, some contender⟩ :: s.initTasks.erase task }
  | (none, sessions) => { s with sessions, initTasks := s.initTasks.erase task }

/-- The status an initialization ends with. -/
def initStatus : Except Text Unit → SessionStatus
  | .ok _ => .ready
  | .error message => .failed message

def initEnd (task : InitTask) (contender : ContenderInstance) (result : Except Text Unit) :
    System :=
  let sessions :=
    match result with
    | .ok _ => putInitialized s.sessions task.sessionId contender
    | .error _ => s.sessions
  { s with
    sessions := update sessions task.sessionId fun session =>
      { session with status := initStatus result }
    initTasks := s.initTasks.erase task }

/-- `spam`, up to the release of the read lock. -/
def spamCheck (params : SpamParams) : System :=
  match s.sessions.lookup params.sessionId with
  | none => s
  | some session =>
    match errorIfSessionNotReady params.sessionId session with
    | .ok _ => { s with spamCalls := params :: s.spamCalls }
    | .error _ => s

/-- `spam` under the write lock: status and token are written before the contender
is taken. The task is spawned after the lock is released, with the contender that
was taken. -/
def spamTake (params : SpamParams) : System :=
  let token := s.nextToken
  let sessions := update s.sessions params.sessionId fun session =>
    { session with status := .spamming params, spamCancel := some token }
  let spamCalls := s.spamCalls.erase params
  match takeInitialized sessions params.sessionId with
  | (some contender, sessions) =>
    { s with
      sessions
      nextToken := token + 1
      spamCalls
      spamTasks := ⟨params.sessionId, contender, token⟩ :: s.spamTasks }
  -- the call fails with `SessionNotFound`, and the session keeps status and token
  | (none, sessions) => { s with sessions, nextToken := token + 1, spamCalls }

/-- The status a spam task leaves behind. -/
def spamStatus : Except Text Unit → SessionStatus
  | .ok _ => .ready
  | .error message => .failed ("spam failed: ".toList ++ message)

def spamEnd (task : SpamTask) (result : Except Text Unit) : System :=
  { s with
    sessions := update (putInitialized s.sessions task.sessionId task.contender) task.sessionId
      fun session => { session with spamCancel := none, status := spamStatus result }
    spamTasks := s.spamTasks.erase task }

/-- A panic drops the contender. -/
def spamPanic (task : SpamTask) (message : Text) : System :=
  { s with
    sessions := update s.sessions task.sessionId fun session =>
      { session with
        spamCancel := none
        status := .failed ("spam panicked: ".toList ++ message) }
    spamTasks := s.spamTasks.erase task }

def stop (id : SessionId) : System :=
  match (s.sessions.lookup id).bind ContenderSession.spamCancel with
  | some token => { s with cancelled := token :: s.cancelled }
  | none => s

def fund (id : SessionId) : System :=
  match s.sessions.lookup id with
  | none => s
  | some session =>
    match errorIfNotFundable id session with
    | .ok _ => { s with fundTasks := id :: s.fundTasks }
    | .error _ => s

/-- A funding failure marks the session, whatever it is doing. -/
def fundEnd (id : SessionId) (result : Except Text Unit) : System :=
  let s := { s with fundTasks := s.fundTasks.erase id }
  match result with
  | .ok _ => s
  | .error message =>
    { s with
      sessions := update s.sessions id fun session =>
        { session with status := .failed ("funding accounts failed: ".toList ++ message) } }

/-- The tokens `remove_session` cancels: that of the spam run, and that of the
session, which the contender shares. -/
def tokensOf (session : ContenderSession) : List Token :=
  session.spamCancel.toList ++ [session.cancel]

def removeSession (id : SessionId) : System :=
  { s with
    sessions := s.sessions.erase id
    cancelled := ((s.sessions.lookup id).map tokensOf).getD [] ++ s.cancelled }

end System

def step (s : System) : Event → Option System
  | .addSession id funder => if id ∈ s.sessions then none else some (s.addSession id funder)
  | .initTake task =>
    if task ∈ s.initTasks ∧ task.contender = none then some (s.initTake task) else none
  | .initEnd task result =>
    if task ∈ s.initTasks then
      task.contender.map fun contender => s.initEnd task contender result
    else none
  | .spamCheck params => some (s.spamCheck params)
  | .spamTake params => if params ∈ s.spamCalls then some (s.spamTake params) else none
  | .spamEnd task result => if task ∈ s.spamTasks then some (s.spamEnd task result) else none
  | .spamPanic task message =>
    if task ∈ s.spamTasks then some (s.spamPanic task message) else none
  | .stop id => some (s.stop id)
  | .fund id => some (s.fund id)
  | .fundEnd id result => if id ∈ s.fundTasks then some (s.fundEnd id result) else none
  | .removeSession id => some (s.removeSession id)

/-! ### Consistency -/

/-- The spam tasks that own the contender of a session. -/
def System.owners (s : System) (id : SessionId) (session : ContenderSession) : List SpamTask :=
  s.spamTasks.filter fun task =>
    task.sessionId = id ∧ task.contender.cancel = session.cancel

/-- A session is spamming exactly while one spam task owns its contender, and
then holds the token of that task. -/
structure Consistent (s : System) : Prop where
  spamming_iff : ∀ id session, s.sessions.lookup id = some session →
    (session.status.IsSpamming ↔ ∃ task, s.owners id session = [task])
  listens : ∀ id session task, s.sessions.lookup id = some session →
    s.owners id session = [task] → session.spamCancel = some task.token

/-- `stop` cancels the token of the running spam task. -/
def StopsRunning (s : System) : Prop :=
  ∀ id session task, s.sessions.lookup id = some session → s.owners id session = [task] →
    ∀ t, step s (.stop id) = some t → task.token ∈ t.cancelled

/-- The steps that cannot break a session: a `spam` call that takes finds the
session gone or its contender in place, a funding failure finds no spam task, and
a new session gets an id that no task uses. -/
def Guarded (s : System) : Event → Prop
  | .spamTake params =>
    ∀ session ∈ s.sessions.lookup params.sessionId, session.HoldsInitialized
  | .fundEnd id (.error _) => ∀ session ∈ s.sessions.lookup id, ¬session.status.IsSpamming
  | .addSession id _ =>
    (∀ task ∈ s.initTasks, task.sessionId ≠ id) ∧ ∀ task ∈ s.spamTasks, task.sessionId ≠ id
  | _ => True

instance (s : System) (e : Event) : Decidable (Guarded s e) :=
  match e with
  | .spamTake params => inferInstanceAs
      (Decidable (∀ session ∈ s.sessions.lookup params.sessionId, session.HoldsInitialized))
  | .fundEnd id (.error _) => inferInstanceAs
      (Decidable (∀ session ∈ s.sessions.lookup id, ¬session.status.IsSpamming))
  | .addSession _ _ => inferInstanceAs (Decidable (_ ∧ _))
  | .initTake _ | .initEnd _ _ | .spamCheck _ | .spamEnd _ _ | .spamPanic _ _ | .stop _ | .fund _
  | .fundEnd _ (.ok _) | .removeSession _ => isTrue trivial

/-! ### What a session can be doing -/

def System.tasksOf (s : System) (id : SessionId) : List SpamTask :=
  s.spamTasks.filter fun task => task.sessionId = id

def System.initsOf (s : System) (id : SessionId) : List InitTask :=
  s.initTasks.filter fun task => task.sessionId = id

/-- What a session in the cache is doing, by the tasks that run for it. -/
inductive Phase (session : ContenderSession) : List SpamTask → List InitTask → Prop
  | idle (hstatus : ¬session.status.IsSpamming)
      (hheld : ∀ c ∈ session.contender, c.inner.cancel = session.cancel) : Phase session [] []
  | starting (task : InitTask) (hstatus : ¬session.status.IsSpamming)
      (huninit : ∀ c, session.contender ≠ some (.init c))
      (hheld : ∀ c ∈ session.contender, c.inner.cancel = session.cancel)
      (htaken : ∀ c ∈ task.contender, c.cancel = session.cancel) : Phase session [] [task]
  | spamming (task : SpamTask) (hstatus : session.status.IsSpamming)
      (hcontender : session.contender = none) (hlistens : session.spamCancel = some task.token)
      (hcancel : task.contender.cancel = session.cancel) : Phase session [task] []

/-- Every session in the cache is in one of the phases. -/
def Sound (s : System) : Prop :=
  ∀ id session, s.sessions.lookup id = some session → Phase session (s.tasksOf id) (s.initsOf id)

variable {s t : System}

namespace Phase

variable {session : ContenderSession} {tasks : List SpamTask} {inits : List InitTask}

theorem filter_tasks (h : Phase session tasks inits) :
    tasks.filter (fun task => task.contender.cancel = session.cancel) = tasks := by
  cases h with
  | idle => rfl
  | starting => rfl
  | spamming task hstatus hcontender hlistens hcancel => simp [hcancel]

theorem spamming_iff (h : Phase session tasks inits) :
    session.status.IsSpamming ↔ ∃ task, tasks = [task] := by
  cases h with
  | idle hstatus => simp [hstatus]
  | starting task hstatus => simp [hstatus]
  | spamming task hstatus => simp [hstatus]

/-- A spam task is the only task of its session. -/
theorem of_mem_tasks (h : Phase session tasks inits) {task : SpamTask} (htask : task ∈ tasks) :
    tasks = [task] ∧ inits = [] ∧ session.contender = none ∧
      session.spamCancel = some task.token ∧ task.contender.cancel = session.cancel := by
  cases h with
  | idle => exact absurd htask List.not_mem_nil
  | starting => exact absurd htask List.not_mem_nil
  | spamming task' hstatus hcontender hlistens hcancel =>
    obtain rfl := List.mem_singleton.mp htask
    exact ⟨rfl, rfl, hcontender, hlistens, hcancel⟩

/-- So is an initialization. -/
theorem of_mem_inits (h : Phase session tasks inits) {task : InitTask} (htask : task ∈ inits) :
    tasks = [] ∧ inits = [task] ∧ ¬session.status.IsSpamming ∧
      (∀ c ∈ session.contender, c.inner.cancel = session.cancel) ∧
        ∀ c ∈ task.contender, c.cancel = session.cancel := by
  cases h with
  | idle => exact absurd htask List.not_mem_nil
  | starting task' hstatus huninit hheld htaken =>
    obtain rfl := List.mem_singleton.mp htask
    exact ⟨rfl, rfl, hstatus, hheld, htaken⟩
  | spamming => exact absurd htask List.not_mem_nil

/-- No task runs for a session that holds its initialized contender. -/
theorem of_init (h : Phase session tasks inits) {c : ContenderInstance}
    (hc : session.contender = some (.init c)) :
    tasks = [] ∧ inits = [] ∧ c.cancel = session.cancel := by
  cases h with
  | idle hstatus hheld => exact ⟨rfl, rfl, hheld _ hc⟩
  | starting task hstatus huninit => exact absurd hc (huninit c)
  | spamming task hstatus hcontender =>
    rw [hcontender] at hc
    cases hc

theorem of_eq {tasks' : List SpamTask} {inits' : List InitTask} (h : Phase session tasks' inits')
    (htasks : tasks = tasks') (hinits : inits = inits') : Phase session tasks inits := by
  rwa [htasks, hinits]

/-- A change of the status that starts no spam run. -/
theorem withStatus (h : Phase session tasks inits) {status : SessionStatus}
    (hbefore : ¬session.status.IsSpamming) (hafter : ¬status.IsSpamming) :
    Phase { session with status } tasks inits := by
  cases h with
  | idle _ hheld => exact .idle hafter hheld
  | starting task _ huninit hheld htaken => exact .starting task hafter huninit hheld htaken
  | spamming task hstatus => exact absurd hstatus hbefore

end Phase

theorem owners_eq_filter (s : System) (id : SessionId) (session : ContenderSession) :
    s.owners id session =
      (s.tasksOf id).filter fun task => task.contender.cancel = session.cancel := by
  rw [System.owners, System.tasksOf, List.filter_filter]
  congr 1
  funext task
  simp [Bool.and_comm]

theorem Sound.consistent (h : Sound s) : Consistent s := by
  refine ⟨fun id session hsession => ?_, fun id session task hsession howners => ?_⟩
  · have hphase := h id session hsession
    rw [owners_eq_filter, hphase.filter_tasks]
    exact hphase.spamming_iff
  · have hphase := h id session hsession
    rw [owners_eq_filter, hphase.filter_tasks] at howners
    have htask : task ∈ s.tasksOf id := by rw [howners]; exact List.mem_singleton_self task
    exact (hphase.of_mem_tasks htask).2.2.2.1

/-- A consistent session holds the token that `stop` has to cancel. -/
theorem Consistent.stopsRunning (h : Consistent s) : StopsRunning s := by
  intro id session task hsession howners t hstep
  obtain rfl := Option.some.inj hstep
  have htoken := h.listens id session task hsession howners
  simp [System.stop, hsession, htoken]

/-! ### What the steps keep -/

/-- A step concerns one session; the others and their tasks stay as they were. -/
structure Concerns (id : SessionId) (s t : System) : Prop where
  lookup : ∀ j, j ≠ id → t.sessions.lookup j = s.sessions.lookup j
  tasksOf : ∀ j, j ≠ id → t.tasksOf j = s.tasksOf j
  initsOf : ∀ j, j ≠ id → t.initsOf j = s.initsOf j

/-- It is enough to look at the session that the step concerns. -/
theorem Sound.of_concerns (h : Sound s) (id : SessionId) (hstep : Concerns id s t)
    (hself : ∀ session, t.sessions.lookup id = some session →
      Phase session (t.tasksOf id) (t.initsOf id)) : Sound t := by
  intro j session hsession
  by_cases hj : j = id
  · subst hj
    exact hself session hsession
  · rw [hstep.lookup j hj] at hsession
    rw [hstep.tasksOf j hj, hstep.initsOf j hj]
    exact h j session hsession

theorem filter_erase_of_neg {α : Type} [DecidableEq α] {p : α → Bool} {a : α} {l : List α}
    (h : ¬p a) : (l.erase a).filter p = l.filter p := by
  rw [← List.erase_filter]
  refine List.erase_of_not_mem fun hmem => h ?_
  exact (List.mem_filter.mp hmem).2

/-- Looking up another session than the one that was changed. -/
theorem lookup_update_ne {cache : ContenderSessionCache} {id j : SessionId}
    {f : ContenderSession → ContenderSession} (hj : j ≠ id) :
    (update cache id f).lookup j = cache.lookup j := by
  rw [lookup_update, if_neg hj]

/-- The session that was changed. -/
theorem lookup_update_self {cache : ContenderSessionCache} {id : SessionId}
    {f : ContenderSession → ContenderSession} {session : ContenderSession}
    (h : (update cache id f).lookup id = some session) :
    ∃ before, cache.lookup id = some before ∧ session = f before := by
  rw [lookup_update, if_pos rfl] at h
  obtain ⟨before, hbefore, rfl⟩ := Option.map_eq_some_iff.mp h
  exact ⟨before, hbefore, rfl⟩

theorem Sound.addSession {id : SessionId} {funder : Bool} (h : Sound s)
    (hfresh : Guarded s (.addSession id funder)) : Sound (s.addSession id funder) := by
  refine h.of_concerns id ⟨fun j hj => ?_, fun j hj => rfl, fun j hj => ?_⟩ ?_
  · exact AList.lookup_insert_ne hj
  · exact List.filter_cons_of_neg (by simpa using hj.symm)
  · intro session hsession
    obtain rfl := Option.some.inj ((AList.lookup_insert s.sessions).symm.trans hsession)
    have htasks : s.tasksOf id = [] := by
      simpa [System.tasksOf, List.filter_eq_nil_iff] using hfresh.2
    have hinits : s.initsOf id = [] := by
      simpa [System.initsOf, List.filter_eq_nil_iff] using hfresh.1
    have hqueued : (s.addSession id funder).initsOf id = [⟨id, none⟩] := by
      apply (List.filter_cons_of_pos (by simp)).trans
      exact congrArg _ hinits
    refine .of_eq (.starting _ (fun hspam => hspam) (fun c => ?_) (fun c hc => ?_) fun c hc => ?_)
      htasks hqueued
    · exact fun hc => nomatch Option.some.inj hc
    · obtain rfl := Option.some.inj hc
      rfl
    · cases hc

theorem initsOf_erase_ne {task : InitTask} {j : SessionId} (hj : j ≠ task.sessionId) :
    (s.initTasks.erase task).filter (fun t => t.sessionId = j) = s.initsOf j :=
  filter_erase_of_neg (by simpa using hj.symm)

theorem initsOf_erase_self {task : InitTask} (hinits : s.initsOf task.sessionId = [task]) :
    (s.initTasks.erase task).filter (fun t => t.sessionId = task.sessionId) = [] := by
  rw [← List.erase_filter]
  change (s.initsOf task.sessionId).erase task = []
  rw [hinits, List.erase_cons_head]

theorem Sound.initTake {task : InitTask} (h : Sound s) (htask : task ∈ s.initTasks) :
    Sound (s.initTake task) := by
  have hmem : task ∈ s.initsOf task.sessionId := List.mem_filter.mpr ⟨htask, by simp⟩
  unfold System.initTake
  split
  case h_1 c sessions htake =>
    obtain ⟨before, hbefore, hheld, rfl⟩ := takeUninitialized_eq_some htake
    obtain ⟨htasks, hinits, hstatus, hcancel, -⟩ := (h _ _ hbefore).of_mem_inits hmem
    refine h.of_concerns task.sessionId ⟨fun j hj => ?_, fun j hj => rfl, fun j hj => ?_⟩ ?_
    · exact lookup_update_ne hj
    · exact (List.filter_cons_of_neg (by simpa using hj.symm)).trans (initsOf_erase_ne hj)
    · intro session hsession
      obtain ⟨before', hbefore', rfl⟩ := lookup_update_self hsession
      obtain rfl := Option.some.inj (hbefore.symm.trans hbefore')
      have hnext : (⟨task.sessionId, some c⟩ :: s.initTasks.erase task : List InitTask).filter
          (fun t => t.sessionId = task.sessionId) = [⟨task.sessionId, some c⟩] := by
        rw [List.filter_cons_of_pos (by simp), initsOf_erase_self hinits]
      refine .of_eq (.starting _ hstatus (fun c => nofun) (fun c hc => nomatch hc) fun c' hc' => ?_)
        htasks hnext
      obtain rfl := Option.some.inj hc'
      exact hcancel _ hheld
  case h_2 sessions htake =>
    obtain rfl := takeUninitialized_eq_none htake
    refine h.of_concerns task.sessionId
      ⟨fun j hj => rfl, fun j hj => rfl, fun j hj => initsOf_erase_ne hj⟩ ?_
    intro session hsession
    obtain ⟨htasks, hinits, hstatus, hcancel, -⟩ := (h _ _ hsession).of_mem_inits hmem
    exact .of_eq (.idle hstatus hcancel) htasks (initsOf_erase_self hinits)

theorem Sound.initEnd {task : InitTask} {c : ContenderInstance} {result : Except Text Unit}
    (h : Sound s) (htask : task ∈ s.initTasks) (hc : task.contender = some c) :
    Sound (s.initEnd task c result) := by
  have hmem : task ∈ s.initsOf task.sessionId := List.mem_filter.mpr ⟨htask, by simp⟩
  cases result with
  | ok u =>
    refine h.of_concerns task.sessionId
      ⟨fun j hj => ?_, fun j hj => rfl, fun j hj => initsOf_erase_ne hj⟩ ?_
    · exact (lookup_update_ne hj).trans (lookup_update_ne hj)
    · intro session hsession
      obtain ⟨_, hput, rfl⟩ := lookup_update_self hsession
      obtain ⟨before, hbefore, rfl⟩ := lookup_update_self hput
      obtain ⟨htasks, hinits, -, -, htaken⟩ := (h _ _ hbefore).of_mem_inits hmem
      refine .of_eq (.idle (fun hspam => hspam) fun c' hc' => ?_) htasks (initsOf_erase_self hinits)
      obtain rfl := Option.some.inj hc'
      exact htaken c hc
  | error message =>
    refine h.of_concerns task.sessionId
      ⟨fun j hj => lookup_update_ne hj, fun j hj => rfl, fun j hj => initsOf_erase_ne hj⟩ ?_
    intro session hsession
    obtain ⟨before, hbefore, rfl⟩ := lookup_update_self hsession
    obtain ⟨htasks, hinits, -, hheld, -⟩ := (h _ _ hbefore).of_mem_inits hmem
    exact .of_eq (.idle (fun hspam => hspam) hheld) htasks (initsOf_erase_self hinits)

/-- The other fields do not matter. -/
theorem Sound.congr (h : Sound s) (hsessions : t.sessions = s.sessions)
    (htasks : t.spamTasks = s.spamTasks) (hinits : t.initTasks = s.initTasks) : Sound t := by
  intro id session hsession
  rw [hsessions] at hsession
  refine .of_eq (h id session hsession) ?_ ?_
  · rw [System.tasksOf, htasks]
    rfl
  · rw [System.initsOf, hinits]
    rfl

theorem Sound.spamCheck {params : SpamParams} (h : Sound s) : Sound (s.spamCheck params) := by
  unfold System.spamCheck
  split
  · exact h
  · split
    · exact h.congr rfl rfl rfl
    · exact h

/-- A call that finds the contender in place starts the only task of the
session. -/
theorem Sound.spamTake {params : SpamParams} (h : Sound s)
    (hguard : Guarded s (.spamTake params)) : Sound (s.spamTake params) := by
  unfold System.spamTake
  cases hsession : s.sessions.lookup params.sessionId with
  | none =>
    have hgone : update s.sessions params.sessionId (fun session =>
        { session with status := .spamming params, spamCancel := some s.nextToken }) =
          s.sessions := by
      rw [update, hsession]
    simp only [hgone, takeInitialized_of_none hsession]
    exact h.congr rfl rfl rfl
  | some before =>
    obtain ⟨c, hc⟩ := hguard before hsession
    obtain ⟨htasks, hinits, hcancel⟩ := (h _ _ hsession).of_init hc
    have hmarked : (update s.sessions params.sessionId (fun session =>
        { session with status := .spamming params, spamCancel := some s.nextToken })).lookup
          params.sessionId =
        some { before with status := .spamming params, spamCancel := some s.nextToken } := by
      rw [lookup_update, if_pos rfl, hsession, Option.map_some]
    simp only [takeInitialized_of_init hmarked hc]
    refine h.of_concerns params.sessionId ⟨fun j hj => ?_, fun j hj => ?_, fun j hj => rfl⟩ ?_
    · exact (lookup_update_ne hj).trans (lookup_update_ne hj)
    · exact List.filter_cons_of_neg (by simpa using hj.symm)
    · intro session hafter
      obtain ⟨_, hmarked', rfl⟩ := lookup_update_self hafter
      obtain rfl := Option.some.inj (hmarked.symm.trans hmarked')
      refine .of_eq (.spamming ⟨params.sessionId, c, s.nextToken⟩ trivial rfl rfl hcancel) ?_ hinits
      apply (List.filter_cons_of_pos (by simp)).trans
      exact congrArg _ htasks

theorem tasksOf_erase_ne {task : SpamTask} {j : SessionId} (hj : j ≠ task.sessionId) :
    (s.spamTasks.erase task).filter (fun t => t.sessionId = j) = s.tasksOf j :=
  filter_erase_of_neg (by simpa using hj.symm)

theorem tasksOf_erase_self {task : SpamTask} (htasks : s.tasksOf task.sessionId = [task]) :
    (s.spamTasks.erase task).filter (fun t => t.sessionId = task.sessionId) = [] := by
  rw [← List.erase_filter]
  change (s.tasksOf task.sessionId).erase task = []
  rw [htasks, List.erase_cons_head]

theorem Sound.spamEnd {task : SpamTask} {result : Except Text Unit} (h : Sound s)
    (htask : task ∈ s.spamTasks) : Sound (s.spamEnd task result) := by
  have hmem : task ∈ s.tasksOf task.sessionId := List.mem_filter.mpr ⟨htask, by simp⟩
  refine h.of_concerns task.sessionId
    ⟨fun j hj => ?_, fun j hj => tasksOf_erase_ne hj, fun j hj => rfl⟩ ?_
  · exact (lookup_update_ne hj).trans (lookup_update_ne hj)
  · intro session hsession
    obtain ⟨_, hput, rfl⟩ := lookup_update_self hsession
    obtain ⟨before, hbefore, rfl⟩ := lookup_update_self hput
    obtain ⟨htasks, hinits, -, -, hcancel⟩ := (h _ _ hbefore).of_mem_tasks hmem
    refine .of_eq (.idle ?_ fun c hc => ?_) (tasksOf_erase_self htasks) hinits
    · cases result <;> exact fun hspam => hspam
    · obtain rfl := Option.some.inj hc
      exact hcancel

theorem Sound.spamPanic {task : SpamTask} {message : Text} (h : Sound s)
    (htask : task ∈ s.spamTasks) : Sound (s.spamPanic task message) := by
  have hmem : task ∈ s.tasksOf task.sessionId := List.mem_filter.mpr ⟨htask, by simp⟩
  refine h.of_concerns task.sessionId
    ⟨fun j hj => lookup_update_ne hj, fun j hj => tasksOf_erase_ne hj, fun j hj => rfl⟩ ?_
  intro session hsession
  obtain ⟨before, hbefore, rfl⟩ := lookup_update_self hsession
  obtain ⟨htasks, hinits, htaken, -, -⟩ := (h _ _ hbefore).of_mem_tasks hmem
  refine .of_eq (.idle (fun hspam => hspam) fun c hc => ?_) (tasksOf_erase_self htasks) hinits
  -- the contender went with the task
  exact nomatch htaken.symm.trans hc

theorem Sound.stop {id : SessionId} (h : Sound s) : Sound (s.stop id) := by
  unfold System.stop
  split
  · exact h.congr rfl rfl rfl
  · exact h

theorem Sound.fund {id : SessionId} (h : Sound s) : Sound (s.fund id) := by
  unfold System.fund
  split
  · exact h
  · split
    · exact h.congr rfl rfl rfl
    · exact h

theorem Sound.fundEnd {id : SessionId} {result : Except Text Unit} (h : Sound s)
    (hguard : Guarded s (.fundEnd id result)) : Sound (s.fundEnd id result) := by
  cases result with
  | ok u => exact h.congr rfl rfl rfl
  | error message =>
    refine h.of_concerns id
      ⟨fun j hj => lookup_update_ne hj, fun j hj => rfl, fun j hj => rfl⟩ ?_
    intro session hsession
    obtain ⟨before, hbefore, rfl⟩ := lookup_update_self hsession
    exact (h _ _ hbefore).withStatus (hguard before hbefore) fun hspam => hspam

theorem Sound.removeSession {id : SessionId} (h : Sound s) : Sound (s.removeSession id) := by
  refine h.of_concerns id
    ⟨fun j hj => AList.lookup_erase_ne hj, fun j hj => rfl, fun j hj => rfl⟩ ?_
  intro session hsession
  rw [System.removeSession, AList.lookup_erase] at hsession
  cases hsession

/-! ### Whole executions -/

theorem Sound.step {e : Event} (h : Sound s) (hguard : Guarded s e) (hstep : step s e = some t) :
    Sound t := by
  cases e with
  | addSession id funder =>
    obtain ⟨-, hstep⟩ := Option.ite_none_left_eq_some.mp hstep
    obtain rfl := Option.some.inj hstep
    exact h.addSession hguard
  | initTake task =>
    obtain ⟨htask, hstep⟩ := Option.ite_none_right_eq_some.mp hstep
    obtain rfl := Option.some.inj hstep
    exact h.initTake htask.1
  | initEnd task result =>
    obtain ⟨htask, hstep⟩ := Option.ite_none_right_eq_some.mp hstep
    obtain ⟨c, hc, rfl⟩ := Option.map_eq_some_iff.mp hstep
    exact h.initEnd htask hc
  | spamCheck params =>
    obtain rfl := Option.some.inj hstep
    exact h.spamCheck
  | spamTake params =>
    obtain ⟨-, hstep⟩ := Option.ite_none_right_eq_some.mp hstep
    obtain rfl := Option.some.inj hstep
    exact h.spamTake hguard
  | spamEnd task result =>
    obtain ⟨htask, hstep⟩ := Option.ite_none_right_eq_some.mp hstep
    obtain rfl := Option.some.inj hstep
    exact h.spamEnd htask
  | spamPanic task message =>
    obtain ⟨htask, hstep⟩ := Option.ite_none_right_eq_some.mp hstep
    obtain rfl := Option.some.inj hstep
    exact h.spamPanic htask
  | stop id =>
    obtain rfl := Option.some.inj hstep
    exact h.stop
  | fund id =>
    obtain rfl := Option.some.inj hstep
    exact h.fund
  | fundEnd id result =>
    obtain ⟨-, hstep⟩ := Option.ite_none_right_eq_some.mp hstep
    obtain rfl := Option.some.inj hstep
    exact h.fundEnd hguard
  | removeSession id =>
    obtain rfl := Option.some.inj hstep
    exact h.removeSession

/-- **Session consistency.** In every execution whose steps are guarded, every
session is spamming exactly while one spam task owns its contender, holds the
token of that task, and `stop` cancels it. -/
theorem consistent_of_run {w : List Event}
    (hrun : Semantics.Execution.run step .initial w = some s)
    (hguarded : Semantics.Execution.Along step Guarded .initial w) :
    Consistent s ∧ StopsRunning s := by
  have hinitial : Sound .initial := fun id session hsession =>
    nomatch (AList.lookup_empty id).symm.trans hsession
  have hsound : Sound s :=
    Semantics.Execution.invariant (fun _ _ _ hguard hstep h => h.step hguard hstep) hinitial hrun
      hguarded
  exact ⟨hsound.consistent, hsound.consistent.stopsRunning⟩

namespace TwoCalls

def params : SpamParams := ⟨7⟩

/-- The contender of the session. -/
def contender : ContenderInstance := ⟨0, true⟩

/-- A session is added and initialized. -/
def readySession : List Event :=
  [.addSession 7 true, .initTake ⟨7, none⟩, .initEnd ⟨7, some contender⟩ (.ok ())]

/-- Both calls pass the check before either takes the contender. -/
def overlap : List Event :=
  readySession ++ [.spamCheck params, .spamCheck params, .spamTake params, .spamTake params]

/-- The session ends up with the token of the call that failed. -/
theorem not_consistent_of_twoCalls :
    ∃ s, Semantics.Execution.run step .initial overlap = some s ∧ ¬Consistent s := by
  have hrun : (Semantics.Execution.run step .initial overlap).map (fun s =>
      (s.sessions.lookup 7, s.spamTasks)) =
        some (some ⟨.spamming params, none, 0, some 2, true, true⟩, [⟨7, contender, 1⟩]) := by
    decide +kernel
  obtain ⟨s, hs, hview⟩ := Option.map_eq_some_iff.mp hrun
  obtain ⟨hsession, htasks⟩ := Prod.mk.inj hview
  refine ⟨s, hs, fun hconsistent => ?_⟩
  have howners : s.owners 7 ⟨.spamming params, none, 0, some 2, true, true⟩ =
      [⟨7, contender, 1⟩] := by
    rw [System.owners, htasks]
    rfl
  exact absurd (hconsistent.listens 7 _ _ hsession howners) (by decide)

/-- One call at a time, and a funding failure once the run is over. -/
theorem consistent_of_oneCall :
    ∃ s, Semantics.Execution.run step .initial (readySession ++ [.spamCheck params,
        .spamTake params, .fund 7, .stop 7, .spamEnd ⟨7, contender, 1⟩ (.ok ()),
        .fundEnd 7 (.error [])]) = some s ∧ Consistent s ∧ StopsRunning s := by
  have hrun : (Semantics.Execution.run step .initial (readySession ++ [.spamCheck params,
      .spamTake params, .fund 7, .stop 7, .spamEnd ⟨7, contender, 1⟩ (.ok ()),
      .fundEnd 7 (.error [])])).isSome := by
    decide +kernel
  obtain ⟨s, hs⟩ := Option.isSome_iff_exists.mp hrun
  refine ⟨s, hs, consistent_of_run hs ?_⟩
  decide +kernel

end TwoCalls

end Contender.Server
