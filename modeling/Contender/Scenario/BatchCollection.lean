import Contender.Scenario.ExecuteSpam
import Contender.Semantics.Execution

/-!
# Collecting the tasks of a batch

The tasks of a batch report through four bounded channels: errors of bundles,
successes, gas bumps and nonce shifts. `collect_pending_batch` awaits the tasks one
after another and looks at the error channel meanwhile; the other channels are read
only once every task has been awaited. So a task that finds one of them full would
never end, while a task that finds the error channel full waits for the collector to
look at it.

Every schedule of the tasks and of the `select!` is a list of events. Nothing is
cancelled.
-/

namespace Contender

open Semantics

/-- The channels from the tasks of a batch to its collector. -/
inductive Channel
  | error
  | success
  | gas
  | nonce
  deriving DecidableEq, Repr

/-- A message of a task. -/
inductive TaskMessage
  | error (message : Text)
  | spam (message : SpamMessage)
  deriving DecidableEq, Repr

namespace TaskMessage

def channel : TaskMessage → Channel
  | .error _ => .error
  | .spam .success => .success
  | .spam (.addGas _) => .gas
  | .spam (.shiftNonce _ _) => .nonce

def error? : TaskMessage → Option Text
  | .error message => some message
  | .spam _ => none

def spam? : TaskMessage → Option SpamMessage
  | .error _ => none
  | .spam message => some message

end TaskMessage

/-- The message that goes with a report. The callback for a transaction of a bundle
sends none. -/
def SpamReport.message (env : Env) : SpamReport → Option TaskMessage
  | .txOutcome _ req error => (handleTxOutcome env req error).message.map .spam
  | .bundleSent (some error) => some (.error error)
  | .bundleSent none => some (.spam .success)
  | .bundleTx _ _ => none

/-- The messages of a task; one that panics sends none. -/
def taskMessages (env : Env) (task : Option (List SpamReport)) : List TaskMessage :=
  (task.getD []).filterMap (SpamReport.message env)

/-- A batch as it is spawned: the messages of each task, the capacities of the
channels, and how the task of `on_batch_sent` ends, if there is one. -/
structure SpamBatch where
  tasks : List (List TaskMessage)
  capacity : Channel → Nat
  onBatchSent : Option (Except Text Unit)

/-- The channels of `execute_spammer`: room for a message of each payload, and for
`shifts` nonce shifts. -/
def batchCapacity (numPayloads shifts : Nat) : Channel → Nat
  | .error => 1
  | .success => numPayloads
  | .gas => numPayloads
  | .nonce => shifts

/-- A task with the messages it still has to send. -/
structure TaskState where
  rest : List TaskMessage
  ended : Bool
  deriving DecidableEq, Repr

/-- What a task still has to do. -/
def TaskState.work (task : TaskState) : Nat := task.rest.length + if task.ended then 0 else 1

/-- The batch while it is collected. `delivered` lists the messages in the order in
which they were accepted by their channels. -/
structure BatchRun where
  tasks : List TaskState
  delivered : List TaskMessage
  awaited : Nat
  result : Option (Except Text Unit)

inductive BatchEvent
  /-- A task sends its next message. -/
  | send (task : Nat)
  | finish (task : Nat)
  /-- The collector finds the task it awaits ended. -/
  | join
  /-- The collector finds a message in the error channel. -/
  | receive
  /-- The collector has awaited every task, and then the callback. -/
  | batchSent
  deriving DecidableEq, Repr

namespace SpamBatch

variable (batch : SpamBatch)

def spawn : BatchRun where
  tasks := batch.tasks.map fun messages => ⟨messages, false⟩
  delivered := []
  awaited := 0
  result := none

/-- The messages of all tasks. -/
def messages : List TaskMessage := batch.tasks.flatten

end SpamBatch

namespace BatchRun

/-- The messages that a channel holds. -/
def held (r : BatchRun) (channel : Channel) : Nat :=
  r.delivered.countP fun message => message.channel = channel

/-- A task puts a message into its channel, when there is room. A collector that has
returned has dropped the receivers, and the message is lost. -/
def put (batch : SpamBatch) (r : BatchRun) (message : TaskMessage) : Option BatchRun :=
  if r.result.isSome then some r
  else if r.held message.channel < batch.capacity message.channel then
    some { r with delivered := r.delivered ++ [message] }
  else none

/-- One step of the tasks or of the collector. -/
def step (batch : SpamBatch) (r : BatchRun) : BatchEvent → Option BatchRun
  | .send i =>
    match r.tasks[i]? with
    | some ⟨message :: rest, false⟩ =>
      (r.put batch message).map fun r => { r with tasks := r.tasks.set i ⟨rest, false⟩ }
    | _ => none
  | .finish i =>
    match r.tasks[i]? with
    | some ⟨[], false⟩ => some { r with tasks := r.tasks.set i ⟨[], true⟩ }
    | _ => none
  | .join =>
    match r.result, r.tasks[r.awaited]? with
    | none, some ⟨_, true⟩ => some { r with awaited := r.awaited + 1 }
    | _, _ => none
  | .receive =>
    match r.result, r.tasks[r.awaited]?, r.delivered.filterMap TaskMessage.error? with
    | none, some _, e :: _ => some { r with result := some (.error e) }
    | _, _, _ => none
  | .batchSent =>
    -- the error channel is not looked at any more
    if r.result = none ∧ r.awaited = r.tasks.length then
      some { r with result := some (batch.onBatchSent.getD (.ok ())) }
    else none

/-- What `collect_pending_batch` reads from the channels of a batch whose tasks have
been awaited. -/
def pending (r : BatchRun) (numPayloads : Nat) : PendingBatch where
  awaited := r.result.getD (.ok ())
  addGas := (r.delivered.filterMap TaskMessage.spam?).filterMap SpamMessage.bump?
  shiftNonce := (r.delivered.filterMap TaskMessage.spam?).filterMap SpamMessage.shift?
  successes := (r.delivered.filterMap TaskMessage.spam?).count .success
  numPayloads := numPayloads

/-! ### One task moves -/

variable {batch : SpamBatch} {r r' : BatchRun} {event : BatchEvent}

/-- The messages that the tasks still have to send. -/
def unsent (r : BatchRun) : List TaskMessage := r.tasks.flatMap TaskState.rest

/-- Setting one task moves its first message to the front. -/
theorem flatMap_rest_perm {tasks : List TaskState} {i : Nat} {message : TaskMessage}
    {rest : List TaskMessage} (h : tasks[i]? = some ⟨message :: rest, false⟩) :
    (tasks.flatMap TaskState.rest).Perm
      (message :: (tasks.set i ⟨rest, false⟩).flatMap TaskState.rest) := by
  induction tasks generalizing i with
  | nil => simp at h
  | cons task tasks ih =>
    cases i with
    | zero =>
      obtain rfl : task = ⟨message :: rest, false⟩ := by simpa using h
      simp
    | succ i =>
      have hrest := ih (by simpa using h)
      rw [List.flatMap_cons, List.set_cons_succ, List.flatMap_cons]
      exact (hrest.append_left task.rest).trans List.perm_middle

theorem flatMap_rest_finish {tasks : List TaskState} {i : Nat}
    (h : tasks[i]? = some ⟨[], false⟩) :
    (tasks.set i ⟨[], true⟩).flatMap TaskState.rest = tasks.flatMap TaskState.rest := by
  induction tasks generalizing i with
  | nil => simp at h
  | cons task tasks ih =>
    cases i with
    | zero =>
      obtain rfl : task = ⟨[], false⟩ := by simpa using h
      rfl
    | succ i =>
      rw [List.set_cons_succ, List.flatMap_cons, List.flatMap_cons, ih (by simpa using h)]

theorem sum_work_set {tasks : List TaskState} {i : Nat} {before : TaskState}
    (after : TaskState) (h : tasks[i]? = some before) (hlt : after.work < before.work) :
    ((tasks.set i after).map TaskState.work).sum < (tasks.map TaskState.work).sum := by
  induction tasks generalizing i with
  | nil => simp at h
  | cons task tasks ih =>
    cases i with
    | zero =>
      obtain rfl : task = before := by simpa using h
      simpa using hlt
    | succ i => simpa using ih (by simpa using h)

/-- What the tasks and the collector still have to do. -/
def work (r : BatchRun) : Nat :=
  (r.tasks.map TaskState.work).sum + (r.tasks.length - r.awaited) +
    if r.result.isNone then 1 else 0

/-- **What a step does.** -/
inductive Moved (batch : SpamBatch) (r r' : BatchRun) : Prop
  | send (i : Nat) (message : TaskMessage) (rest : List TaskMessage)
      (htask : r.tasks[i]? = some ⟨message :: rest, false⟩) (hresult : r.result = none)
      (hroom : r.held message.channel < batch.capacity message.channel)
      (heq : r' = { r with
        tasks := r.tasks.set i ⟨rest, false⟩, delivered := r.delivered ++ [message] })
  | lose (i : Nat) (message : TaskMessage) (rest : List TaskMessage)
      (htask : r.tasks[i]? = some ⟨message :: rest, false⟩) (hresult : r.result ≠ none)
      (heq : r' = { r with tasks := r.tasks.set i ⟨rest, false⟩ })
  | finish (i : Nat) (htask : r.tasks[i]? = some ⟨[], false⟩)
      (heq : r' = { r with tasks := r.tasks.set i ⟨[], true⟩ })
  | join (task : TaskState) (htask : r.tasks[r.awaited]? = some task)
      (hended : task.ended = true) (hresult : r.result = none)
      (heq : r' = { r with awaited := r.awaited + 1 })
  | receive (e : Text) (hresult : r.result = none) (hawaited : r.awaited < r.tasks.length)
      (heq : r' = { r with result := some (.error e) })
  | batchSent (hresult : r.result = none) (hawaited : r.awaited = r.tasks.length)
      (heq : r' = { r with result := some (batch.onBatchSent.getD (.ok ())) })

theorem moved_of_step (hstep : r.step batch event = some r') : Moved batch r r' := by
  cases event with
  | send i =>
    simp only [step] at hstep
    split at hstep
    case h_1 message rest htask =>
      obtain ⟨put, hput, rfl⟩ := Option.map_eq_some_iff.mp hstep
      unfold BatchRun.put at hput
      split_ifs at hput with hsome hroom
      · obtain rfl := Option.some.inj hput
        exact .lose i message rest htask (Option.isSome_iff_ne_none.mp hsome) rfl
      · obtain rfl := Option.some.inj hput
        exact .send i message rest htask (by simpa using hsome) hroom rfl
    case h_2 => cases hstep
  | finish i =>
    simp only [step] at hstep
    split at hstep
    case h_1 htask => exact .finish i htask (Option.some.inj hstep).symm
    case h_2 => cases hstep
  | join =>
    simp only [step] at hstep
    split at hstep
    case h_1 hresult htask => exact .join _ htask rfl hresult (Option.some.inj hstep).symm
    case h_2 => cases hstep
  | receive =>
    simp only [step] at hstep
    split at hstep
    case h_1 e _ hresult htask _ =>
      exact .receive e hresult (List.getElem?_eq_some_iff.mp htask).1
        (Option.some.inj hstep).symm
    case h_2 => cases hstep
  | batchSent =>
    simp only [step] at hstep
    split_ifs at hstep with h
    exact .batchSent h.1 h.2 (Option.some.inj hstep).symm

theorem work_lt_of_step (hstep : r.step batch event = some r') : r'.work < r.work := by
  unfold work
  cases moved_of_step hstep with
  | send i message rest htask hresult hroom heq =>
    have hlt := sum_work_set ⟨rest, false⟩ htask (by simp [TaskState.work])
    subst heq
    simp only [List.length_set]
    omega
  | lose i message rest htask hresult heq =>
    have hlt := sum_work_set ⟨rest, false⟩ htask (by simp [TaskState.work])
    subst heq
    simp only [List.length_set]
    omega
  | finish i htask heq =>
    have hlt := sum_work_set ⟨[], true⟩ htask (by simp [TaskState.work])
    subst heq
    simp only [List.length_set]
    omega
  | join task htask hended hresult heq =>
    have hlt := (List.getElem?_eq_some_iff.mp htask).1
    subst heq
    dsimp only
    omega
  | receive e hresult hawaited heq =>
    subst heq
    simp [hresult]
  | batchSent hresult hawaited heq =>
    subst heq
    simp [hresult]

/-! ### Every message is accounted for -/

/-- What holds at every point of a run: the messages of the tasks are delivered, not
yet sent, or lost to a collector that has failed; a task ends after its last message;
the tasks awaited have ended; and a collector that succeeds has awaited them all. -/
structure Accounted (batch : SpamBatch) (r : BatchRun) : Prop where
  sent : ∃ lost, (r.delivered ++ r.unsent ++ lost).Perm batch.messages ∧
    (lost ≠ [] → ∃ e, r.result = some (.error e))
  ended : ∀ task ∈ r.tasks, task.ended = true → task.rest = []
  awaited : ∀ i < r.awaited, ∀ task, r.tasks[i]? = some task → task.ended = true
  bounded : r.awaited ≤ r.tasks.length
  joined : r.result = some (.ok ()) → r.awaited = r.tasks.length
  held : ∀ channel, r.held channel ≤ batch.capacity channel

theorem accounted_spawn (batch : SpamBatch) : Accounted batch batch.spawn where
  sent := by
    refine ⟨[], ?_, fun h => absurd rfl h⟩
    have hunsent : batch.spawn.unsent = batch.messages := by
      simp [unsent, SpamBatch.spawn, SpamBatch.messages, List.flatMap_map, List.flatMap_id']
    rw [hunsent]
    simp [SpamBatch.spawn]
  ended task htask hended := by
    obtain ⟨messages, -, rfl⟩ := List.mem_map.mp htask
    cases hended
  awaited i hi := absurd hi (Nat.not_lt_zero i)
  bounded := Nat.zero_le _
  joined h := by cases h
  held channel := Nat.zero_le _

/-- All tasks have ended once the collector has succeeded. -/
theorem Accounted.all_ended (h : Accounted batch r) (hresult : r.result = some (.ok ())) :
    ∀ task ∈ r.tasks, task.ended = true := by
  intro task htask
  obtain ⟨i, hi⟩ := List.mem_iff_getElem?.mp htask
  have hlt := (List.getElem?_eq_some_iff.mp hi).1
  exact h.awaited i (h.joined hresult ▸ hlt) task hi

/-- A task that changes while it runs is not among those awaited. -/
theorem Accounted.awaited_set (h : Accounted batch r) {i : Nat} {before : TaskState}
    (htask : r.tasks[i]? = some before) (hrunning : before.ended = false) (after : TaskState) :
    ∀ j < r.awaited, ∀ task, (r.tasks.set i after)[j]? = some task → task.ended = true := by
  intro j hj task hget
  have hne : i ≠ j := by
    rintro rfl
    have hended := h.awaited i hj before htask
    rw [hrunning] at hended
    cases hended
  rw [List.getElem?_set_ne hne] at hget
  exact h.awaited j hj task hget

theorem Accounted.ended_set (h : Accounted batch r) (i : Nat) {after : TaskState}
    (hafter : after.ended = true → after.rest = []) :
    ∀ task ∈ r.tasks.set i after, task.ended = true → task.rest = [] := by
  intro task htask
  rcases List.mem_or_eq_of_mem_set htask with hold | rfl
  · exact h.ended task hold
  · exact hafter

theorem Accounted.step (h : Accounted batch r) (hstep : r.step batch event = some r') :
    Accounted batch r' := by
  obtain ⟨lost, hperm, hlost⟩ := h.sent
  cases moved_of_step hstep with
  | send i message rest htask hresult hroom heq =>
    subst heq
    refine ⟨⟨lost, ?_, hlost⟩, h.ended_set i (by simp), h.awaited_set htask rfl _,
      by simpa using h.bounded, ?_, fun channel => ?_⟩
    · -- the message moves from the unsent ones to the delivered ones
      refine List.Perm.trans ?_ hperm
      rw [List.append_assoc r.delivered, List.singleton_append]
      exact ((flatMap_rest_perm htask).symm.append_left _).append_right _
    · intro hok
      rw [hresult] at hok
      cases hok
    · unfold BatchRun.held at hroom ⊢
      rw [List.countP_append, List.countP_singleton]
      split_ifs with hchannel
      · rw [decide_eq_true_eq] at hchannel
        rw [hchannel] at hroom
        exact hroom
      · exact h.held channel
  | lose i message rest htask hresult heq =>
    subst heq
    have hfailed : ∃ e, r.result = some (.error e) := by
      cases hr : r.result with
      | none => exact absurd hr hresult
      | some result =>
        cases result with
        | error e => exact ⟨e, rfl⟩
        | ok u =>
          have hended := h.all_ended hr _ (List.mem_of_getElem? htask)
          cases hended
    refine ⟨⟨message :: lost, ?_, fun _ => hfailed⟩, h.ended_set i (by simp),
      h.awaited_set htask rfl _, by simpa using h.bounded, by simpa using h.joined, h.held⟩
    refine List.Perm.trans ?_ hperm
    have hmove : ((r.tasks.set i ⟨rest, false⟩).flatMap TaskState.rest ++ message :: lost).Perm
        (r.unsent ++ lost) :=
      List.perm_middle.trans ((flatMap_rest_perm htask).symm.append_right lost)
    simpa [unsent, List.append_assoc] using hmove.append_left r.delivered
  | finish i htask heq =>
    subst heq
    refine ⟨⟨lost, ?_, hlost⟩, h.ended_set i (by simp), h.awaited_set htask rfl _,
      by simpa using h.bounded, by simpa using h.joined, h.held⟩
    simpa only [unsent, flatMap_rest_finish htask] using hperm
  | join task htask hended hresult heq =>
    subst heq
    have hlt := (List.getElem?_eq_some_iff.mp htask).1
    refine ⟨⟨lost, hperm, hlost⟩, h.ended, fun j hj other hget => ?_, hlt, ?_, h.held⟩
    · rcases Nat.lt_succ_iff_lt_or_eq.mp hj with hj | rfl
      · exact h.awaited j hj other hget
      · obtain rfl := Option.some.inj (htask.symm.trans hget)
        exact hended
    · intro hok
      rw [hresult] at hok
      cases hok
  | receive e hresult hawaited heq =>
    subst heq
    exact ⟨⟨lost, hperm, fun _ => ⟨e, rfl⟩⟩, h.ended, h.awaited, h.bounded,
      fun hok => (by cases hok), h.held⟩
  | batchSent hresult hawaited heq =>
    subst heq
    refine ⟨⟨lost, hperm, fun hne => ?_⟩, h.ended, h.awaited, h.bounded, fun _ => hawaited, h.held⟩
    obtain ⟨e, he⟩ := hlost hne
    rw [hresult] at he
    cases he

theorem accounted_of_run {events : List BatchEvent}
    (hrun : Execution.run (BatchRun.step batch) batch.spawn events = some r) :
    Accounted batch r :=
  Execution.invariant (fun _ _ _ _ hstep h => h.step hstep) (accounted_spawn batch) hrun
    (Execution.along_true _ _)

/-- While the collector has not failed, nothing is lost. -/
theorem Accounted.perm (h : Accounted batch r) (hresult : ∀ e, r.result ≠ some (.error e)) :
    (r.delivered ++ r.unsent).Perm batch.messages := by
  obtain ⟨lost, hperm, hlost⟩ := h.sent
  obtain rfl : lost = [] := by
    by_contra hne
    obtain ⟨e, he⟩ := hlost hne
    exact hresult e he
  simpa using hperm

theorem Accounted.unsent_eq_nil (h : Accounted batch r)
    (hended : ∀ task ∈ r.tasks, task.ended = true) : r.unsent = [] :=
  List.flatMap_eq_nil_iff.mpr fun task htask => h.ended task htask (hended task htask)

/-- **A collected batch.** Once the collector has awaited every task, the channels hold
the messages of all tasks, in some order. -/
theorem Accounted.delivered_perm (h : Accounted batch r) (hresult : r.result = some (.ok ())) :
    r.delivered.Perm batch.messages := by
  have hperm := h.perm fun e he => by
    rw [hresult] at he
    cases he
  rwa [h.unsent_eq_nil (h.all_ended hresult), List.append_nil] at hperm

/-- The batch that `collect_pending_batch` goes on with delivers the messages of all
tasks. -/
theorem Accounted.delivers (h : Accounted batch r) (hresult : r.result = some (.ok ()))
    (numPayloads : Nat) :
    (r.pending numPayloads).Delivers (batch.messages.filterMap TaskMessage.spam?) := by
  have hperm := (h.delivered_perm hresult).filterMap TaskMessage.spam?
  exact ⟨by simp [pending, hresult], hperm.filterMap _, hperm.filterMap _, hperm.count_eq _⟩

/-- The messages of a batch for one channel. -/
theorem Accounted.held_add_unsent (h : Accounted batch r)
    (hresult : ∀ e, r.result ≠ some (.error e)) (channel : Channel) :
    r.held channel + r.unsent.countP (fun message => message.channel = channel) =
      batch.messages.countP fun message => message.channel = channel := by
  have hcount := (h.perm hresult).countP_eq fun message => message.channel = channel
  rwa [List.countP_append] at hcount

theorem countP_unsent_pos {i : Nat} {message : TaskMessage} {rest : List TaskMessage}
    (htask : r.tasks[i]? = some ⟨message :: rest, false⟩) :
    0 < r.unsent.countP fun m => m.channel = message.channel := by
  refine List.countP_pos_iff.mpr ⟨message, ?_, by simp⟩
  exact List.mem_flatMap.mpr ⟨_, List.mem_of_getElem? htask, List.mem_cons_self⟩

/-- A channel with room for all messages of the batch has room for the next one. -/
theorem Accounted.room (h : Accounted batch r) (hresult : r.result = none) {i : Nat}
    {message : TaskMessage} {rest : List TaskMessage}
    (htask : r.tasks[i]? = some ⟨message :: rest, false⟩)
    (hcapacity : (batch.messages.countP fun m => m.channel = message.channel) ≤
      batch.capacity message.channel) :
    r.held message.channel < batch.capacity message.channel := by
  have hsum := h.held_add_unsent (by simp [hresult]) message.channel
  have hpos := countP_unsent_pos htask
  omega

end BatchRun

/-! ### Failed bundles -/

namespace SpamBatch

/-- The number of bundles that could not be sent. -/
def failures (batch : SpamBatch) : Nat :=
  batch.messages.countP fun message => message.channel = .error

/-- There is room for every message but the errors of bundles, of which the channel
holds one. -/
structure Roomy (batch : SpamBatch) : Prop where
  error : batch.capacity .error = 1
  others : ∀ channel, channel ≠ .error →
    (batch.messages.countP fun message => message.channel = channel) ≤ batch.capacity channel

/-- If a bundle could not be sent, the batch ends with an error under every
schedule. -/
def SurfacesFailure (batch : SpamBatch) : Prop :=
  0 < batch.failures →
    Execution.Inevitable (BatchRun.step batch) (fun r => ∃ e, r.result = some (.error e))
      batch.spawn

variable {batch : SpamBatch} {r : BatchRun}

/-- A task can go on unless it has ended, or has an error to send while the channel is
full. -/
theorem exists_task_step (hroomy : batch.Roomy) (h : r.Accounted batch)
    (hresult : r.result = none) {i : Nat} {task : TaskState} (htask : r.tasks[i]? = some task)
    (hended : task.ended = false)
    (hfree : ∀ message ∈ task.rest, message.channel = .error → r.held .error < 1) :
    ∃ event r', r.step batch event = some r' ∧ r'.result = none := by
  obtain ⟨rest, ended⟩ := task
  obtain rfl : ended = false := hended
  cases rest with
  | nil =>
    refine ⟨.finish i, { r with tasks := r.tasks.set i ⟨[], true⟩ }, ?_, hresult⟩
    simp [BatchRun.step, htask]
  | cons message rest =>
    have hroom : r.held message.channel < batch.capacity message.channel := by
      by_cases hchannel : message.channel = .error
      · rw [hchannel, hroomy.error]
        exact hfree message List.mem_cons_self hchannel
      · exact h.room hresult htask (hroomy.others _ hchannel)
    refine ⟨.send i, { r with
      tasks := r.tasks.set i ⟨rest, false⟩, delivered := r.delivered ++ [message] }, ?_, hresult⟩
    simp [BatchRun.step, htask, BatchRun.put, hresult, hroom]

/-- The collector never waits forever: a state in which nothing can happen has a
result. -/
theorem result_of_stuck (hroomy : batch.Roomy) (h : r.Accounted batch)
    (hstuck : Execution.Stuck (BatchRun.step batch) r) : r.result ≠ none := by
  intro hresult
  rcases Nat.lt_or_eq_of_le h.bounded with hlt | hall
  · -- the task awaited can go on, or the error channel can be read
    have htask : r.tasks[r.awaited]? = some (r.tasks.get ⟨r.awaited, hlt⟩) :=
      List.getElem?_eq_getElem hlt
    generalize r.tasks.get ⟨r.awaited, hlt⟩ = task at htask
    obtain ⟨rest, ended⟩ := task
    cases ended with
    | true =>
      have hjoin := hstuck .join
      simp [BatchRun.step, hresult, htask] at hjoin
    | false =>
      by_cases hfree : r.held .error < 1
      · obtain ⟨event, r', hstep, -⟩ := exists_task_step hroomy h hresult htask rfl
          fun _ _ _ => hfree
        rw [hstuck event] at hstep
        cases hstep
      · obtain ⟨message, hmem, hchannel⟩ := List.countP_pos_iff.mp (Nat.pos_of_ne_zero
          fun hzero => hfree (by unfold BatchRun.held; rw [hzero]; exact Nat.one_pos))
        have herror : ∃ e, e ∈ r.delivered.filterMap TaskMessage.error? := by
          rw [decide_eq_true_eq] at hchannel
          cases message with
          | error e => exact ⟨e, List.mem_filterMap.mpr ⟨_, hmem, rfl⟩⟩
          | spam message => cases message <;> cases hchannel
        have hreceive := hstuck .receive
        cases herrors : r.delivered.filterMap TaskMessage.error? with
        | nil =>
          obtain ⟨e, he⟩ := herror
          rw [herrors] at he
          cases he
        | cons e errors => simp [BatchRun.step, hresult, htask, herrors] at hreceive
  · have hsent := hstuck .batchSent
    simp [BatchRun.step, hresult, hall] at hsent

/-- A run that has succeeded had at most one error to report. -/
theorem failures_le_one (hroomy : batch.Roomy) (h : r.Accounted batch)
    (hresult : r.result = some (.ok ())) : batch.failures ≤ 1 := by
  have hcount := (h.delivered_perm hresult).countP_eq fun message => message.channel = .error
  have hheld := h.held .error
  rw [hroomy.error] at hheld
  unfold failures
  rw [← hcount]
  exact hheld

/-- A run that has succeeded has seen no error of the callback. -/
theorem onBatchSent_of_ok {events : List BatchEvent}
    (hrun : Execution.run (BatchRun.step batch) batch.spawn events = some r)
    (hresult : r.result = some (.ok ())) : batch.onBatchSent.getD (.ok ()) = .ok () := by
  have hinv : r.result = some (.ok ()) → batch.onBatchSent.getD (.ok ()) = .ok () := by
    refine Execution.invariant
      (I := fun r => r.result = some (.ok ()) → batch.onBatchSent.getD (.ok ()) = .ok ())
      (fun r event r' _ hstep h hok => ?_) (fun hok => by cases hok) hrun
      (Execution.along_true _ _)
    cases BatchRun.moved_of_step hstep with
    | receive e hresult hawaited heq =>
      rw [heq] at hok
      cases hok
    | batchSent hresult hawaited heq =>
      rw [heq] at hok
      exact Option.some.inj hok
    | send i message rest htask hresult hroom heq =>
      rw [heq] at hok
      exact h hok
    | lose i message rest htask hresult heq =>
      rw [heq] at hok
      exact h hok
    | finish i htask heq =>
      rw [heq] at hok
      exact h hok
    | join task htask hended hresult heq =>
      rw [heq] at hok
      exact h hok
  exact hinv hresult

theorem stuck_of_ended (hresult : r.result ≠ none)
    (hended : ∀ task ∈ r.tasks, task.ended = true) :
    Execution.Stuck (BatchRun.step batch) r := by
  intro event
  by_contra hsome
  obtain ⟨r', hstep⟩ := Option.ne_none_iff_exists'.mp hsome
  cases BatchRun.moved_of_step hstep with
  | send i message rest htask hnone hroom heq => exact hresult hnone
  | lose i message rest htask hnone heq => cases hended _ (List.mem_of_getElem? htask)
  | finish i htask heq => cases hended _ (List.mem_of_getElem? htask)
  | join task htask hended hnone heq => exact hresult hnone
  | receive e hnone hawaited heq => exact hresult hnone
  | batchSent hnone hawaited heq => exact hresult hnone

/-- With at most one error to report, the tasks can all end before the collector looks
at the error channel. -/
theorem exists_run_ok (hroomy : batch.Roomy) (hfailures : batch.failures ≤ 1)
    (hsent : batch.onBatchSent.getD (.ok ()) = .ok ()) :
    ∃ events r, Execution.run (BatchRun.step batch) batch.spawn events = some r ∧
      Execution.Stuck (BatchRun.step batch) r ∧ r.result = some (.ok ()) := by
  have hprogress : ∀ r : BatchRun, (r.Accounted batch ∧ r.result = none) →
      ¬((∀ task ∈ r.tasks, task.ended = true) ∧ r.awaited = r.tasks.length) →
      ∃ event r', r.step batch event = some r' ∧ (r'.Accounted batch ∧ r'.result = none) ∧
        r'.work < r.work := by
    rintro r ⟨h, hresult⟩ hgoal
    by_cases hended : ∀ task ∈ r.tasks, task.ended = true
    · -- all tasks have ended: the collector goes on to the next one
      have hlt : r.awaited < r.tasks.length :=
        lt_of_le_of_ne h.bounded fun heq => hgoal ⟨hended, heq⟩
      have htask : r.tasks[r.awaited]? = some (r.tasks.get ⟨r.awaited, hlt⟩) :=
        List.getElem?_eq_getElem hlt
      generalize r.tasks.get ⟨r.awaited, hlt⟩ = task at htask
      obtain ⟨rest, ended⟩ := task
      obtain rfl : ended = true := hended _ (List.mem_of_getElem? htask)
      have hstep : r.step batch .join = some { r with awaited := r.awaited + 1 } := by
        simp [BatchRun.step, hresult, htask]
      exact ⟨.join, _, hstep, ⟨h.step hstep, hresult⟩, BatchRun.work_lt_of_step hstep⟩
    · push Not at hended
      obtain ⟨task, hmem, hrunning⟩ := hended
      obtain ⟨i, htask⟩ := List.mem_iff_getElem?.mp hmem
      -- an error that is still to be sent is the only one
      have hfree : ∀ message ∈ task.rest, message.channel = .error → r.held .error < 1 := by
        intro message hmessage hchannel
        have hsum := h.held_add_unsent (by simp [hresult]) .error
        have hpos : 0 < r.unsent.countP fun m => m.channel = .error :=
          List.countP_pos_iff.mpr
            ⟨message, List.mem_flatMap.mpr ⟨task, hmem, hmessage⟩, by simpa using hchannel⟩
        unfold failures at hfailures
        omega
      obtain ⟨event, r', hstep, hnone⟩ :=
        exists_task_step hroomy h hresult htask (by simpa using hrunning) hfree
      exact ⟨event, r', hstep, ⟨h.step hstep, hnone⟩, BatchRun.work_lt_of_step hstep⟩
  obtain ⟨events, r, hrun, ⟨h, hresult⟩, hended, hawaited⟩ :=
    Execution.exists_run_to hprogress ⟨BatchRun.accounted_spawn batch, rfl⟩
  refine ⟨events ++ [.batchSent], { r with result := some (.ok ()) }, ?_,
    stuck_of_ended (by simp) hended, rfl⟩
  refine Execution.run_append_eq_some.mpr ⟨r, hrun, ?_⟩
  rw [Execution.run_singleton]
  simp [BatchRun.step, hresult, hawaited, hsent]

/-- **Failed bundles.** A failed send surfaces under every schedule exactly when there
is not just one of them, or the callback fails as well. -/
theorem surfacesFailure_iff_of_roomy (hroomy : batch.Roomy) :
    batch.SurfacesFailure ↔
      batch.failures ≠ 1 ∨ batch.onBatchSent.getD (.ok ()) ≠ .ok () := by
  constructor
  · intro hsurfaces
    by_contra hcond
    push Not at hcond
    obtain ⟨hone, hsent⟩ := hcond
    obtain ⟨events, r, hrun, hstuck, hok⟩ := exists_run_ok hroomy hone.le hsent
    obtain ⟨e, he⟩ := (hsurfaces (hone ▸ Nat.one_pos)).ends events r hrun hstuck
    rw [hok] at he
    cases he
  · intro hcond hpos
    refine ⟨⟨batch.spawn.work, fun events r hrun => ?_⟩, fun events r hrun hstuck => ?_⟩
    · exact Execution.length_le_measure
        (fun _ _ _ hstep => BatchRun.work_lt_of_step hstep) hrun
    · have h := BatchRun.accounted_of_run hrun
      obtain ⟨result, hresult⟩ := Option.ne_none_iff_exists'.mp (result_of_stuck hroomy h hstuck)
      cases result with
      | error e => exact ⟨e, hresult⟩
      | ok u =>
        rcases hcond with hne | hsent
        · have hle := failures_le_one hroomy h hresult
          omega
        · exact absurd (onBatchSent_of_ok hrun hresult) hsent

end SpamBatch

end Contender
