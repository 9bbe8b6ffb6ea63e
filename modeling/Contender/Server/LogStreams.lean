import Contender.Data.Broadcast
import Contender.Server.LogRouting

/-!
# Log streams

A client subscribes to the log lines of a session over a WebSocket, or as server-sent events. Its
task takes the lines from the session's channel and hands them on, until the session's token is
cancelled or the client has gone. A task that has fallen too far behind goes on with the oldest line
that is left if it serves events, and ends if it serves a WebSocket.

The sessions come and go meanwhile, and their ids may be drawn again. While one is added or removed,
its call may hold the map of the channels, and what is logged then is lost.

## Main results

* `received_lines` — a client gets lines of its own session only, in the order they are sent, and
  without a gap unless its task has skipped some; it gets none when the session's channel is not in
  the map. Every line that is logged is sent, lost, or still being sent
-/

namespace Contender.Server.LogStreams

open List Semantics Journal Broadcast LogRouting

/-- How many lines the channel of a session keeps. -/
def logCapacity : ℕ := 4096

/-- How many lines may wait for a client of server-sent events. -/
def sseCapacity : ℕ := 256

inductive Client
  | sse
  | webSocket
  deriving DecidableEq, Repr

/-- The queue takes one more line. That of a WebSocket is shared with the other messages of its
connection, and may take a line at any time. -/
def Client.HasRoom (client : Client) (queue : List Text) : Prop :=
  client = .sse → queue.length < sseCapacity

instance (client : Client) (queue : List Text) : Decidable (client.HasRoom queue) :=
  inferInstanceAs (Decidable (client = .sse → queue.length < sseCapacity))

/-- A subscription: what its task has taken from the channel, and what the client has received. -/
structure LogStream where
  session : LoggedSession
  client : Client
  start : ℕ
  next : ℕ
  taken : Option Text
  queue : List Text
  received : List Text
  skipped : ℕ
  running : Bool
  connected : Bool
  deriving DecidableEq, Repr

namespace LogStream

/-- The subscription starts after the lines that have been sent. -/
def subscribe (session : LoggedSession) (client : Client) (sent : List Text) : LogStream where
  session
  client
  start := sent.length
  next := sent.length
  taken := none
  queue := []
  received := []
  skipped := 0
  running := true
  connected := true

end LogStream

/-- A step of the task, or of the client (`read` and `disconnect`). -/
inductive StreamEvent
  | recv
  | send
  | stop
  | read
  | disconnect
  deriving DecidableEq, Repr

/-- The step of a stream, on a channel with these lines. -/
def LogStream.step (lines : List Text) (closed cancelled : Bool) (stream : LogStream) :
    StreamEvent → Option LogStream
  | .recv =>
    if stream.running ∧ stream.taken = none then
      match recv logCapacity lines stream.next with
      | .value msg => some { stream with taken := some msg, next := stream.next + 1 }
      | .lagged n =>
        match stream.client with
        | .sse => some { stream with next := stream.next + n, skipped := stream.skipped + n }
        | .webSocket => some { stream with running := false }
      | .empty => if closed then some { stream with running := false } else none
    else none
  -- while it waits for room in the queue, the task does not look at the token
  | .send =>
    match stream.taken with
    | some msg =>
      if stream.connected then
        if stream.client.HasRoom stream.queue then
          some { stream with taken := none, queue := stream.queue ++ [msg] }
        else none
      else some { stream with taken := none, running := false }
    | none => none
  | .stop =>
    if stream.running ∧ stream.taken = none ∧ cancelled then some { stream with running := false }
    else none
  | .read =>
    match stream.queue with
    | msg :: queue => some { stream with queue, received := stream.received ++ [msg] }
    | [] => none
  | .disconnect =>
    if stream.connected then some { stream with connected := false, queue := [] } else none

/-- The sessions and their channels, the subscriptions so far, and the channels of the sessions
whose token is cancelled. -/
structure State where
  routing : LogRouting.State
  streams : List LogStream
  cancelled : List LogChannel

def State.initial : State := ⟨.initial, [], []⟩

/-- The lines that have been sent on a channel. -/
def linesOn (delivered : List (LogChannel × Text)) (channel : LogChannel) : List Text :=
  (delivered.filter (·.1 = channel)).map Prod.snd

/-- No sender of the channel is left. -/
def closed (s : LogRouting.State) (channel : LogChannel) : Bool :=
  !(s.sessions.any (·.logChannel = channel) || s.logSinks.senders.entries.any (·.2 = channel))

/-- The channels of the sessions with the id. -/
def channelsOf (sessions : List LoggedSession) (id : SessionId) : List LogChannel :=
  (sessions.filter (·.id = id)).map LoggedSession.logChannel

inductive Event
  | routing (event : LogRouting.Event)
  | cancel (id : SessionId)
  | subscribe (client : Client) (id : SessionId)
  | stream (i : ℕ) (event : StreamEvent)
  deriving DecidableEq, Repr

def step (s : State) : Event → Option State
  | .routing event => (LogRouting.step s.routing event).map fun routing => { s with routing }
  -- by `remove_session`, or by the session's own contender
  | .cancel id => some { s with cancelled := s.cancelled ++ channelsOf s.routing.sessions id }
  | .subscribe client id =>
    -- the lock of the sessions is free, and the session is there
    match s.routing.call, s.routing.sessions.find? (·.id = id) with
    | none, some session =>
      let sent := linesOn s.routing.delivered session.logChannel
      some { s with streams := s.streams ++ [.subscribe session client sent] }
    | _, _ => none
  | .stream i event =>
    match s.streams[i]? with
    | some stream =>
      let channel := stream.session.logChannel
      (stream.step (linesOn s.routing.delivered channel) (closed s.routing channel)
        (s.cancelled.contains channel) event).map fun next =>
          { s with streams := s.streams.set i next }
    | none => none

/-! ### The lines of a session -/

/-- The log event that a step of the routing sends, to whichever channel. -/
def logEvents : LogRouting.Event → List LogEvent
  | .logSent event => [event]
  | .addSession _ | .newSession _ | .register | .pushSession | .removeSession _ | .deregister
  | .retainSessions | .releaseWrite | .logEvent _ => []

/-- What becomes of a log event: it gets the map for reading, or is lost because a call holds the
map; and it sends its line, if the map has a channel for it. -/
inductive LogOutcome
  | started (event : LogEvent)
  | lost (event : LogEvent)
  | sent (event : LogEvent)
  deriving DecidableEq, Repr

/-- The event, at the moment it is logged. -/
def LogOutcome.logged? : LogOutcome → Option LogEvent
  | .started event | .lost event => some event
  | .sent _ => none

def LogOutcome.lost? : LogOutcome → Option LogEvent
  | .lost event => some event
  | .started _ | .sent _ => none

def LogOutcome.sent? : LogOutcome → Option LogEvent
  | .sent event => some event
  | .started _ | .lost _ => none

def loggedEvents (record : List LogOutcome) : List LogEvent :=
  record.filterMap LogOutcome.logged?

def lostEvents (record : List LogOutcome) : List LogEvent := record.filterMap LogOutcome.lost?

def sentEvents (record : List LogOutcome) : List LogEvent := record.filterMap LogOutcome.sent?

def outcomes (s : LogRouting.State) : LogRouting.Event → List LogOutcome
  | .logEvent event => if s.logSinks.writer then [.lost event] else [.started event]
  | .logSent event => [.sent event]
  | .addSession _ | .newSession _ | .register | .pushSession | .removeSession _ | .deregister
  | .retainSessions | .releaseWrite => []

def logged (s : State) : Event → List LogOutcome
  | .routing event => outcomes s.routing event
  | .cancel _ | .subscribe _ _ | .stream _ _ => []

/-- The lines among the log events that are for the session. -/
def linesFor (id : SessionId) (events : List LogEvent) : List Text :=
  (events.filter (·.sessionId = id)).map LogEvent.formatted

/-- The client has received all lines of the channel since its subscription, or has skipped
them. -/
structure LogStream.CaughtUp (stream : LogStream) (lines : List Text) : Prop where
  connected : stream.connected = true
  taken : stream.taken = none
  queue : stream.queue = []
  next : stream.next = lines.length

variable {s t : LogRouting.State} {stream stream' : LogStream} {lines : List Text}
  {journal : List (Entry SessionId LogChannel)} {e : Entry SessionId LogChannel}
  {session : LoggedSession} {id : SessionId} {channel : LogChannel}

/-! ### One stream -/

/-- What the client has received is what the task has taken from the channel, up to what is still
on its way. -/
structure LogStream.Reading (lines : List Text) (stream : LogStream) : Prop where
  reads : ∃ rest, Reads lines stream.start stream.next (stream.received ++ rest) stream.skipped ∧
    (stream.connected = true → rest = stream.queue ++ stream.taken.toList)
  queue : stream.connected = false → stream.queue = []
  skipped : stream.client = .webSocket → stream.skipped = 0

theorem LogStream.reading_subscribe (session : LoggedSession) (client : Client)
    (sent : List Text) : (subscribe session client sent).Reading sent where
  reads := ⟨[], reads_subscribe sent, fun _ => rfl⟩
  queue _ := rfl
  skipped _ := rfl

theorem LogStream.Reading.append (h : stream.Reading lines) (rest : List Text) :
    stream.Reading (lines ++ rest) where
  reads := by
    obtain ⟨unread, hreads, hunread⟩ := h.reads
    exact ⟨unread, hreads.send rest, hunread⟩
  queue := h.queue
  skipped := h.skipped

/-- A step keeps the subscription and reads on. -/
theorem LogStream.Reading.step {isClosed cancelled : Bool} {event : StreamEvent}
    (h : stream.Reading lines) (hstep : stream.step lines isClosed cancelled event = some stream') :
    stream'.Reading lines ∧ stream'.session = stream.session ∧ stream'.client = stream.client ∧
      stream'.start = stream.start := by
  obtain ⟨rest, hreads, hrest⟩ := h.reads
  cases event with
  | recv =>
    rw [LogStream.step] at hstep
    split at hstep
    case isFalse => cases hstep
    rename_i hidle
    split at hstep
    case h_1 msg hrecv =>
      obtain rfl := Option.some.inj hstep
      refine ⟨⟨⟨rest ++ [msg], ?_, fun hconnected => ?_⟩, h.queue, h.skipped⟩, rfl, rfl, rfl⟩
      · rw [← List.append_assoc]
        exact hreads.value (recv_eq_value hrecv)
      · rw [hrest hconnected, hidle.2, Option.toList_none, List.append_nil, Option.toList_some]
    case h_2 n hrecv =>
      split at hstep
      case h_1 hclient =>
        obtain rfl := Option.some.inj hstep
        have hlag := recv_eq_lagged hrecv
        refine ⟨⟨⟨rest, hreads.lagged (by omega), hrest⟩, h.queue, fun hws => ?_⟩, rfl, rfl, rfl⟩
        cases hclient.symm.trans hws
      case h_2 =>
        obtain rfl := Option.some.inj hstep
        exact ⟨⟨h.reads, h.queue, h.skipped⟩, rfl, rfl, rfl⟩
    case h_3 =>
      split_ifs at hstep
      obtain rfl := Option.some.inj hstep
      exact ⟨⟨h.reads, h.queue, h.skipped⟩, rfl, rfl, rfl⟩
  | send =>
    rw [LogStream.step] at hstep
    split at hstep
    case h_2 => cases hstep
    case h_1 msg htaken =>
      split_ifs at hstep with hconnected hroom
      · obtain rfl := Option.some.inj hstep
        refine ⟨⟨⟨rest, hreads, fun _ => ?_⟩, fun hgone => ?_, h.skipped⟩, rfl, rfl, rfl⟩
        · rw [hrest hconnected, htaken, Option.toList_none, List.append_nil, Option.toList_some]
        · exact (ne_true_of_eq_false hgone hconnected).elim
      · obtain rfl := Option.some.inj hstep
        exact ⟨⟨⟨rest, hreads, fun hup => (hconnected hup).elim⟩, h.queue, h.skipped⟩, rfl, rfl,
          rfl⟩
  | stop =>
    rw [LogStream.step] at hstep
    split_ifs at hstep
    obtain rfl := Option.some.inj hstep
    exact ⟨⟨h.reads, h.queue, h.skipped⟩, rfl, rfl, rfl⟩
  | read =>
    rw [LogStream.step] at hstep
    split at hstep
    case h_2 => cases hstep
    case h_1 msg queue hqueue =>
      obtain rfl := Option.some.inj hstep
      have hconnected : stream.connected = true := by
        rw [← Bool.not_eq_false]
        intro hgone
        cases hqueue.symm.trans (h.queue hgone)
      refine ⟨⟨⟨queue ++ stream.taken.toList, ?_, fun _ => rfl⟩, fun hgone => ?_, h.skipped⟩,
        rfl, rfl, rfl⟩
      · rw [hrest hconnected, hqueue] at hreads
        rw [List.append_assoc]
        exact hreads
      · exact (ne_true_of_eq_false hgone hconnected).elim
  | disconnect =>
    rw [LogStream.step] at hstep
    split_ifs at hstep
    obtain rfl := Option.some.inj hstep
    exact ⟨⟨⟨rest, hreads, nofun⟩, fun _ => rfl, h.skipped⟩, rfl, rfl, rfl⟩

/-- What has been received is a part of the lines since the subscription, in their order. -/
theorem LogStream.Reading.received_sublist (h : stream.Reading lines) :
    stream.received <+ lines.drop stream.start := by
  obtain ⟨rest, hreads, -⟩ := h.reads
  exact (List.sublist_append_left _ _).trans hreads.sublist_drop

/-- Without a skip it is a prefix of them. -/
theorem LogStream.Reading.received_prefix (h : stream.Reading lines)
    (hskipped : stream.skipped = 0) :
    stream.received <+: lines.drop stream.start := by
  obtain ⟨rest, hreads, -⟩ := h.reads
  exact (List.prefix_append _ _).trans (hskipped ▸ hreads).prefix_of_no_skips

/-- A client that has caught up without a skip has them all. -/
theorem LogStream.Reading.received_eq (h : stream.Reading lines) (hskipped : stream.skipped = 0)
    (hcaught : stream.CaughtUp lines) : stream.received = lines.drop stream.start := by
  obtain ⟨rest, hreads, hrest⟩ := h.reads
  have hempty : rest = [] := by
    rw [hrest hcaught.connected, hcaught.queue, hcaught.taken]
    rfl
  rw [hempty, List.append_nil, hskipped] at hreads
  rw [hreads.eq_of_no_skips, hcaught.next, List.take_length]

/-! ### One channel -/

theorem linesOn_append (delivered rest : List (LogChannel × Text)) (channel : LogChannel) :
    linesOn (delivered ++ rest) channel = linesOn delivered channel ++ linesOn rest channel := by
  rw [linesOn, List.filter_append, List.map_append]
  rfl

theorem linesFor_append (id : SessionId) (events rest : List LogEvent) :
    linesFor id (events ++ rest) = linesFor id events ++ linesFor id rest := by
  rw [linesFor, List.filter_append, List.map_append]
  rfl

/-- What a step of the routing sends, and on which channel. -/
def sent (s : LogRouting.State) : LogRouting.Event → List (LogChannel × Text)
  | .logSent event => ((s.logSinks.route event.sessionId).map (·, event.formatted)).toList
  | .addSession _ | .newSession _ | .register | .pushSession | .removeSession _ | .deregister
  | .retainSessions | .releaseWrite | .logEvent _ => []

theorem delivered_step {a : LogRouting.Event} (hstep : LogRouting.step s a = some t) :
    t.delivered = s.delivered ++ sent s a := by
  cases a with
  | logSent event =>
    rw [LogRouting.step] at hstep
    split_ifs at hstep
    obtain rfl := Option.some.inj hstep
    rfl
  | addSession | removeSession | releaseWrite =>
    rw [LogRouting.step] at hstep
    split_ifs at hstep
    obtain rfl := Option.some.inj hstep
    exact (List.append_nil _).symm
  | newSession created =>
    rw [LogRouting.step] at hstep
    split at hstep
    case h_2 => cases hstep
    split_ifs at hstep <;>
    · obtain rfl := Option.some.inj hstep
      exact (List.append_nil _).symm
  | register | deregister =>
    rw [LogRouting.step] at hstep
    split at hstep
    case h_2 => cases hstep
    obtain rfl := Option.some.inj hstep
    exact (List.append_nil _).symm
  | pushSession | retainSessions =>
    rw [LogRouting.step] at hstep
    split at hstep
    case h_2 => cases hstep
    split_ifs at hstep
    obtain rfl := Option.some.inj hstep
    exact (List.append_nil _).symm
  | logEvent event =>
    obtain rfl := Option.some.inj hstep
    exact (List.append_nil _).symm

/-- The map has a channel for the id only that its channel was created for. -/
theorem key_of_route (h : Journaled journal s) (he : e ∈ journal) (hvalue : channel ∈ e.value)
    (hroute : s.logSinks.route id = some channel) : id = e.key := by
  rw [h.route, replay_eq_bind] at hroute
  obtain ⟨f, hf, hchannel⟩ := Option.bind_eq_some_iff.mp hroute
  have hmem : f ∈ journal := (List.mem_filter.mp (mem_of_mem_lastOn hf)).1
  have hsame : e = f := by
    by_contra hne
    exact h.fresh.notMem he hmem hne hvalue hchannel
  rw [hsame, key_of_mem_lastOn hf]

/-- A channel that is not in the map does not get into it later. -/
theorem route_of_step {a : LogRouting.Event} (h : Journaled journal s) (he : e ∈ journal)
    (hvalue : channel ∈ e.value) (hstep : LogRouting.step s a = some t)
    (hroute : t.logSinks.route id = some channel) : s.logSinks.route id = some channel := by
  have hnext := h.step hstep
  rw [hnext.route] at hroute
  rw [h.route]
  exact replay_landed_of_append hnext.fresh he hvalue hroute

/-- A live session has its entry in the journal. -/
theorem exists_entry (h : Journaled journal s) (hcall : s.call = none)
    (hsession : session ∈ s.sessions) :
    ∃ e ∈ journal, e.key = session.id ∧ session.logChannel ∈ e.value := by
  have hsettled : s.settled = s.sessions := by rw [State.settled, hcall]
  have hchannel : replay journal session.id = some session.logChannel := by
    rw [← h.settled, hsettled]
    exact channels_of_mem (hsettled ▸ h.nodup) hsession
  rw [replay_eq_bind] at hchannel
  obtain ⟨e, he, hvalue⟩ := Option.bind_eq_some_iff.mp hchannel
  exact ⟨e, mem_of_mem_lastOn he, key_of_mem_lastOn he, hvalue⟩

/-- A step sends on the channel what it logs for the session, if the map has the channel, and
nothing otherwise. -/
theorem linesOn_sent (h : Journaled journal s) (he : e ∈ journal)
    (hkey : e.key = session.id) (hvalue : session.logChannel ∈ e.value) (a : LogRouting.Event) :
    linesOn (sent s a) session.logChannel =
      if s.logSinks.route session.id = some session.logChannel then
        linesFor session.id (logEvents a)
      else [] := by
  cases a with
  | logSent event =>
    rw [sent, logEvents, linesFor, List.filter_singleton]
    cases hroute : s.logSinks.route event.sessionId with
    | none =>
      split_ifs with hlive
      · have hne : event.sessionId ≠ session.id := by
          intro hid
          cases (hid ▸ hroute).symm.trans hlive
        rw [decide_eq_false hne]
        rfl
      · rfl
    | some channel =>
      rw [Option.map_some, Option.toList_some, linesOn, List.filter_singleton]
      by_cases hchannel : channel = session.logChannel
      · have hid : event.sessionId = session.id :=
          (key_of_route h he hvalue (hchannel ▸ hroute)).trans hkey
        rw [if_pos (by rw [← hid, hroute, hchannel]), decide_eq_true hchannel, decide_eq_true hid]
        rfl
      · rw [decide_eq_false hchannel]
        split_ifs with hlive
        · have hne : event.sessionId ≠ session.id := by
            intro hid
            exact hchannel (Option.some.inj ((hid ▸ hroute).symm.trans hlive))
          rw [decide_eq_false hne]
          rfl
        · rfl
  | addSession | newSession | register | pushSession | removeSession | deregister
  | retainSessions | releaseWrite | logEvent =>
    rw [logEvents, linesFor, List.filter_nil, List.map_nil, ite_self]
    rfl

/-- What has come on the channel of a session from `start` on, when these events have been sent
meanwhile. -/
structure Carries (registered : Prop) (session : LoggedSession) (start : ℕ)
    (record : List LogEvent) (s : LogRouting.State) : Prop where
  owned : ∃ journal, Journaled journal s ∧ ∃ e ∈ journal,
    e.key = session.id ∧ session.logChannel ∈ e.value
  start_le : start ≤ (linesOn s.delivered session.logChannel).length
  lines : (linesOn s.delivered session.logChannel).drop start <+: linesFor session.id record
  routed : s.logSinks.route session.id = some session.logChannel →
    (linesOn s.delivered session.logChannel).drop start = linesFor session.id record
  silent : ¬ registered → s.logSinks.route session.id ≠ some session.logChannel ∧
    (linesOn s.delivered session.logChannel).drop start = []

theorem Carries.step {registered : Prop} {start : ℕ} {record : List LogEvent}
    {a : LogRouting.Event} (h : Carries registered session start record s)
    (hstep : LogRouting.step s a = some t) :
    Carries registered session start (record ++ logEvents a) t := by
  obtain ⟨journal, hjournal, e, he, hkey, hvalue⟩ := h.owned
  have hdelivered : linesOn t.delivered session.logChannel =
      linesOn s.delivered session.logChannel ++ linesOn (sent s a) session.logChannel := by
    rw [delivered_step hstep, linesOn_append]
  have hdrop : (linesOn t.delivered session.logChannel).drop start =
      (linesOn s.delivered session.logChannel).drop start ++
        linesOn (sent s a) session.logChannel := by
    rw [hdelivered, List.drop_append_of_le_length h.start_le]
  have hsent := linesOn_sent hjournal he hkey hvalue a
  have hstay : t.logSinks.route session.id = some session.logChannel →
      s.logSinks.route session.id = some session.logChannel :=
    route_of_step hjournal he hvalue hstep
  refine ⟨⟨_, hjournal.step hstep, e, List.mem_append_left _ he, hkey, hvalue⟩, ?_, ?_, ?_, ?_⟩
  · rw [hdelivered, List.length_append]
    exact h.start_le.trans (Nat.le_add_right _ _)
  · rw [hdrop, hsent, linesFor_append]
    split_ifs with hlive
    · rw [h.routed hlive]
    · rw [List.append_nil]
      exact h.lines.trans (List.prefix_append _ _)
  · intro hroute
    rw [hdrop, hsent, if_pos (hstay hroute), h.routed (hstay hroute), linesFor_append]
  · intro hregistered
    obtain ⟨hsilent, hnothing⟩ := h.silent hregistered
    refine ⟨fun hroute => hsilent (hstay hroute), ?_⟩
    rw [hdrop, hsent, if_neg hsilent, hnothing, List.append_nil]

/-! ### Streams among the sessions -/

theorem sentEvents_outcomes (s : LogRouting.State) (a : LogRouting.Event) :
    sentEvents (outcomes s a) = logEvents a := by
  cases a with
  | logEvent event =>
    rw [outcomes]
    split_ifs <;> rfl
  | addSession | newSession | register | pushSession | removeSession | deregister
  | retainSessions | releaseWrite | logSent => rfl

/-- The stream at a position follows its session. -/
def Follows (registered : Prop) (session : LoggedSession) (client : Client) (i : ℕ)
    (record : List LogEvent) (s : State) : Prop :=
  ∃ stream, s.streams[i]? = some stream ∧ stream.session = session ∧ stream.client = client ∧
    stream.Reading (linesOn s.routing.delivered session.logChannel) ∧
    Carries registered session stream.start record s.routing

theorem Follows.step {registered : Prop} {client : Client} {i : ℕ} {record : List LogEvent}
    {s t : State} {a : Event} (h : Follows registered session client i record s)
    (hstep : step s a = some t) :
    Follows registered session client i (record ++ sentEvents (logged s a)) t := by
  obtain ⟨stream, hget, hsession, hclient, hreading, hcarries⟩ := h
  cases a with
  | routing event =>
    obtain ⟨routing, hrouting, rfl⟩ := Option.map_eq_some_iff.mp hstep
    rw [logged, sentEvents_outcomes]
    refine ⟨stream, hget, hsession, hclient, ?_, hcarries.step hrouting⟩
    dsimp only
    rw [delivered_step hrouting, linesOn_append]
    exact hreading.append _
  | cancel id =>
    obtain rfl := Option.some.inj hstep
    rw [logged, sentEvents, List.filterMap_nil, List.append_nil]
    exact ⟨stream, hget, hsession, hclient, hreading, hcarries⟩
  | subscribe client' id =>
    rw [logged, sentEvents, List.filterMap_nil, List.append_nil]
    rw [LogStreams.step] at hstep
    split at hstep
    case h_2 => cases hstep
    obtain rfl := Option.some.inj hstep
    have hlt := (List.getElem?_eq_some_iff.mp hget).1
    refine ⟨stream, ?_, hsession, hclient, hreading, hcarries⟩
    dsimp only
    rw [List.getElem?_append_left hlt, hget]
  | stream j event =>
    rw [logged, sentEvents, List.filterMap_nil, List.append_nil]
    rw [LogStreams.step] at hstep
    split at hstep
    case h_2 => cases hstep
    case h_1 stream' hget' =>
      obtain ⟨next, hnext, rfl⟩ := Option.map_eq_some_iff.mp hstep
      -- the task of another client leaves this one alone
      by_cases hij : j = i
      · subst hij
        obtain rfl : stream = stream' := Option.some.inj (hget.symm.trans hget')
        have hlt := (List.getElem?_eq_some_iff.mp hget).1
        rw [hsession] at hnext
        obtain ⟨hread, hsame, hkind, hstart⟩ := hreading.step hnext
        refine ⟨next, List.getElem?_set_self hlt, hsame.trans hsession, hkind.trans hclient, hread,
          ?_⟩
        rw [hstart]
        exact hcarries
      · exact ⟨stream, (List.getElem?_set_ne hij).trans hget, hsession, hclient, hreading, hcarries⟩

/-! ### The events that are logged -/

/-- Whoever waits for the lock, it is held for reading by the same events. -/
@[simp] theorem readers_tryWrite (sinks : SessionLogSinks)
    (change : AssocMap SessionId LogChannel → AssocMap SessionId LogChannel) :
    (sinks.tryWrite change).readers = sinks.readers := by
  unfold SessionLogSinks.tryWrite
  split_ifs <;> rfl

/-- What is logged in a step, or was being sent before, is sent, lost, or being sent after it. -/
theorem outcomes_perm {a : LogRouting.Event} (hstep : LogRouting.step s a = some t) :
    loggedEvents (outcomes s a) ++ s.logSinks.readers ~
      sentEvents (outcomes s a) ++ lostEvents (outcomes s a) ++ t.logSinks.readers := by
  cases a with
  | logEvent event =>
    obtain rfl := Option.some.inj hstep
    rw [outcomes, SessionLogSinks.tryRead]
    split_ifs <;> exact List.Perm.refl _
  | logSent event =>
    rw [LogRouting.step] at hstep
    split_ifs at hstep with hmem
    obtain rfl := Option.some.inj hstep
    exact List.perm_cons_erase hmem
  | addSession | removeSession | releaseWrite =>
    rw [LogRouting.step] at hstep
    split_ifs at hstep
    obtain rfl := Option.some.inj hstep
    exact List.Perm.refl _
  | newSession created =>
    rw [LogRouting.step] at hstep
    split at hstep
    case h_2 => cases hstep
    split_ifs at hstep <;>
    · obtain rfl := Option.some.inj hstep
      exact List.Perm.refl _
  | register | deregister =>
    rw [LogRouting.step] at hstep
    split at hstep
    case h_2 => cases hstep
    obtain rfl := Option.some.inj hstep
    simp [outcomes, loggedEvents, sentEvents, lostEvents]
  | pushSession | retainSessions =>
    rw [LogRouting.step] at hstep
    split at hstep
    case h_2 => cases hstep
    split_ifs at hstep
    obtain rfl := Option.some.inj hstep
    exact List.Perm.refl _

/-- Only the calls that change the map hold it, and no line is lost while nobody does. -/
theorem writer_of_step {a : LogRouting.Event} (hregister : a ≠ .register)
    (hderegister : a ≠ .deregister) (hfree : s.logSinks.writer = false)
    (hstep : LogRouting.step s a = some t) :
    t.logSinks.writer = false ∧ lostEvents (outcomes s a) = [] := by
  cases a with
  | register => exact absurd rfl hregister
  | deregister => exact absurd rfl hderegister
  | logEvent event =>
    obtain rfl := Option.some.inj hstep
    rw [outcomes, SessionLogSinks.tryRead, hfree]
    exact ⟨rfl, rfl⟩
  | releaseWrite =>
    rw [LogRouting.step, hfree] at hstep
    cases hstep
  | addSession | removeSession | logSent =>
    rw [LogRouting.step] at hstep
    split_ifs at hstep
    obtain rfl := Option.some.inj hstep
    exact ⟨hfree, rfl⟩
  | newSession created =>
    rw [LogRouting.step] at hstep
    split at hstep
    case h_2 => cases hstep
    split_ifs at hstep <;>
    · obtain rfl := Option.some.inj hstep
      exact ⟨hfree, rfl⟩
  | pushSession | retainSessions =>
    rw [LogRouting.step] at hstep
    split at hstep
    case h_2 => cases hstep
    split_ifs at hstep
    obtain rfl := Option.some.inj hstep
    exact ⟨hfree, rfl⟩

/-- Only a step of the routing changes the routing, or logs anything. -/
theorem routing_of_step {s t : State} {a : Event} (hstep : step s a = some t) :
    (∃ event, a = .routing event ∧ LogRouting.step s.routing event = some t.routing) ∨
      (t.routing = s.routing ∧ logged s a = []) := by
  cases a with
  | routing event =>
    obtain ⟨routing, hrouting, rfl⟩ := Option.map_eq_some_iff.mp hstep
    exact .inl ⟨event, rfl, hrouting⟩
  | cancel id =>
    obtain rfl := Option.some.inj hstep
    exact .inr ⟨rfl, rfl⟩
  | subscribe client id =>
    rw [LogStreams.step] at hstep
    split at hstep
    case h_2 => cases hstep
    obtain rfl := Option.some.inj hstep
    exact .inr ⟨rfl, rfl⟩
  | stream i event =>
    rw [LogStreams.step] at hstep
    split at hstep
    case h_2 => cases hstep
    obtain ⟨next, -, rfl⟩ := Option.map_eq_some_iff.mp hstep
    exact .inr ⟨rfl, rfl⟩

/-- What has been logged since then, or was being sent then, is sent, lost, or being sent now. -/
def Accounted (readers : List LogEvent) (record : List LogOutcome) (readers' : List LogEvent) :
    Prop :=
  loggedEvents record ++ readers ~ sentEvents record ++ lostEvents record ++ readers'

theorem Accounted.append {readers readers' readers'' : List LogEvent}
    {record record' : List LogOutcome} (h : Accounted readers record readers')
    (h' : Accounted readers' record' readers'') :
    Accounted readers (record ++ record') readers'' := by
  refine List.perm_iff_count.mpr fun event => ?_
  have hcount := List.perm_iff_count.mp h event
  have hcount' := List.perm_iff_count.mp h' event
  simp only [loggedEvents, sentEvents, lostEvents, List.filterMap_append, List.count_append]
    at hcount hcount' ⊢
  omega

/-- A step keeps the account. -/
theorem Accounted.step {readers : List LogEvent} {record : List LogOutcome} {s t : State}
    {a : Event} (h : Accounted readers record s.routing.logSinks.readers)
    (hstep : step s a = some t) :
    Accounted readers (record ++ logged s a) t.routing.logSinks.readers := by
  refine h.append ?_
  rcases routing_of_step hstep with ⟨event, rfl, hrouting⟩ | ⟨hsame, hnothing⟩
  · exact outcomes_perm hrouting
  · rw [hsame, hnothing]
    exact List.Perm.refl _

/-- Nobody holds the map, and no line has been lost. -/
def Lossless (record : List LogOutcome) (s : State) : Prop :=
  s.routing.logSinks.writer = false ∧ lostEvents record = []

/-- No line is lost unless a session is added or removed. -/
theorem Lossless.step {record : List LogOutcome} {s t : State} {a : Event}
    (h : Lossless record s) (hregister : a ≠ .routing .register)
    (hderegister : a ≠ .routing .deregister) (hstep : step s a = some t) :
    Lossless (record ++ logged s a) t := by
  obtain ⟨hfree, hlost⟩ := h
  have happend : lostEvents (record ++ logged s a) = lostEvents (logged s a) := by
    rw [lostEvents, List.filterMap_append, ← lostEvents, hlost, List.nil_append, lostEvents]
  rw [Lossless, happend]
  rcases routing_of_step hstep with ⟨event, rfl, hrouting⟩ | ⟨hsame, hnothing⟩
  · exact writer_of_step (fun h => hregister (congrArg _ h)) (fun h => hderegister (congrArg _ h))
      hfree hrouting
  · rw [hsame, hnothing]
    exact ⟨hfree, rfl⟩

/-- Every run has a journal of the attempts to change the map. -/
theorem exists_journaled {events : List Event} {s : State}
    (hrun : Execution.run step .initial events = some s) :
    ∃ journal, Journaled journal s.routing := by
  refine Execution.invariant (I := fun s : State => ∃ journal, Journaled journal s.routing)
    (fun s a t _ hstep hs => ?_) ⟨[], journaled_initial⟩ hrun (Execution.along_true _ _)
  obtain ⟨journal, hjournal⟩ := hs
  rcases routing_of_step hstep with ⟨event, rfl, hrouting⟩ | ⟨hsame, -⟩
  · exact ⟨_, hjournal.step hrouting⟩
  · rw [hsame]
    exact ⟨journal, hjournal⟩

/-- A subscription to a session follows it from then on. -/
theorem follows_subscribe {client : Client} {s t : State}
    (hjournal : ∃ journal, Journaled journal s.routing)
    (hstep : step s (.subscribe client id) = some t) :
    ∃ session ∈ s.routing.sessions, session.id = id ∧
      Follows (s.routing.logSinks.route id = some session.logChannel) session client
        s.streams.length [] t := by
  rw [LogStreams.step] at hstep
  split at hstep
  case h_2 => cases hstep
  rename_i session hcall hfind
  obtain rfl := Option.some.inj hstep
  obtain ⟨hsession, rfl⟩ := List.mem_of_find?_key hfind
  obtain ⟨journal, hjournal⟩ := hjournal
  obtain ⟨e, he, hkey, hvalue⟩ := exists_entry hjournal hcall hsession
  have hdrop := List.drop_length (l := linesOn s.routing.delivered session.logChannel)
  refine ⟨session, hsession, rfl, .subscribe session client _, List.getElem?_concat_length, rfl,
    rfl, LogStream.reading_subscribe session client _, ?_⟩
  exact {
    owned := ⟨journal, hjournal, e, he, hkey, hvalue⟩
    start_le := le_rfl
    lines := hdrop ▸ List.nil_prefix
    routed := fun _ => hdrop
    silent := fun hregistered => ⟨hregistered, hdrop⟩ }

/-- A subscription finds nobody holding the map, and leaves the routing as it is. -/
theorem routing_of_subscribe {client : Client} {s t : State}
    (hjournal : ∃ journal, Journaled journal s.routing)
    (hstep : step s (.subscribe client id) = some t) :
    t.routing = s.routing ∧ s.routing.logSinks.writer = false := by
  rw [LogStreams.step] at hstep
  split at hstep
  case h_2 => cases hstep
  rename_i session hcall hfind
  obtain rfl := Option.some.inj hstep
  obtain ⟨journal, hjournal⟩ := hjournal
  exact ⟨rfl, hjournal.writer_of_none hcall⟩

section Runs

variable {after : List Event} {t u : State} {record : List LogOutcome}

/-- A client follows its session through a run. -/
theorem follows_of_run {registered : Prop} {session : LoggedSession} {client : Client} {i : ℕ}
    (h : Follows registered session client i [] t)
    (hafter : Execution.run (Execution.observed step logged) (t, []) after = some (u, record)) :
    Follows registered session client i (sentEvents record) u := by
  have hstart : Follows registered session client i (sentEvents []) t := h
  refine Execution.invariant (I := fun p : State × List LogOutcome =>
    Follows registered session client i (sentEvents p.2) p.1) (fun p a q _ hstep hp => ?_)
    hstart hafter (Execution.along_true _ _)
  obtain ⟨hnext, hrecord⟩ := Execution.observed_eq_some.mp hstep
  rw [← hrecord, sentEvents, List.filterMap_append]
  exact hp.step hnext

/-- A run keeps the account. -/
theorem accounted_of_run
    (hafter : Execution.run (Execution.observed step logged) (t, []) after = some (u, record)) :
    Accounted t.routing.logSinks.readers record u.routing.logSinks.readers := by
  have hstart : Accounted t.routing.logSinks.readers [] t.routing.logSinks.readers :=
    List.Perm.refl _
  refine Execution.invariant (I := fun p : State × List LogOutcome =>
    Accounted t.routing.logSinks.readers p.2 p.1.routing.logSinks.readers)
    (fun p a q _ hstep hp => ?_) hstart hafter (Execution.along_true _ _)
  obtain ⟨hnext, hrecord⟩ := Execution.observed_eq_some.mp hstep
  exact hrecord ▸ hp.step hnext

/-- A run in which no session is added or removed loses nothing. -/
theorem lossless_of_run (hfree : t.routing.logSinks.writer = false)
    (hafter : Execution.run (Execution.observed step logged) (t, []) after = some (u, record))
    (hregister : .routing .register ∉ after) (hderegister : .routing .deregister ∉ after) :
    Lossless record u := by
  have halong : Execution.Along (Execution.observed step logged)
      (fun _ a => a ≠ .routing .register ∧ a ≠ .routing .deregister) (t, []) after :=
    Execution.along_of_forall fun a ha _ =>
      ⟨fun h => hregister (h ▸ ha), fun h => hderegister (h ▸ ha)⟩
  refine Execution.invariant (I := fun p : State × List LogOutcome => Lossless p.2 p.1)
    (fun p a q hok hstep hp => ?_) ⟨hfree, rfl⟩ hafter halong
  obtain ⟨hnext, hrecord⟩ := Execution.observed_eq_some.mp hstep
  exact hrecord ▸ hp.step hok.1 hok.2 hnext

end Runs

/-- A client reads a line of its session while another session is added; the line before it is lost
because the other session is just being registered. -/
def watched : List Event :=
  [.routing (.addSession 7), .routing (.newSession true), .routing .register,
    .routing (.logEvent ⟨5, "lost".toList⟩), .routing .releaseWrite,
    .routing (.logEvent ⟨5, "started".toList⟩), .routing (.logSent ⟨5, "started".toList⟩),
    .stream 0 .recv, .stream 0 .send, .stream 0 .read]

end Contender.Server.LogStreams
