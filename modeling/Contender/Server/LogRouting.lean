import Contender.Data.FindByKey
import Contender.Data.Journal
import Contender.Semantics.Execution
import Contender.Server.Sessions

/-!
# Routing log lines to sessions

Each session has a channel for its log lines. The tracing layer looks the channel up in a map that
it shares with the session cache: a log event holds the lock on the map for reading while it sends,
and does not wait for the lock. Neither do `add_session` and `remove_session`, which change the map
only if they find the lock free, and the sessions in any case.

The calls have the cache to themselves, and so the attempts to change the map come one after
another. Log events come at any time.

## Main results

* `followsSessions_iff` — when no call and no log event is in progress, the map is that of the live
  sessions exactly when the last attempt for each id found the lock free, or was the removal of an
  id that the map did not have
-/

namespace Contender.Server.LogRouting

open Semantics Journal

/-- A broadcast channel, by its identity. -/
abbrev LogChannel := ℕ

/-- What the routing reads of a session. -/
structure LoggedSession where
  id : SessionId
  logChannel : LogChannel
  deriving DecidableEq, Repr

/-- A log event inside the span of a session, as it is formatted. -/
structure LogEvent where
  sessionId : SessionId
  formatted : Text
  deriving DecidableEq, Repr

/-- The map behind its lock: the log events that hold it for reading, and whether it is held for
writing. -/
structure SessionLogSinks where
  senders : AssocMap SessionId LogChannel
  readers : List LogEvent
  writer : Bool
  deriving DecidableEq

namespace SessionLogSinks

/-- `try_write`: the map is changed if nothing holds the lock, which is then held for writing. -/
def tryWrite (sinks : SessionLogSinks)
    (change : AssocMap SessionId LogChannel → AssocMap SessionId LogChannel) : SessionLogSinks :=
  if sinks.readers = [] ∧ sinks.writer = false then
    { sinks with senders := change sinks.senders, writer := true }
  else sinks

/-- `try_read` of a log event. When it fails, the event is lost. -/
def tryRead (sinks : SessionLogSinks) (event : LogEvent) : SessionLogSinks :=
  if sinks.writer then sinks else { sinks with readers := event :: sinks.readers }

end SessionLogSinks

/-- Where the call is that has the cache. -/
inductive CacheCall
  | creating (id : SessionId)
  | registering (session : LoggedSession)
  | pushing (session : LoggedSession)
  | removing (id : SessionId)
  | retaining (id : SessionId)
  deriving DecidableEq, Repr

/-- The session cache with the call in progress, and what has been sent on the channels. -/
structure State where
  sessions : List LoggedSession
  logSinks : SessionLogSinks
  call : Option CacheCall
  nextChannel : LogChannel
  delivered : List (LogChannel × Text)

def State.initial : State := ⟨[], ⟨∅, [], false⟩, none, 0, []⟩

inductive Event
  | addSession (id : SessionId)
  | newSession (created : Bool)
  | register
  | pushSession
  | removeSession (id : SessionId)
  | deregister
  | retainSessions
  | releaseWrite
  | logEvent (event : LogEvent)
  | logSent (event : LogEvent)
  deriving DecidableEq, Repr

def step (s : State) : Event → Option State
  -- `gen_id` draws a `u32` that no session has
  | .addSession id =>
    if s.call = none ∧ id < 2 ^ 32 ∧ ∀ session ∈ s.sessions, session.id ≠ id then
      some { s with call := some (.creating id) }
    else none
  -- the new session has a channel of its own; an error ends the call
  | .newSession created =>
    match s.call with
    | some (.creating id) =>
      if created then
        some { s with
          call := some (.registering ⟨id, s.nextChannel⟩)
          nextChannel := s.nextChannel + 1 }
      else some { s with call := none }
    | _ => none
  | .register =>
    match s.call with
    | some (.registering session) =>
      some { s with
        logSinks := s.logSinks.tryWrite (·.insert session.id session.logChannel)
        call := some (.pushing session) }
    | _ => none
  | .pushSession =>
    match s.call with
    | some (.pushing session) =>
      if s.logSinks.writer then none
      else some { s with sessions := s.sessions ++ [session], call := none }
    | _ => none
  -- the session's tasks are stopped, which changes neither its id nor its channel
  | .removeSession id => if s.call = none then some { s with call := some (.removing id) } else none
  | .deregister =>
    match s.call with
    | some (.removing id) =>
      some { s with
        logSinks := s.logSinks.tryWrite (·.erase id)
        call := some (.retaining id) }
    | _ => none
  | .retainSessions =>
    match s.call with
    | some (.retaining id) =>
      if s.logSinks.writer then none
      else some { s with sessions := s.sessions.filter (·.id ≠ id), call := none }
    | _ => none
  | .releaseWrite =>
    if s.logSinks.writer then some { s with logSinks := { s.logSinks with writer := false } }
    else none
  | .logEvent event => some { s with logSinks := s.logSinks.tryRead event }
  | .logSent event =>
    if event ∈ s.logSinks.readers then
      some { s with
        logSinks := { s.logSinks with readers := s.logSinks.readers.erase event }
        delivered := s.delivered ++
          ((s.logSinks.senders.lookup event.sessionId).map (·, event.formatted)).toList }
    else none

/-! ### What the routing is for -/

/-- No call and no log event is in progress. -/
structure State.Idle (s : State) : Prop where
  call : s.call = none
  readers : s.logSinks.readers = []

instance (s : State) : Decidable s.Idle :=
  decidable_of_iff (s.call = none ∧ s.logSinks.readers = [])
    ⟨fun h => ⟨h.1, h.2⟩, fun h => ⟨h.call, h.readers⟩⟩

/-- The map has the ids of the live sessions, with the channel of each, so that a log line goes
to the channel of its session (`delivered_of_routed`). It is so between the calls as long as no
attempt to change the map meets a log event (`routed_of_uncontended`). -/
structure State.Routed (s : State) : Prop where
  keys : ∀ id, id ∈ s.logSinks.senders ↔ ∃ session ∈ s.sessions, session.id = id
  channels : ∀ session ∈ s.sessions,
    s.logSinks.senders.lookup session.id = some session.logChannel

/-- The attempt that a step makes to change the map. It lands when no log event holds the lock. -/
def attempted (s : State) : Event → List (Entry SessionId LogChannel)
  | .register =>
    match s.call with
    | some (.registering session) =>
      [⟨session.id, some session.logChannel, s.logSinks.readers.isEmpty⟩]
    | _ => []
  | .deregister =>
    match s.call with
    | some (.removing id) => [⟨id, none, s.logSinks.readers.isEmpty⟩]
    | _ => []
  | .addSession _ | .newSession _ | .pushSession | .removeSession _ | .retainSessions
  | .releaseWrite | .logEvent _ | .logSent _ => []

/-! ### The map and the sessions as functions -/

/-- The channel of each id in the map. -/
def SessionLogSinks.route (sinks : SessionLogSinks) (id : SessionId) : Option LogChannel :=
  sinks.senders.lookup id

/-- The channel of the session with each id. -/
def channels (sessions : List LoggedSession) (id : SessionId) : Option LogChannel :=
  (sessions.find? (·.id = id)).map LoggedSession.logChannel

variable {sessions : List LoggedSession} {session : LoggedSession} {id : SessionId}

theorem exists_of_channels {channel : LogChannel} (h : channels sessions id = some channel) :
    ∃ session ∈ sessions, session.id = id ∧ session.logChannel = channel := by
  obtain ⟨session, hfind, hchannel⟩ := Option.map_eq_some_iff.mp h
  obtain ⟨hsession, hid⟩ := List.mem_of_find?_key hfind
  exact ⟨session, hsession, hid, hchannel⟩

theorem channels_of_mem (hnodup : (sessions.map LoggedSession.id).Nodup)
    (h : session ∈ sessions) : channels sessions session.id = some session.logChannel := by
  rw [channels, (List.find?_key_eq_some_iff hnodup).mpr ⟨h, rfl⟩]
  rfl

theorem channels_concat (h : session.id ∉ sessions.map LoggedSession.id) :
    channels (sessions ++ [session]) =
      Function.update (channels sessions) session.id (some session.logChannel) := by
  funext j
  by_cases hj : j = session.id
  · rw [hj, Function.update_self, channels, List.find?_key_concat_self h]
    rfl
  · rw [Function.update_of_ne hj, channels, List.find?_key_concat_of_ne sessions hj, channels]

theorem channels_filter (sessions : List LoggedSession) (id : SessionId) :
    channels (sessions.filter (·.id ≠ id)) = Function.update (channels sessions) id none := by
  funext j
  by_cases hj : j = id
  · rw [hj, Function.update_self, channels, List.find?_key_filter_self sessions id]
    rfl
  · rw [Function.update_of_ne hj, channels, List.find?_key_filter_of_ne sessions hj, channels]

/-- Routing is right when the map and the sessions are the same function. -/
theorem State.routed_iff_route {s : State} (hnodup : (s.sessions.map LoggedSession.id).Nodup) :
    s.Routed ↔ s.logSinks.route = channels s.sessions := by
  constructor
  · intro h
    funext id
    cases hchannel : channels s.sessions id with
    | none =>
      refine AList.lookup_eq_none.mpr fun hid => ?_
      obtain ⟨session, hsession, rfl⟩ := (h.keys id).mp hid
      rw [channels_of_mem hnodup hsession] at hchannel
      cases hchannel
    | some channel =>
      obtain ⟨session, hsession, rfl, rfl⟩ := exists_of_channels hchannel
      exact h.channels session hsession
  · intro h
    have hlookup (id : SessionId) : s.logSinks.senders.lookup id = channels s.sessions id :=
      congrFun h id
    refine ⟨fun id => ?_, fun session hsession => ?_⟩
    · rw [AList.mem_iff_lookup, hlookup]
      constructor
      · rintro ⟨channel, hchannel⟩
        obtain ⟨session, hsession, hid, -⟩ := exists_of_channels hchannel
        exact ⟨session, hsession, hid⟩
      · rintro ⟨session, hsession, rfl⟩
        exact ⟨_, channels_of_mem hnodup hsession⟩
    · rw [hlookup, channels_of_mem hnodup hsession]

/-! ### The journal of the attempts -/

/-- The id of a session that is not in the cache yet. -/
def CacheCall.newId : CacheCall → Option SessionId
  | .creating id => some id
  | .registering session => some session.id
  | .pushing _ | .removing _ | .retaining _ => none

/-- The channel of a session that has not been registered yet. -/
def CacheCall.newChannel : CacheCall → Option LogChannel
  | .registering session => some session.logChannel
  | .creating _ | .pushing _ | .removing _ | .retaining _ => none

/-- The call has made its attempt to change the map. -/
def CacheCall.Tried : CacheCall → Prop
  | .pushing _ | .retaining _ => True
  | .creating _ | .registering _ | .removing _ => False

theorem CacheCall.Tried.newId {call : CacheCall} (h : call.Tried) : call.newId = none := by
  cases call with
  | pushing | retaining => rfl
  | creating | registering | removing => cases h

theorem CacheCall.Tried.newChannel {call : CacheCall} (h : call.Tried) :
    call.newChannel = none := by
  cases call with
  | pushing | retaining => rfl
  | creating | registering | removing => cases h

/-- The sessions, with the change of a call that has made its attempt. -/
def State.settled (s : State) : List LoggedSession :=
  match s.call with
  | some (.pushing session) => s.sessions ++ [session]
  | some (.retaining id) => s.sessions.filter (·.id ≠ id)
  | _ => s.sessions

/-- The sessions are what all attempts of the journal add up to, and the map is what those do that
landed. -/
structure Journaled (journal : List (Entry SessionId LogChannel)) (s : State) : Prop where
  route : s.logSinks.route = replay (landed journal)
  settled : channels s.settled = replay journal
  nodup : (s.settled.map LoggedSession.id).Nodup
  fresh : Fresh journal
  below : ∀ e ∈ journal, ∀ channel ∈ e.value, channel < s.nextChannel
  unused : ∀ id ∈ s.call.bind CacheCall.newId, id ∉ s.sessions.map LoggedSession.id
  created : ∀ channel ∈ s.call.bind CacheCall.newChannel,
    channel < s.nextChannel ∧ ∀ e ∈ journal, channel ∉ e.value
  writer : s.logSinks.writer = true → ∃ call ∈ s.call, call.Tried

variable {journal : List (Entry SessionId LogChannel)} {s t : State}

theorem journaled_initial : Journaled [] .initial where
  route := rfl
  settled := rfl
  nodup := List.nodup_nil
  fresh := List.Pairwise.nil
  below := nofun
  unused := nofun
  created := nofun
  writer := nofun

/-- The lock is free for a call that has not made its attempt, up to the log events. -/
theorem Journaled.writer_eq_false (h : Journaled journal s) {call : CacheCall}
    (hcall : s.call = some call) (htried : ¬ call.Tried) : s.logSinks.writer = false := by
  rw [← Bool.not_eq_true]
  intro hwriter
  obtain ⟨call', hcall', htried'⟩ := h.writer hwriter
  obtain rfl : call' = call := Option.some.inj (hcall'.symm.trans hcall)
  exact htried htried'

theorem Journaled.writer_of_none (h : Journaled journal s) (hcall : s.call = none) :
    s.logSinks.writer = false := by
  rw [← Bool.not_eq_true]
  intro hwriter
  obtain ⟨call, hsome, -⟩ := h.writer hwriter
  rw [hcall] at hsome
  cases hsome

/-- A step that makes no attempt leaves the map and the settled sessions. -/
theorem Journaled.of_settled (h : Journaled journal s)
    (hroute : t.logSinks.senders = s.logSinks.senders) (hsettled : t.settled = s.settled)
    (hnext : s.nextChannel ≤ t.nextChannel)
    (hunused : ∀ id ∈ t.call.bind CacheCall.newId, id ∉ t.sessions.map LoggedSession.id)
    (hcreated : ∀ channel ∈ t.call.bind CacheCall.newChannel,
      channel < t.nextChannel ∧ ∀ e ∈ journal, channel ∉ e.value)
    (hwriter : t.logSinks.writer = true → ∃ call ∈ t.call, call.Tried) : Journaled journal t where
  route := by
    rw [← h.route]
    funext id
    rw [SessionLogSinks.route, hroute, SessionLogSinks.route]
  settled := by rw [hsettled, h.settled]
  nodup := by rw [hsettled]; exact h.nodup
  fresh := h.fresh
  below e he channel hchannel := (h.below e he channel hchannel).trans_le hnext
  unused := hunused
  created := hcreated
  writer := hwriter

/-- An attempt is one more write in the journal. -/
theorem Journaled.attempt {e : Entry SessionId LogChannel} {call : CacheCall}
    {change : AssocMap SessionId LogChannel → AssocMap SessionId LogChannel}
    (h : Journaled journal s)
    (ht : t = { s with logSinks := s.logSinks.tryWrite change, call := some call })
    (hfree : s.logSinks.writer = false) (hlanded : e.landed = s.logSinks.readers.isEmpty)
    (hchange : ∀ m : AssocMap SessionId LogChannel, (fun j => (change m).lookup j) =
      Function.update (fun j => m.lookup j) e.key e.value)
    (hsettled : channels t.settled = Function.update (channels s.settled) e.key e.value)
    (hnodup : (t.settled.map LoggedSession.id).Nodup)
    (hvalue : ∀ channel ∈ e.value, channel < s.nextChannel ∧ ∀ f ∈ journal, channel ∉ f.value)
    (htried : call.Tried) : Journaled (journal ++ [e]) t where
  route := by
    have hiff : e.landed = true ↔ s.logSinks.readers = [] := by rw [hlanded, List.isEmpty_iff]
    rw [ht, landed_concat]
    dsimp only
    by_cases hreaders : s.logSinks.readers = []
    · rw [if_pos (hiff.mpr hreaders), replay_concat, ← h.route, SessionLogSinks.tryWrite,
        if_pos ⟨hreaders, hfree⟩]
      exact hchange s.logSinks.senders
    · rw [if_neg (hiff.not.mpr hreaders), ← h.route, SessionLogSinks.tryWrite,
        if_neg fun hlock => hreaders hlock.1]
  settled := by rw [hsettled, h.settled, replay_concat]
  nodup := hnodup
  fresh := h.fresh.concat fun channel hchannel => (hvalue channel hchannel).2
  below f hf channel hchannel := by
    rw [ht]
    rcases List.mem_append.mp hf with hf | hf
    · exact h.below f hf channel hchannel
    · obtain rfl := List.mem_singleton.mp hf
      exact (hvalue channel hchannel).1
  unused id hid := by
    rw [ht, Option.bind_some, htried.newId] at hid
    cases hid
  created channel hchannel := by
    rw [ht, Option.bind_some, htried.newChannel] at hchannel
    cases hchannel
  writer _ := ⟨call, by rw [ht]; rfl, htried⟩

theorem Journaled.register (h : Journaled journal s)
    (hcall : s.call = some (.registering session)) :
    Journaled (journal ++ [⟨session.id, some session.logChannel, s.logSinks.readers.isEmpty⟩])
      { s with
        logSinks := s.logSinks.tryWrite (·.insert session.id session.logChannel)
        call := some (.pushing session) } := by
  have hsettled : s.settled = s.sessions := by rw [State.settled, hcall]
  have hnodup : (s.sessions.map LoggedSession.id).Nodup := hsettled ▸ h.nodup
  have hunused : session.id ∉ s.sessions.map LoggedSession.id :=
    h.unused session.id (by rw [hcall]; rfl)
  refine h.attempt rfl (h.writer_eq_false hcall id) rfl
    (fun m => AList.lookup_insert_eq_update m session.id session.logChannel) ?_ ?_ ?_ trivial
  · rw [hsettled]
    exact channels_concat hunused
  · rw [State.settled, List.map_append]
    exact hnodup.append (List.nodup_singleton _) (List.disjoint_singleton.mpr hunused)
  · intro channel hchannel
    obtain rfl := Option.some.inj hchannel
    exact h.created session.logChannel (by rw [hcall]; rfl)

theorem Journaled.deregister (h : Journaled journal s) (hcall : s.call = some (.removing id)) :
    Journaled (journal ++ [⟨id, none, s.logSinks.readers.isEmpty⟩])
      { s with
        logSinks := s.logSinks.tryWrite (·.erase id)
        call := some (.retaining id) } := by
  have hsettled : s.settled = s.sessions := by rw [State.settled, hcall]
  have hnodup : (s.sessions.map LoggedSession.id).Nodup := hsettled ▸ h.nodup
  refine h.attempt rfl (h.writer_eq_false hcall not_false) rfl
    (fun m => AList.lookup_erase_eq_update m id) ?_ ?_ nofun trivial
  · rw [hsettled]
    exact channels_filter s.sessions id
  · exact hnodup.sublist (List.filter_sublist.map LoggedSession.id)

/-- A step of a log event, or the release of the lock. -/
theorem Journaled.of_sinks (h : Journaled journal s) (hsessions : t.sessions = s.sessions)
    (hcall : t.call = s.call) (hnext : t.nextChannel = s.nextChannel)
    (hsenders : t.logSinks.senders = s.logSinks.senders)
    (hwriter : t.logSinks.writer = true → s.logSinks.writer = true) : Journaled journal t := by
  refine h.of_settled hsenders ?_ hnext.ge ?_ ?_ fun hw => ?_
  · rw [State.settled, State.settled, hcall, hsessions]
  · rw [hcall, hsessions]
    exact h.unused
  · rw [hcall, hnext]
    exact h.created
  · rw [hcall]
    exact h.writer (hwriter hw)

/-- Every step extends the journal by its attempt. -/
theorem Journaled.step {a : Event} (h : Journaled journal s) (hstep : step s a = some t) :
    Journaled (journal ++ attempted s a) t := by
  cases a with
  | addSession id =>
    rw [attempted, List.append_nil]
    rw [LogRouting.step] at hstep
    split_ifs at hstep with hguard
    obtain rfl := Option.some.inj hstep
    obtain ⟨hcall, -, hnew⟩ := hguard
    have hfree := h.writer_of_none hcall
    refine h.of_settled rfl ?_ le_rfl ?_ nofun fun hw => (ne_true_of_eq_false hfree hw).elim
    · rw [State.settled, State.settled, hcall]
    · intro i hi
      obtain rfl := Option.some.inj hi
      rw [List.mem_map]
      rintro ⟨session, hsession, hid⟩
      exact hnew session hsession hid
  | newSession created =>
    rw [attempted, List.append_nil]
    rw [LogRouting.step] at hstep
    split at hstep
    case h_2 => cases hstep
    rename_i id hcall
    have hfree := h.writer_eq_false hcall not_false
    have hunused := h.unused id (by rw [hcall]; rfl)
    split_ifs at hstep
    · obtain rfl := Option.some.inj hstep
      refine h.of_settled rfl ?_ (Nat.le_succ _) ?_ ?_ fun hw => (ne_true_of_eq_false hfree hw).elim
      · rw [State.settled, State.settled, hcall]
      · intro i hi
        obtain rfl := Option.some.inj hi
        exact hunused
      · intro channel hchannel
        obtain rfl := Option.some.inj hchannel
        exact ⟨Nat.lt_succ_self _, fun e he hmem => (h.below e he _ hmem).false⟩
    · obtain rfl := Option.some.inj hstep
      refine h.of_settled rfl ?_ le_rfl nofun nofun fun hw => (ne_true_of_eq_false hfree hw).elim
      rw [State.settled, State.settled, hcall]
  | register =>
    rw [LogRouting.step] at hstep
    split at hstep
    case h_2 => cases hstep
    rename_i session hcall
    obtain rfl := Option.some.inj hstep
    rw [attempted, hcall]
    exact h.register hcall
  | pushSession =>
    rw [attempted, List.append_nil]
    rw [LogRouting.step] at hstep
    split at hstep
    case h_2 => cases hstep
    rename_i session hcall
    split_ifs at hstep with hwriter
    obtain rfl := Option.some.inj hstep
    refine h.of_settled rfl ?_ le_rfl nofun nofun fun hw => (hwriter hw).elim
    rw [State.settled, State.settled, hcall]
  | removeSession id =>
    rw [attempted, List.append_nil]
    rw [LogRouting.step] at hstep
    split_ifs at hstep with hcall
    obtain rfl := Option.some.inj hstep
    have hfree := h.writer_of_none hcall
    refine h.of_settled rfl ?_ le_rfl nofun nofun fun hw => (ne_true_of_eq_false hfree hw).elim
    rw [State.settled, State.settled, hcall]
  | deregister =>
    rw [LogRouting.step] at hstep
    split at hstep
    case h_2 => cases hstep
    rename_i id hcall
    obtain rfl := Option.some.inj hstep
    rw [attempted, hcall]
    exact h.deregister hcall
  | retainSessions =>
    rw [attempted, List.append_nil]
    rw [LogRouting.step] at hstep
    split at hstep
    case h_2 => cases hstep
    rename_i id hcall
    split_ifs at hstep with hwriter
    obtain rfl := Option.some.inj hstep
    refine h.of_settled rfl ?_ le_rfl nofun nofun fun hw => (hwriter hw).elim
    rw [State.settled, State.settled, hcall]
  | releaseWrite =>
    rw [attempted, List.append_nil]
    rw [LogRouting.step] at hstep
    split_ifs at hstep
    obtain rfl := Option.some.inj hstep
    exact h.of_sinks rfl rfl rfl rfl nofun
  | logEvent event =>
    rw [attempted, List.append_nil]
    obtain rfl := Option.some.inj hstep
    unfold SessionLogSinks.tryRead
    split_ifs
    · exact h
    · exact h.of_sinks rfl rfl rfl rfl id
  | logSent event =>
    rw [attempted, List.append_nil]
    rw [LogRouting.step] at hstep
    split_ifs at hstep
    obtain rfl := Option.some.inj hstep
    exact h.of_sinks rfl rfl rfl rfl id

/-- Between the calls the map is that of the sessions exactly when every id is in sync. -/
theorem Journaled.routed_iff (h : Journaled journal s) (hidle : s.Idle) :
    s.Routed ↔ ∀ id, InSync journal id := by
  have hsettled : s.settled = s.sessions := by rw [State.settled, hidle.call]
  rw [State.routed_iff_route (hsettled ▸ h.nodup), ← hsettled, h.route, h.settled, funext_iff]
  exact forall_congr' fun id => replay_landed_iff h.fresh id

/-- The attempts of the step find no log event. -/
def Uncontended (s : State) (a : Event) : Prop := ∀ e ∈ attempted s a, e.landed

/-- When no attempt meets a log event, the map is that of the sessions between all calls. -/
theorem routed_of_uncontended {events : List Event}
    (hrun : Execution.run step .initial events = some s)
    (hquiet : Execution.Along step Uncontended .initial events) (hidle : s.Idle) : s.Routed := by
  have hjournal : ∃ journal, Journaled journal s ∧ ∀ e ∈ journal, e.landed := by
    refine Execution.invariant
      (I := fun s => ∃ journal, Journaled journal s ∧ ∀ e ∈ journal, e.landed)
      (fun s a t hlands hstep hs => ?_) ⟨[], journaled_initial, nofun⟩ hrun hquiet
    obtain ⟨journal, hjournal, hlanded⟩ := hs
    exact ⟨journal ++ attempted s a, hjournal.step hstep,
      List.forall_mem_append.mpr ⟨hlanded, hlands⟩⟩
  obtain ⟨journal, hjournal, hlanded⟩ := hjournal
  exact (hjournal.routed_iff hidle).mpr (inSync_of_forall_landed hlanded)

theorem delivered_of_routed {event : LogEvent} (h : s.Routed)
    (hnodup : (s.sessions.map LoggedSession.id).Nodup)
    (hstep : step s (.logSent event) = some t) :
    t.delivered = s.delivered ++
      ((channels s.sessions event.sessionId).map (·, event.formatted)).toList := by
  rw [step] at hstep
  split_ifs at hstep
  obtain rfl := Option.some.inj hstep
  rw [← (State.routed_iff_route hnodup).mp h]
  rfl

/-- **Routing follows the sessions**, whatever happens in between, exactly when for each id the
last attempt to change the map met no log event, or removed an id that the map did not have. -/
theorem followsSessions_iff (events : List Event) (s : State)
    (journal : List (Entry SessionId LogChannel))
    (hrun : Execution.run (Execution.observed step attempted) (.initial, []) events =
      some (s, journal)) (hidle : s.Idle) :
    s.Routed ↔ ∀ id, InSync journal id := by
  have hjournal : Journaled journal s :=
    Execution.invariant (I := fun p : State × List (Entry SessionId LogChannel) =>
      Journaled p.2 p.1) (fun p a q _ hstep h => by
        obtain ⟨hnext, hrecord⟩ := Execution.observed_eq_some.mp hstep
        exact hrecord ▸ h.step hnext)
      journaled_initial hrun (Execution.along_true _ _)
  exact hjournal.routed_iff hidle

/-- A session is added without a log event around. -/
def added (id : SessionId) : List Event :=
  [.addSession id, .newSession true, .register, .releaseWrite, .pushSession]

theorem followsSessions_added : ∃ s journal,
    Execution.run (Execution.observed step attempted) (.initial, []) (added 5) =
      some (s, journal) ∧ s.sessions = [⟨5, 0⟩] ∧ s.Routed := by
  refine ⟨_, _, rfl, rfl, (followsSessions_iff (added 5) _ _ rfl ⟨rfl, rfl⟩).mpr fun id => ?_⟩
  exact inSync_of_forall_landed (by decide) id

/-- A session logs while another one is added. -/
def addedWhileLogging : List Event :=
  added 5 ++ [.logEvent ⟨5, "started".toList⟩, .addSession 7, .newSession true, .register,
    .pushSession, .logSent ⟨5, "started".toList⟩]

/-- What is left then: the second session is not in the map. -/
def drifted : State where
  sessions := [⟨5, 0⟩, ⟨7, 1⟩]
  logSinks := ⟨(∅ : AssocMap SessionId LogChannel).insert 5 0, [], false⟩
  call := none
  nextChannel := 2
  delivered := [(0, "started".toList)]

/-- The other session never gets its log lines. -/
theorem followsSessions_counterexample :
    Execution.run step .initial addedWhileLogging = some drifted ∧ drifted.Idle ∧
      ¬ drifted.Routed := by
  refine ⟨rfl, ⟨rfl, rfl⟩, fun h => ?_⟩
  have hsender := h.channels ⟨7, 1⟩ (by decide)
  cases hsender

end Contender.Server.LogRouting
