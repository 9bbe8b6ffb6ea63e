import Contender.Protocol.WriteBehind
import Contender.Spammer.BlockReceipts
import Contender.Spammer.WellFormed

/-!
# Receipt collection as a write-behind buffer

The actor's cache is the buffer, the flush loops are the workers, the run id is the
tag and the database is the store of `Protocol.WriteBehind`. A loop holds the hashes
of the snapshot it may still process, and its pending removals are the hashes it has
recorded but the actor has not been told to forget.

`System.run_ops` connects the two levels: every action of the system is matched by a
short word of protocol operations, `System.ops`.
-/

namespace Contender

open Semantics Protocol

/-- The hashes that the queued requests remove. -/
def removals (queue : List FlushRequest) : List TxHash :=
  queue.flatMap fun
    | .getSnapshot => []
    | .removeConfirmed confirmed _ => confirmed

/-- The rows of the database as run ids and hashes. -/
def records (db : List RunRow) : List (Nat × TxHash) := db.map fun row => (row.1, row.2.txHash)

/-- The context and the hashes of a snapshot that was delivered with a context. -/
def SnapshotReply.delivered : SnapshotReply → Option (ActorContext × List TxHash)
  | .sent ⟨txs, some ctx⟩ => some (ctx, hashes txs)
  | _ => none

namespace FlushLoop

/-- A flush loop as a worker of the protocol. -/
def worker (l : FlushLoop) : WriteBehind.Worker TxHash Nat :=
  match l.pc with
  | .rangeReply _ =>
    -- a delivered snapshot starts the batch, taken or not
    match l.reply.delivered with
    | some (ctx, held) => ⟨some ctx.runId, held, []⟩
    | none => .idle
  | .block range => ⟨some range.runId, hashes range.cacheSnapshot, []⟩
  | .confirmed range confirmed =>
    -- a removal that nobody will read is not pending
    ⟨some range.runId, [], if l.receiver = .attached then confirmed else []⟩
  | .refresh range =>
    ⟨some range.runId, [], if l.receiver = .attached then removals l.queue else []⟩
  | .refreshReply range =>
    ⟨some range.runId,
      match l.reply.delivered with
      | some (_, held) => held
      | none => [],
      if l.receiver = .attached then removals l.queue else []⟩
  | _ => .idle

/-- The protocol operation that a move of loop `k` stands for. -/
def ops (k : Nat) (l l' : FlushLoop) : List (WriteBehind.Op TxHash Nat Nat) :=
  match l.pc, l'.pc with
  | .block range, .confirmed _ confirmed => [.save k range.runId confirmed]
  | _, _ => if l.worker.tag.isSome ∧ l'.worker.tag.isNone then [.release k] else []

theorem worker_of_resting {l : FlushLoop} (hpc : l.pc.Resting) : l.worker = .idle := by
  unfold worker
  rcases hpc with hpc | hpc | hpc | hpc <;> rw [hpc]

/-- Dropping the receiver loses the pending removals and nothing else. -/
theorem worker_close (l : FlushLoop) : l.close.worker = l.worker.forget := by
  have hdelivered : l.close.reply.delivered = l.reply.delivered := by
    unfold close
    cases l.reply <;> rfl
  have hpc : l.close.pc = l.pc := rfl
  unfold worker
  rw [hpc, hdelivered]
  cases l.pc with
  | rangeReply newBlock => cases l.reply.delivered <;> rfl
  | _ => rfl

variable {chain : Chain} {l l' : FlushLoop} {input : FlushInput} {rows : List RunRow}

/-- A loop that is not served has no pending removals. -/
theorem worker_forget (hreceiver : l.receiver ≠ .attached) : l.worker.forget = l.worker := by
  unfold worker
  simp only [if_neg hreceiver]
  cases l.pc with
  | rangeReply newBlock => cases l.reply.delivered <;> rfl
  | _ => rfl

theorem worker_of_inTransit (hsound : l.Sound) (htransit : l.receiver = .inTransit) :
    l.worker = .idle := by
  unfold worker
  rcases hsound.inTransit htransit with hpc | ⟨hpc, -⟩ <;> rw [hpc]

/-- What a move does to the worker: nothing, or the end of its batch, or the saving of
some of the hashes it holds. -/
inductive Work (k : Nat) (l l' : FlushLoop) (rows : List RunRow) : Prop
  | same (hops : l.ops k l' = []) (hworker : l'.worker = l.worker) (hrows : rows = [])
  | release (hops : l.ops k l' = [.release k]) (hsaved : l.worker.saved = [])
      (hworker : l'.worker = .idle) (hrows : rows = [])
  | save {runId : Nat} {confirmed : List TxHash} (hops : l.ops k l' = [.save k runId confirmed])
      (htag : l.worker.tag = some runId) (hsaved : l.worker.saved = [])
      (hsub : confirmed.Sublist l.worker.holding)
      (hworker : l'.worker =
        ⟨some runId, [], if l.receiver = .attached then confirmed else []⟩)
      (hrows : records rows = confirmed.map fun h => (runId, h))

/-- A move that leads out of a range, or between two points outside of one. -/
private theorem work_of_resting (k : Nat) (hsaved : l.worker.saved = [])
    (htag : l.worker.tag = none → l.worker = .idle) (hpc' : l'.pc.Resting) :
    Work k l l' [] := by
  have hidle := worker_of_resting hpc'
  have hops : l.ops k l' = if l.worker.tag.isSome then [.release k] else [] := by
    unfold ops
    rw [hidle]
    -- a save would end in `.confirmed`, which is not a resting point
    split
    case h_1 _ _ _ _ _ hpc =>
      rcases hpc' with h | h | h | h <;> rw [h] at hpc <;> cases hpc
    case h_2 => simp [WriteBehind.Worker.idle]
  cases hcase : l.worker.tag with
  | none => exact .same (by rw [hops, hcase]; rfl) (hidle.trans (htag hcase).symm) rfl
  | some runId => exact .release (by rw [hops, hcase]; rfl) hsaved hidle rfl

/-- A move inside a batch. -/
private theorem work_of_eq (k : Nat) (hworker : l'.worker = l.worker)
    (hpc' : ∀ range confirmed, l'.pc ≠ .confirmed range confirmed) : Work k l l' [] := by
  refine .same ?_ hworker rfl
  unfold ops
  split
  case h_1 range confirmed _ hpc => exact absurd hpc (hpc' _ _)
  case h_2 =>
    rw [hworker]
    cases l.worker.tag <;> simp

@[simp] private theorem removals_nil : removals [] = [] := rfl

private theorem removals_append_getSnapshot (queue : List FlushRequest) :
    removals (queue ++ [.getSnapshot]) = removals queue := by
  simp [removals]

/-- Where an answer can be taken, no removal is pending. -/
private theorem worker_of_awaits (hpc : l.pc.Awaits) (hqueue : l.queue = []) :
    l.worker.saved = [] ∧ (l.worker.tag = none → l.worker = .idle) := by
  obtain ⟨origin, hasks⟩ := hpc
  unfold worker
  rw [hqueue]
  generalize l.pc = pc at hasks
  cases hasks with
  | range newBlock =>
    cases hdelivered : l.reply.delivered with
    | none => exact ⟨rfl, fun _ => rfl⟩
    | some d => exact ⟨rfl, fun h => absurd h (by simp)⟩
  | refresh range => exact ⟨by simp, fun h => absurd h (by simp)⟩
  | _ => exact ⟨rfl, fun _ => rfl⟩

/-- Asking for a snapshot changes nothing about the worker. -/
private theorem worker_of_asks {waiting : FlushPc} (hpc : l.pc.Asks waiting) :
    ({ l with pc := waiting, queue := l.queue ++ [.getSnapshot], reply := .pending } :
      FlushLoop).worker = l.worker := by
  unfold worker
  dsimp only
  generalize l.pc = pc at hpc
  cases hpc with
  -- the pending removals stay queued before the request
  | refresh range =>
    rw [removals_append_getSnapshot]
    rfl
  | _ => rfl

/-- **Every move of a sound loop is an operation of its worker.** -/
theorem Move.work (hmove : Move chain l input l' rows) (hsound : l.Sound) (k : Nat) :
    Work k l l' rows := by
  have hshape := hsound.shape
  cases hmove with
  | @ask waiting hpc hopen heq =>
    subst heq
    apply work_of_eq k (worker_of_asks hpc)
    intro range confirmed hpc'
    have hwaiting : waiting = .confirmed range confirmed := hpc'
    rw [hwaiting] at hpc
    generalize l.pc = pc at hpc
    cases hpc
  | rest hpc hpc' frame hreply hused =>
    rcases hpc with hpoll | ⟨hclosed, hawait | ⟨range, hrefresh⟩⟩
    · have hidle := worker_of_resting (Or.inr (Or.inl hpoll))
      exact work_of_resting k (by rw [hidle]; rfl) (fun _ => hidle) hpc'
    · have hidle := worker_of_resting (Or.inl hawait)
      exact work_of_resting k (by rw [hidle]; rfl) (fun _ => hidle) hpc'
    -- the channel closed inside a range: the batch ends without its removals
    · have hworker : l.worker = ⟨some range.runId, [], []⟩ := by
        unfold worker
        rw [hrefresh, hclosed]
        rfl
      exact work_of_resting k (by rw [hworker]) (fun h => by rw [hworker] at h; cases h) hpc'
  | settle hpc hreply hpc' frame hreply' hused =>
    obtain ⟨hsaved, htag⟩ := worker_of_awaits hpc (hsound.queue_eq_nil hpc hreply)
    exact work_of_resting k hsaved htag hpc'
  | enter hpc hreply hpc' frame hreply' hused =>
    -- the batch started when the snapshot was delivered
    refine work_of_eq k ?_ (by simp [hpc'])
    unfold worker
    rw [hpc, hpc', hreply]
    rfl
  | @proceed range txs ctx hpc hreply hpc' frame hreply' hused =>
    refine work_of_eq k ?_ (by simp [hpc'])
    have hqueue := hsound.queue_eq_nil ⟨.refresh range, hpc ▸ .refresh range⟩ (by simp [hreply])
    unfold worker
    rw [hpc, hpc', hreply, hqueue]
    simp [SnapshotReply.delivered]
  | @record range answer confirmed committed hpc hinput processed heq =>
    -- the confirmed hashes are among those of the snapshot, which the worker holds
    obtain ⟨hsub, hcommitted, -, -⟩ := processBlockReceipts_confirmed processed
    subst heq
    have hworker : l.worker = ⟨some range.runId, hashes range.cacheSnapshot, []⟩ := by
      unfold worker
      rw [hpc]
    have hops : l.ops k { l with
        pc := .confirmed range confirmed
        used := (range.bn, range.cacheSnapshot) :: l.used } =
        [.save k range.runId confirmed] := by
      unfold ops
      rw [hpc]
    refine .save hops ?_ ?_ ?_ rfl ?_
    · rw [hworker]
    · rw [hworker]
    · rw [hworker]
      exact hsub
    · rw [records, List.map_map, ← hcommitted, List.map_map]
      rfl
  | skip hpc hpc' frame hreply hused =>
    refine work_of_eq k ?_ (by simp [hpc'])
    unfold worker
    rw [hpc, hpc']
  | @giveUp range hpc hpc' frame hreply hused =>
    have hworker : l.worker = ⟨some range.runId, hashes range.cacheSnapshot, []⟩ := by
      unfold worker
      rw [hpc]
    exact work_of_resting k (by rw [hworker]) (fun h => by rw [hworker] at h; cases h) hpc'
  | @remove range confirmed hpc heq =>
    rw [hpc] at hshape
    subst heq
    refine work_of_eq k ?_ (by simp)
    unfold worker
    rw [hpc, hshape.1]
    cases hreceiver : l.receiver <;> simp [removals]

end FlushLoop

namespace System

/-- The system as a state of the protocol. -/
def view (s : System) : WriteBehind.State TxHash Nat Nat where
  buffer := {h | ∃ a, s.actor = some a ∧ h ∈ a.cache}
  tag := s.actor.bind fun a => a.ctx.map ActorContext.runId
  reader := s.actor.map TxActor.flushReceiver
  workers k := (s.loops k).worker
  store := records s.db
  accepted := s.sent

/-- The operations that a handled message stands for, the end of the actor apart. -/
def messageOps (a : TxActor) (inserted : Bool) :
    TxActorMessage → List (WriteBehind.Op TxHash Nat Nat)
  | .initCtx ctx => [.retag ctx.runId]
  | .sentRunTx h _ _ _ _ _ => [.accept h]
  | .removedRunTx h _ => if h ∈ a.cache then [.withdraw h] else []
  | .dumpCache runId reply =>
    if a.accepts (.message (.dumpCache runId reply) inserted) then
      [.dump runId (hashes a.cache.values)]
    else []
  | .replaceFlushReceiver k => [.replace k]
  | .clearCache _ => [.clear]
  | _ => []

/-- The actor's end, when a handled message ends it. -/
def haltOps (h : Handled) : List (WriteBehind.Op TxHash Nat Nat) :=
  if (TxActor.survivor h).isSome then [] else [.halt]

/-- The operations that a served flush request stands for. -/
def requestOps (a : TxActor) (l : FlushLoop) :
    FlushRequest → List (WriteBehind.Op TxHash Nat Nat)
  | .removeConfirmed _ _ => [.settle a.flushReceiver]
  | .getSnapshot =>
    match l.pc, a.ctx with
    | .rangeReply _, some _ => [.start a.flushReceiver (hashes a.cache.values)]
    | .refreshReply _, some _ => [.refresh a.flushReceiver (hashes a.cache.values)]
    | _, _ => []

/-- The protocol operations that an action stands for. -/
def ops (chain : Chain) (s : System) : Action → List (WriteBehind.Op TxHash Nat Nat)
  | .message m inserted =>
    match s.actor with
    | none => []
    | some a => messageOps a inserted m ++ haltOps (a.handleMessage inserted m)
  | .stopSignal => [.halt]
  | .flushRequest _ =>
    match s.actor with
    | none => []
    | some a =>
      match (s.loops a.flushReceiver).queue with
      | [] => []
      | request :: _ => requestOps a (s.loops a.flushReceiver) request
  | .flush k input =>
    match (s.loops k).step chain input with
    | none => []
    | some (l, _) => (s.loops k).ops k l
  | _ => []

variable {chain : Chain} {s t : System} {a : TxActor}

theorem view_of_actor (hactor : s.actor = some a) :
    s.view = ⟨{h | h ∈ a.cache}, a.ctx.map ActorContext.runId, some a.flushReceiver,
      fun k => (s.loops k).worker, records s.db, s.sent⟩ := by
  simp [view, hactor]

theorem initial_view_init : init.view.Initial where
  buffer := by
    rw [view_of_actor rfl]
    ext h
    simp [TxActor.new]
  workers k := by
    unfold init view
    by_cases hk : k = 0
    · subst hk
      rfl
    · simp only [Function.update_of_ne hk]
      rfl
  store := rfl

theorem worker_update (loops : Nat → FlushLoop) (k : Nat) (l : FlushLoop) :
    (fun j => (Function.update loops k l j).worker) =
      Function.update (fun j => (loops j).worker) k l.worker :=
  Function.comp_update FlushLoop.worker loops k l

/-- An operation is matched by checking that it is enabled and what it does. -/
private theorem run_op {u v : WriteBehind.State TxHash Nat Nat}
    {op : WriteBehind.Op TxHash Nat Nat} (enabled : u.Enabled op) (heq : u.exec op = v) :
    Execution.run WriteBehind.State.step u [op] = some v := by
  rw [Execution.run_singleton]
  exact WriteBehind.State.step_eq_some.mpr ⟨enabled, heq⟩

/-- The system after a handled message, before the actor's end is considered. -/
def handled (s : System) (h : Handled) : System :=
  { s with actor := some h.actor, db := s.db ++ h.committed }

/-- The hashes of a keyed cache enumerate the buffer. -/
theorem enumerates_values (hactor : s.actor = some a) (hkeyed : a.Keyed) :
    s.view.Enumerates (hashes a.cache.values) := by
  rw [view_of_actor hactor]
  exact ⟨hkeyed.nodup_values, fun h => hkeyed.mem_values⟩

/-- The end of the actor is matched by `halt`. -/
theorem run_haltOps (s : System) (h : Handled) :
    Execution.run WriteBehind.State.step (s.handled h).view (haltOps h) =
      some (s.deliver h).view := by
  unfold haltOps deliver
  cases hsurvivor : TxActor.survivor h with
  | some b =>
    obtain ⟨-, -, rfl⟩ := TxActor.survivor_eq_some.mp hsurvivor
    rfl
  | none =>
    -- every loop forgets its removals at once
    refine run_op trivial ?_
    have hworkers : (fun k => ((s.loops k).close).worker) =
        fun k => ((s.loops k).worker).forget := funext fun k => FlushLoop.worker_close _
    simp only [view, handled, WriteBehind.State.exec, Option.bind_none, Option.map_none, hworkers]
    congr 1
    ext h
    simp

theorem view_handled (s : System) (h : Handled) :
    (s.handled h).view = ⟨{k | k ∈ h.actor.cache}, h.actor.ctx.map ActorContext.runId,
      some h.actor.flushReceiver, fun k => (s.loops k).worker, records (s.db ++ h.committed),
      s.sent⟩ :=
  view_of_actor rfl

/-- A dump is matched by `dump`, or by nothing when it is refused. -/
private theorem run_dumpOps (hwf : s.WellFormed) (hactor : s.actor = some a) (runId : Nat)
    (reply : Oneshot) (inserted : Bool) :
    Execution.run WriteBehind.State.step s.view (messageOps a inserted (.dumpCache runId reply)) =
      some (s.handled (a.handleMessage inserted (.dumpCache runId reply))).view := by
  have hview := view_of_actor hactor
  rw [view_handled]
  simp only [messageOps, TxActor.handleMessage]
  rcases a.dumpCache_cases inserted runId with ⟨haccepts, txs, hhashes, hdump⟩ |
    ⟨hrefused, fault, hdump⟩
  · have haccepts' : a.accepts (.message (.dumpCache runId reply) inserted) = true := haccepts
    rw [if_pos haccepts', hdump]
    refine run_op (enumerates_values hactor (hwf.keyed a hactor)) ?_
    have hrows : records (s.db ++ txs.map fun tx => (runId, tx)) =
        records s.db ++ (hashes a.cache.values).map fun h => (runId, h) := by
      simp only [records, hashes, List.map_append, ← hhashes, List.map_map]
      rfl
    rw [hview]
    simp only [WriteBehind.State.exec, hrows]
    congr 1
    ext k
    simp
  · have hrefused' : a.accepts (.message (.dumpCache runId reply) inserted) ≠ true := by
      rw [show a.accepts (.message (.dumpCache runId reply) inserted) = false from hrefused]
      simp
    rw [if_neg hrefused', hdump, hview]
    simp

/-- A handled message is matched by its operations. -/
theorem run_messageOps (hwf : s.WellFormed) (hactor : s.actor = some a) {m : TxActorMessage}
    (inserted : Bool) (hreceive : s.receive a m = some t) :
    Execution.run WriteBehind.State.step s.view (messageOps a inserted m) =
      some (t.handled (a.handleMessage inserted m)).view := by
  have hview := view_of_actor hactor
  cases m with
  | initCtx ctx =>
    obtain rfl := Option.some.inj hreceive
    refine run_op trivial ?_
    rw [view_handled, hview]
    simp [WriteBehind.State.exec, TxActor.handleMessage]
  | getCacheLen r =>
    obtain rfl := Option.some.inj hreceive
    rw [view_handled, hview]
    simp [messageOps, TxActor.handleMessage]
  | stop r =>
    obtain rfl := Option.some.inj hreceive
    rw [view_handled, hview]
    simp [messageOps, TxActor.handleMessage]
  | sentRunTx h start stop kind error r =>
    obtain rfl := Option.some.inj hreceive
    refine run_op trivial ?_
    rw [view_handled, hview]
    simp only [WriteBehind.State.exec, TxActor.handleMessage, List.append_nil]
    congr 1
    ext k
    exact (AList.mem_insert _).symm
  | removedRunTx h r =>
    obtain rfl := Option.some.inj hreceive
    rw [view_handled]
    simp only [messageOps]
    by_cases hmem : h ∈ a.cache
    · rw [if_pos hmem]
      refine run_op trivial ?_
      rw [hview]
      simp only [WriteBehind.State.exec, TxActor.handleMessage, TxActor.removeCachedTx, if_pos hmem,
        List.append_nil]
      congr 1
      ext k
      simp [and_comm]
    · rw [if_neg hmem, hview]
      simp [TxActor.handleMessage, TxActor.removeCachedTx, if_neg hmem]
  | dumpCache runId r =>
    obtain rfl := Option.some.inj hreceive
    exact run_dumpOps hwf hactor runId r inserted
  | replaceFlushReceiver k =>
    obtain ⟨htransit, rfl⟩ := receive_replaceFlushReceiver.mp hreceive
    -- the new loop has no batch, the old one forgets its removals
    have hidle := FlushLoop.worker_of_inTransit (hwf.sound k) htransit
    have hattached : ∀ j, j ≠ a.flushReceiver → (s.loops j).receiver ≠ .attached := by
      intro j hj hread
      obtain ⟨b, hb, hbj⟩ := (hwf.attached j).mp hread
      obtain rfl := Option.some.inj (hactor.symm.trans hb)
      exact hj hbj.symm
    apply run_op (by rw [hview]; exact hidle)
    rw [view_handled, hview]
    simp only [WriteBehind.State.exec, TxActor.handleMessage, List.append_nil]
    congr 1
    funext j
    by_cases hjk : j = k
    · subst hjk
      rw [Function.update_self, hidle]
      unfold FlushLoop.worker
      rcases (hwf.sound j).inTransit htransit with hpc | ⟨hpc, -⟩ <;> rw [hpc] <;> rfl
    · rw [Function.update_of_ne hjk]
      by_cases hread : j = a.flushReceiver
      · rw [hread, Function.update_self, FlushLoop.worker_close]
      · rw [Function.update_of_ne hread]
        exact FlushLoop.worker_forget (hattached j hread)
  | clearCache r =>
    obtain rfl := Option.some.inj hreceive
    refine run_op trivial ?_
    rw [view_handled, hview]
    simp only [WriteBehind.State.exec, TxActor.handleMessage, List.append_nil]
    congr 1
    ext k
    simp

/-- The next snapshot that the actor serves. -/
private theorem run_getSnapshot (hwf : s.WellFormed) (hactor : s.actor = some a)
    {l : FlushLoop} (hl : s.loops a.flushReceiver = l) (hqueue : l.queue = [.getSnapshot])
    (hpc : l.pc.Awaits) (hreply : l.reply = .pending) :
    Execution.run WriteBehind.State.step s.view (requestOps a l .getSnapshot) =
      some { s.view with
        workers := Function.update s.view.workers a.flushReceiver
          (answer l [] a.snapshot .getSnapshot).worker } := by
  have hworker : s.view.workers a.flushReceiver = l.worker := by rw [← hl]; rfl
  have henum := enumerates_values hactor (hwf.keyed a hactor)
  have hreader : s.view.reader = some a.flushReceiver := by rw [view_of_actor hactor]
  have htag : s.view.tag = a.ctx.map ActorContext.runId := by rw [view_of_actor hactor]
  -- where no operation is taken, the worker is the one the loop was before
  have hsame : l.worker = (answer l [] a.snapshot .getSnapshot).worker →
      some s.view = some { s.view with
        workers := Function.update s.view.workers a.flushReceiver
          (answer l [] a.snapshot .getSnapshot).worker } := by
    intro h
    rw [← h, ← hworker, Function.update_eq_self]
  obtain ⟨origin, hasks⟩ := hpc
  unfold requestOps
  generalize hpc : l.pc = pc at hasks
  cases hasks with
  | context => exact hsame (by simp [FlushLoop.worker, answer, hpc])
  | drain => exact hsame (by simp [FlushLoop.worker, answer, hpc])
  | range newBlock =>
    have hidle : l.worker = .idle := by
      simp [FlushLoop.worker, hpc, hreply, SnapshotReply.delivered]
    cases hctx : a.ctx with
    | none =>
      apply hsame
      rw [hidle]
      simp [FlushLoop.worker, answer, hpc, SnapshotReply.delivered, TxActor.snapshot, hctx]
    | some ctx =>
      refine run_op ⟨hreader, ?_, henum⟩ ?_
      · rw [hworker, hidle]
        rfl
      · simp [WriteBehind.State.exec, FlushLoop.worker, answer, hpc, SnapshotReply.delivered,
          TxActor.snapshot, hctx, htag]
  | refresh range =>
    have hbefore : l.worker = ⟨some range.runId, [], []⟩ := by
      simp [FlushLoop.worker, hpc, hreply, SnapshotReply.delivered, hqueue, removals]
    cases hctx : a.ctx with
    | none =>
      apply hsame
      rw [hbefore]
      simp [FlushLoop.worker, answer, hpc, SnapshotReply.delivered, TxActor.snapshot, hctx,
        removals]
    | some ctx =>
      refine run_op ⟨hreader, ?_, henum, ?_⟩ ?_
      · rw [hworker, hbefore]
      · rw [hworker, hbefore]
        simp
      · have hafter : (answer l [] a.snapshot .getSnapshot).worker =
            ⟨some range.runId, hashes a.cache.values, []⟩ := by
          simp [FlushLoop.worker, answer, hpc, SnapshotReply.delivered, TxActor.snapshot, hctx,
            removals]
        simp only [WriteBehind.State.exec, hworker, hbefore, hafter]

/-- A removal that the actor serves takes the recorded hashes out of the buffer. -/
private theorem run_removeConfirmed (hwf : s.WellFormed) (hactor : s.actor = some a)
    {l : FlushLoop} (hl : s.loops a.flushReceiver = l) {range : BlockRange}
    {confirmed : List TxHash} {rest : List FlushRequest}
    (hqueue : l.queue = .removeConfirmed confirmed (range.bn + 1) :: rest)
    (hpc : l.pc = .refresh range ∧ rest = [] ∧ l.reply = .idle ∨
      l.pc = .refreshReply range ∧ rest = [.getSnapshot] ∧ l.reply = .pending) :
    l.worker = ⟨some range.runId, [], confirmed⟩ ∧
      (answer l rest a.snapshot (.removeConfirmed confirmed (range.bn + 1))).worker =
        l.worker.forget := by
  have hattached : l.receiver = .attached := by
    rw [← hl]
    exact (hwf.attached _).mpr ⟨a, hactor, rfl⟩
  rcases hpc with ⟨hpc, rfl, hreply⟩ | ⟨hpc, rfl, hreply⟩
  · simp [FlushLoop.worker, answer, hpc, hattached, hqueue, removals, WriteBehind.Worker.forget]
  · simp [FlushLoop.worker, answer, hpc, hattached, hqueue, hreply, removals,
      SnapshotReply.delivered, WriteBehind.Worker.forget]

/-- A served flush request is matched by its operations. -/
theorem run_requestOps (hwf : s.WellFormed) (hactor : s.actor = some a) {nowMs : Nat}
    (hserve : s.serve a nowMs = some t) :
    ∃ request rest, (s.loops a.flushReceiver).queue = request :: rest ∧
      Execution.run WriteBehind.State.step s.view
        (requestOps a (s.loops a.flushReceiver) request) = some t.view := by
  have hsound := hwf.sound a.flushReceiver
  obtain ⟨request, rest, hqueue, rfl⟩ := serve_eq_some.mp hserve
  refine ⟨request, rest, hqueue, ?_⟩
  rcases hsound.request_cases hqueue with ⟨rfl, rfl, hpc, hreply⟩ | ⟨range, confirmed, rfl, hpc⟩
  · rw [run_getSnapshot hwf hactor rfl hqueue hpc hreply]
    simp [view, hactor, worker_update, TxActor.handleFlushRequest]
  · obtain ⟨hworker, hafter⟩ := run_removeConfirmed hwf hactor rfl hqueue hpc
    have hview := view_of_actor hactor
    apply run_op (by rw [hview]; rfl)
    rw [hview]
    refine Eq.trans ?_ (view_of_actor rfl).symm
    simp only [WriteBehind.State.exec, worker_update, hafter, hworker,
      TxActor.handleFlushRequest, Option.map_map]
    congr 1
    · ext h
      exact AList.mem_eraseAll.symm
    · cases a.ctx with
      | none => rfl
      | some ctx =>
        simp only [Option.map_some, Function.comp_apply, TxActor.advanceTarget]
        split_ifs <;> rfl

/-- A move of a flush loop is matched by its operation. -/
theorem run_loopOps (hwf : s.WellFormed) {k : Nat} {input : FlushInput} {l : FlushLoop}
    {rows : List RunRow} (hloop : (s.loops k).step chain input = some (l, rows)) :
    Execution.run WriteBehind.State.step s.view ((s.loops k).ops k l) =
      some ({ s with loops := Function.update s.loops k l, db := s.db ++ rows } : System).view := by
  have hwork := (FlushLoop.move_of_step hloop).work (hwf.sound k) k
  have hview : ({ s with loops := Function.update s.loops k l, db := s.db ++ rows } :
      System).view = { s.view with
        workers := Function.update s.view.workers k l.worker
        store := s.view.store ++ records rows } := by
    simp [view, worker_update, records]
  rw [hview]
  cases hwork with
  | same hops hworker hrows =>
    rw [hops, hworker, hrows]
    simp [records, view]
  | release hops hsaved hworker hrows =>
    rw [hops, hworker, hrows]
    refine run_op hsaved ?_
    simp [WriteBehind.State.exec, records]
  | save hops htag hsaved hsub hworker hrows =>
    rw [hops, hworker, hrows]
    refine run_op ⟨htag, hsaved, hsub⟩ ?_
    -- the worker is served exactly when its receiver is attached
    have hreader : s.view.reader = some k ↔ (s.loops k).receiver = .attached := by
      rw [hwf.attached k]
      simp [view]
    simp only [WriteBehind.State.exec, hreader]

/-- **Simulation.** Every action is matched by its protocol operations. -/
theorem run_ops (hwf : s.WellFormed) {action : Action}
    (hstep : s.step chain action = some t) :
    Execution.run WriteBehind.State.step s.view (s.ops chain action) = some t.view := by
  cases action with
  | message m inserted =>
    obtain ⟨a, received, hactor, hreceive, rfl⟩ := step_message.mp hstep
    simp only [ops, hactor]
    exact Execution.run_append_eq_some.mpr
      ⟨_, run_messageOps hwf hactor inserted hreceive, run_haltOps received _⟩
  | stopSignal =>
    obtain ⟨a, hactor, rfl⟩ := Option.map_eq_some_iff.mp hstep
    have hhandled : (s.handled (a.handle .stopSignal)).view = s.view := by
      rw [view_handled, view_of_actor hactor]
      simp [TxActor.handle, TxActor.handleMessage]
    rw [← hhandled]
    exact run_haltOps s (a.handle .stopSignal)
  | flushRequest nowMs =>
    obtain ⟨a, hactor, hserve⟩ := Option.bind_eq_some_iff.mp hstep
    obtain ⟨request, rest, hqueue, hrun⟩ := run_requestOps hwf hactor hserve
    simp only [ops, hactor, hqueue]
    exact hrun
  | flashblockMark mark =>
    obtain ⟨a, hactor, rfl⟩ := Option.map_eq_some_iff.mp hstep
    have hctx := TxActor.handleFlashblockMark_ctx a mark
    rw [view_of_actor hactor]
    refine congrArg some (Eq.trans ?_ (view_of_actor rfl).symm)
    simp [hctx, TxActor.handleFlashblockMark_flushReceiver,
      TxActor.mem_cache_handleFlashblockMark]
  | restartFlush =>
    obtain ⟨a, hactor, rfl⟩ := Option.map_eq_some_iff.mp hstep
    -- the name was free, and a spawned loop is idle
    have hidle : (FlushLoop.spawn .inTransit).worker = (s.loops s.spawned).worker := by
      rw [FlushLoop.worker_of_resting (Or.inr (Or.inr (Or.inl (hwf.unspawned _ le_rfl).1)))]
      rfl
    simp [ops, view, worker_update, hidle]
  | cancel k =>
    obtain rfl := Option.some.inj hstep
    have hsame : ({ s.loops k with cancelled := true } : FlushLoop).worker =
        (s.loops k).worker := rfl
    simp [ops, view, worker_update, hsame]
  | flush k input =>
    obtain ⟨⟨l, rows⟩, hloop, rfl⟩ := Option.map_eq_some_iff.mp hstep
    simp only [ops, hloop]
    exact run_loopOps hwf hloop

/-- A message stands for one operation at most. -/
theorem messageOps_cases (a : TxActor) (inserted : Bool) (m : TxActorMessage) :
    messageOps a inserted m = [] ∨ ∃ op, messageOps a inserted m = [op] := by
  cases m with
  | removedRunTx h r =>
    simp only [messageOps]
    split_ifs
    · exact Or.inr ⟨_, rfl⟩
    · exact Or.inl rfl
  | dumpCache runId r =>
    simp only [messageOps]
    split_ifs
    · exact Or.inr ⟨_, rfl⟩
    · exact Or.inl rfl
  | getCacheLen r => exact Or.inl rfl
  | stop r => exact Or.inl rfl
  | _ => exact Or.inr ⟨_, rfl⟩

private theorem byWorker_requestOps {l : FlushLoop} {request : FlushRequest}
    {op : WriteBehind.Op TxHash Nat Nat} (hop : op ∈ requestOps a l request) : op.ByWorker := by
  unfold requestOps at hop
  split at hop
  · obtain rfl := List.mem_singleton.mp hop
    trivial
  · split at hop
    · obtain rfl := List.mem_singleton.mp hop
      trivial
    · obtain rfl := List.mem_singleton.mp hop
      trivial
    · exact absurd hop List.not_mem_nil

private theorem byWorker_loopOps {k : Nat} {l l' : FlushLoop}
    {op : WriteBehind.Op TxHash Nat Nat} (hop : op ∈ l.ops k l') : op.ByWorker := by
  unfold FlushLoop.ops at hop
  split at hop
  · obtain rfl := List.mem_singleton.mp hop
    trivial
  · split_ifs at hop
    · obtain rfl := List.mem_singleton.mp hop
      trivial
    · exact absurd hop List.not_mem_nil

/-- Everything but a message and a stop signal stands for operations of the workers. -/
theorem byWorker_ops {action : Action} (hmessage : ∀ m inserted, action ≠ .message m inserted)
    (hstop : action ≠ .stopSignal) {op : WriteBehind.Op TxHash Nat Nat}
    (hop : op ∈ s.ops chain action) : op.ByWorker := by
  cases action with
  | message m inserted => exact absurd rfl (hmessage m inserted)
  | stopSignal => exact absurd rfl hstop
  | flushRequest nowMs =>
    simp only [ops] at hop
    split at hop
    · exact absurd hop List.not_mem_nil
    · split at hop
      · exact absurd hop List.not_mem_nil
      · exact byWorker_requestOps hop
  | flush k input =>
    simp only [ops] at hop
    split at hop
    · exact absurd hop List.not_mem_nil
    · exact byWorker_loopOps hop
  | flashblockMark mark => exact absurd hop List.not_mem_nil
  | restartFlush => exact absurd hop List.not_mem_nil
  | cancel k => exact absurd hop List.not_mem_nil

/-- A guard that the operations of the workers and the end of the actor always meet
is met along the operations of an action, when it is met by the operation of the
message handled. -/
theorem along_ops {ok : WriteBehind.State TxHash Nat Nat → WriteBehind.Op TxHash Nat Nat → Prop}
    (hworker : ∀ u op, op.ByWorker → ok u op) (hhalt : ∀ u, ok u .halt) {action : Action}
    (hmessage : ∀ a m inserted, action = .message m inserted → s.actor = some a →
      ∀ op ∈ messageOps a inserted m, ok s.view op) :
    Execution.Along WriteBehind.State.step ok s.view (s.ops chain action) := by
  cases action with
  | message m inserted =>
    simp only [ops]
    cases hactor : s.actor with
    | none => trivial
    | some a =>
      have hend : ∀ u, Execution.Along WriteBehind.State.step ok u
          (haltOps (a.handleMessage inserted m)) := by
        intro u
        apply Execution.along_of_forall
        intro op hop v
        unfold haltOps at hop
        split_ifs at hop
        · exact absurd hop List.not_mem_nil
        · obtain rfl := List.mem_singleton.mp hop
          exact hhalt v
      have hok := hmessage a m inserted rfl hactor
      rcases messageOps_cases a inserted m with hops | ⟨op, hops⟩
      · simp only [hops, List.nil_append]
        exact hend _
      · rw [hops] at hok
        simp only [hops, List.singleton_append]
        exact ⟨hok op (List.mem_singleton_self _), fun u _ => hend u⟩
  | stopSignal => exact ⟨hhalt _, fun _ _ => trivial⟩
  | _ =>
    exact Execution.along_of_forall fun op hop u =>
      hworker u op (byWorker_ops (by simp) (by simp) hop)

end System

end Contender
