import Mathlib.Logic.Function.Basic
import Contender.Spammer.FlushLoop

/-!
# The receipt collection system

The actor, the flush loops that were spawned for it, and the database. A flush loop
is named by the channel it owns. A restarted loop sends its receiver to the actor in
a `ReplaceFlushReceiver` message; until the message is handled the receiver is in
transit, and handling it drops the receiver of the loop served before. When the actor
ends, every receiver is dropped.

Every interleaving of the actor, the flush loops and the senders of messages is a
list of actions. The system also records two histories: the transactions the actor
accepted, with the run that was current, and the blocks that a `RemoveConfirmed`
moved the target past, with the snapshot last used for them.
-/

namespace Contender

structure System where
  actor : Option TxActor
  loops : Nat → FlushLoop
  spawned : Nat
  db : List RunRow
  sent : List (TxHash × Option Nat)
  advanced : List (Nat × Option (List PendingRunTx))

/-- What can happen next. -/
inductive Action
  /-- The actor handles an API message; `inserted` is the outcome of a dump. -/
  | message (m : TxActorMessage) (inserted : Bool)
  | stopSignal
  /-- The actor handles the next request of the flush loop it serves. -/
  | flushRequest (nowMs : Nat)
  | flashblockMark (mark : FlashblockMark)
  | restartFlush
  | cancel (loop : Nat)
  | flush (loop : Nat) (input : FlushInput)
  deriving DecidableEq, Repr

namespace System

/-- `TxActorHandle::new`: the actor and a first flush loop whose channel it reads. -/
def init : System where
  actor := some (TxActor.new 0)
  loops := Function.update (fun _ => FlushLoop.unspawned) 0 (FlushLoop.spawn .attached)
  spawned := 1
  db := []
  sent := []
  advanced := []

/-- The outcome of a handled message. An actor whose `run` returns drops every
receiver. -/
def deliver (s : System) (h : Handled) : System :=
  match TxActor.survivor h with
  | some a => { s with actor := some a, db := s.db ++ h.committed }
  | none =>
    { s with
      actor := none
      db := s.db ++ h.committed
      loops := fun k => (s.loops k).close }

/-- What a message does outside the actor: a transaction is recorded as accepted, and
a new receiver takes the place of the one the actor reads. -/
def receive (s : System) (a : TxActor) : TxActorMessage → Option System
  | .sentRunTx txHash _ _ _ _ _ =>
    some { s with sent := s.sent ++ [(txHash, a.ctx.map ActorContext.runId)] }
  | .replaceFlushReceiver k =>
    if (s.loops k).receiver = .inTransit then
      -- assigning the new receiver drops the old one
      let closed := Function.update s.loops a.flushReceiver (s.loops a.flushReceiver).close
      some { s with loops := Function.update closed k { s.loops k with receiver := .attached } }
    else none
  | _ => some s

/-- The loop's channel after the actor took the request off it. -/
def answer (l : FlushLoop) (rest : List FlushRequest) (snapshot : Snapshot) :
    FlushRequest → FlushLoop
  | .getSnapshot => { l with queue := rest, reply := .sent snapshot }
  | .removeConfirmed _ _ => { l with queue := rest }

/-- The blocks a request moves the target past, with the snapshots last used for
them. -/
def passed (a : TxActor) (l : FlushLoop) : FlushRequest → List (Nat × Option (List PendingRunTx))
  | .getSnapshot => []
  | .removeConfirmed _ newTargetBlock =>
    match a.ctx with
    | none => []
    | some ctx =>
      (List.range' ctx.targetBlock (newTargetBlock - ctx.targetBlock)).map
        fun b => (b, l.used.lookup b)

/-- The actor takes the next request of the loop it serves. -/
def serve (s : System) (a : TxActor) (nowMs : Nat) : Option System :=
  let l := s.loops a.flushReceiver
  match l.queue with
  | [] => none
  | request :: rest =>
    some { s with
      actor := some (a.handleFlushRequest nowMs request)
      loops := Function.update s.loops a.flushReceiver (answer l rest a.snapshot request)
      advanced := s.advanced ++ passed a l request }

/-- One step of the system. -/
def step (chain : Chain) (s : System) : Action → Option System
  -- a message to an actor that has ended is never handled
  | .message m inserted =>
    s.actor.bind fun a =>
      (s.receive a m).map fun received => received.deliver (a.handleMessage inserted m)
  | .stopSignal => s.actor.map fun a => s.deliver (a.handle .stopSignal)
  | .flushRequest nowMs => s.actor.bind fun a => s.serve a nowMs
  | .flashblockMark mark =>
    s.actor.map fun a => { s with actor := some (a.handleFlashblockMark mark) }
  | .restartFlush =>
    s.actor.map fun _ =>
      { s with
        loops := Function.update s.loops s.spawned (FlushLoop.spawn .inTransit)
        spawned := s.spawned + 1 }
  -- the cancel token is set from outside, whether or not the actor runs
  | .cancel k =>
    some { s with loops := Function.update s.loops k { s.loops k with cancelled := true } }
  | .flush k input =>
    ((s.loops k).step chain input).map fun (l, rows) =>
      { s with loops := Function.update s.loops k l, db := s.db ++ rows }

variable {chain : Chain} {s t : System}

/-- A message is handled by a living actor. -/
theorem step_message {m : TxActorMessage} {inserted : Bool} :
    s.step chain (.message m inserted) = some t ↔ ∃ a received, s.actor = some a ∧
      s.receive a m = some received ∧ received.deliver (a.handleMessage inserted m) = t := by
  simp only [step, Option.bind_eq_some_iff, Option.map_eq_some_iff]
  constructor
  · rintro ⟨a, hactor, received, hreceive, rfl⟩
    exact ⟨a, received, hactor, hreceive, rfl⟩
  · rintro ⟨a, received, hactor, hreceive, rfl⟩
    exact ⟨a, hactor, received, hreceive, rfl⟩

/-- Only a request that is queued is served. -/
theorem serve_eq_some {a : TxActor} {nowMs : Nat} :
    s.serve a nowMs = some t ↔
      ∃ request rest, (s.loops a.flushReceiver).queue = request :: rest ∧
        { s with
          actor := some (a.handleFlushRequest nowMs request)
          loops := Function.update s.loops a.flushReceiver
            (answer (s.loops a.flushReceiver) rest a.snapshot request)
          advanced := s.advanced ++ passed a (s.loops a.flushReceiver) request } = t := by
  simp only [serve]
  cases (s.loops a.flushReceiver).queue with
  | nil => simp
  | cons request rest =>
    simp only [Option.some.injEq, List.cons.injEq]
    constructor
    · rintro rfl
      exact ⟨request, rest, ⟨rfl, rfl⟩, rfl⟩
    · rintro ⟨request', rest', ⟨rfl, rfl⟩, rfl⟩
      rfl

end System

end Contender
