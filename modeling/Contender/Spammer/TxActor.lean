import Contender.Data.AssocMap
import Contender.Primitives
import Contender.Semantics.Execution

/-!
# The transaction actor

`TxActor` owns the cache of sent transactions whose receipts have not been
collected yet. It handles one input at a time: an API message, a request of the
flush loop, a flashblock mark, or a stop signal. Every API message that expects
an answer carries the sending half of a oneshot channel, and the requester may
have dropped the receiving half by the time the actor answers.

A handler answers with the next actor state, the rows it committed to the
database, and its `Result`. `TxActor::run` leaves its loop on the first error and
after a stop, and the actor is dropped with its cache.
-/

namespace Contender

/-- `MAX_PENDING_FLASHBLOCK_MARKS`. -/
def maxPendingFlashblockMarks : Nat := 1024

/-- A row of the `run_txs` table, without its run id. -/
structure RunTx where
  txHash : TxHash
  startTimestampMs : Nat
  endTimestampMs : Option Nat
  blockNumber : Option Nat
  gasUsed : Option Nat
  kind : Option String
  error : Option String
  flashblockLatencyMs : Option Nat
  flashblockIndex : Option Nat
  deriving DecidableEq, Repr

/-- A row of the `run_txs` table: a transaction recorded under a run id. -/
abbrev RunRow := Nat × RunTx

/-- A sent transaction waiting for its receipt. -/
structure PendingRunTx where
  txHash : TxHash
  startTimestampMs : Nat
  endTimestampMs : Option Nat
  kind : Option String
  error : Option String
  flashblockTimestampMs : Option Nat
  flashblockIndex : Option Nat
  deriving DecidableEq, Repr

namespace PendingRunTx

/-- Flashblock inclusion latency. The outer `none` is the panic of the narrowing
`unwrap`. -/
def flashblockLatencyMs (tx : PendingRunTx) : Option (Option Nat) :=
  match tx.flashblockTimestampMs with
  | none => some none
  | some stamp => (toU64 (stamp - tx.startTimestampMs)).map some

/-- `end_timestamp_ms` narrowed to `u64`; the outer `none` is a panic. -/
def endTimestampU64 (tx : PendingRunTx) : Option (Option Nat) :=
  match tx.endTimestampMs with
  | none => some none
  | some stamp => (toU64 stamp).map some

/-- The record `dump_cache` writes: no block number and no gas. A timestamp that
does not fit panics. -/
def toDumpedRunTx (tx : PendingRunTx) : Option RunTx := do
  let start ← toU64 tx.startTimestampMs
  let stop ← tx.endTimestampU64
  let latency ← tx.flashblockLatencyMs
  some {
    txHash := tx.txHash
    startTimestampMs := start
    endTimestampMs := stop
    blockNumber := none
    gasUsed := none
    kind := tx.kind
    error := tx.error
    flashblockLatencyMs := latency
    flashblockIndex := tx.flashblockIndex }

theorem txHash_of_toDumpedRunTx {tx : PendingRunTx} {row : RunTx}
    (h : tx.toDumpedRunTx = some row) : row.txHash = tx.txHash := by
  simp only [toDumpedRunTx, Option.bind_eq_bind, Option.bind_eq_some_iff, Option.some.injEq] at h
  obtain ⟨_, _, _, _, _, _, rfl⟩ := h
  rfl

end PendingRunTx

/-- What the flush loop needs to know about the current spam run. -/
structure ActorContext where
  runId : Nat
  targetBlock : Nat
  deriving DecidableEq, Repr

inductive ActorStatus
  | shuttingDown
  | running
  deriving DecidableEq, Repr

/-- The receiving half of a oneshot reply channel when the actor answers. -/
inductive Oneshot
  | listening
  | dropped
  deriving DecidableEq, Repr

/-- External messages from API callers. `ReplaceFlushReceiver` names the flush
channel whose receiver it carries. -/
inductive TxActorMessage
  | initCtx (ctx : ActorContext)
  | getCacheLen (onLen : Oneshot)
  | sentRunTx (txHash : TxHash) (startTimestampMs : Nat) (endTimestampMs : Option Nat)
      (kind : Option String) (error : Option String) (onReceive : Oneshot)
  | removedRunTx (txHash : TxHash) (onRemove : Oneshot)
  | dumpCache (runId : Nat) (onDumpCache : Oneshot)
  | stop (onStop : Oneshot)
  | replaceFlushReceiver (receiver : Nat)
  | clearCache (onClear : Oneshot)
  deriving DecidableEq, Repr

/-- Internal messages from the flush task to the message handler. -/
inductive FlushRequest
  | getSnapshot
  | removeConfirmed (confirmedTxHashes : List TxHash) (newTargetBlock : Nat)
  deriving DecidableEq, Repr

/-- A transaction seen in a flashblock. -/
structure FlashblockMark where
  txHash : TxHash
  timestampMs : Nat
  index : Nat
  deriving DecidableEq, Repr

/-- The errors a message handler returns. -/
inductive ActorError
  | oneshotSend (message : String)
  | cacheRemoveTx (txHash : TxHash)
  | dumpCache (txs : List RunTx)
  | db
  deriving DecidableEq, Repr

/-- How a handler fails: with an error that `run` propagates, or by a panic of
the actor's task. -/
inductive Fault
  | error (e : ActorError)
  | panic
  deriving DecidableEq, Repr

/-- The reply to a snapshot request. -/
structure Snapshot where
  txs : List PendingRunTx
  ctx : Option ActorContext

/-- The actor's state. `flushReceiver` names the flush channel it reads. -/
structure TxActor where
  cache : AssocMap TxHash PendingRunTx
  ctx : Option ActorContext
  status : ActorStatus
  pendingFlashblockMarks : AssocMap TxHash (Nat × Nat)
  flushReceiver : Nat

/-- A handled message: the next state, the rows committed to the database, and
the handler's result. -/
structure Handled where
  actor : TxActor
  committed : List RunRow
  result : Except Fault Unit

/-- Send a reply; a dropped receiver makes the handler fail with `failure`. -/
def Oneshot.send (reply : Oneshot) (failure : ActorError) : Except Fault Unit :=
  match reply with
  | .listening => .ok ()
  | .dropped => .error (.error failure)

namespace TxActor

/-- `TxActor::new`, reading the flush channel `receiver`. -/
def new (receiver : Nat) : TxActor where
  cache := ∅
  ctx := none
  status := .running
  pendingFlashblockMarks := ∅
  flushReceiver := receiver

/-- Dump all cached transactions into the database and clear the cache.
`inserted` is the outcome of `insert_run_txs`. -/
def dumpCache (a : TxActor) (inserted : Bool) (runId : Nat) :
    TxActor × List RunRow × Except Fault (List RunTx) :=
  match a.cache.values.mapM PendingRunTx.toDumpedRunTx with
  | none => (a, [], .error .panic)
  | some runTxs =>
    -- a failed insert returns before the cache is cleared
    if inserted then ({ a with cache := ∅ }, runTxs.map fun tx => (runId, tx), .ok runTxs)
    else (a, [], .error (.error .db))

/-- Remove a transaction from the cache. It is an error to name an uncached one. -/
def removeCachedTx (a : TxActor) (oldTxHash : TxHash) : TxActor × Except Fault Unit :=
  if oldTxHash ∈ a.cache then ({ a with cache := a.cache.erase oldTxHash }, .ok ())
  else (a, .error (.error (.cacheRemoveTx oldTxHash)))

/-- The cache entry a `SentRunTx` message makes, with a buffered flashblock mark
applied to it. -/
def pendingOf (a : TxActor) (txHash : TxHash) (startTimestampMs : Nat)
    (endTimestampMs : Option Nat) (kind error : Option String) : PendingRunTx :=
  let mark := a.pendingFlashblockMarks.lookup txHash
  { txHash, startTimestampMs, endTimestampMs, kind, error
    flashblockTimestampMs := mark.map Prod.fst
    flashblockIndex := mark.map Prod.snd }

/-- Handle an external API message. `inserted` is the outcome of
`insert_run_txs`, should the message dump the cache. -/
def handleMessage (a : TxActor) (inserted : Bool) : TxActorMessage → Handled
  | .getCacheLen onLen =>
    ⟨a, [], onLen.send (.oneshotSend ("GetCacheLen: " ++ toString a.cache.entries.length))⟩
  | .initCtx ctx => ⟨{ a with ctx := some ctx }, [], .ok ()⟩
  | .stop onStop =>
    ⟨{ a with status := .shuttingDown }, [], onStop.send (.oneshotSend "Stop: ()")⟩
  | .sentRunTx txHash startTimestampMs endTimestampMs kind error onReceive =>
    -- the entry replaces one of the same hash, and a buffered mark is used up
    let runTx := a.pendingOf txHash startTimestampMs endTimestampMs kind error
    ⟨{ a with
        cache := a.cache.insert txHash runTx
        pendingFlashblockMarks := a.pendingFlashblockMarks.erase txHash },
      [], onReceive.send (.oneshotSend "SentRunTx: ()")⟩
  | .removedRunTx txHash onRemove =>
    match a.removeCachedTx txHash with
    -- `?` returns before the reply is sent
    | (next, .error fault) => ⟨next, [], .error fault⟩
    | (next, .ok ()) => ⟨next, [], onRemove.send (.oneshotSend "RemovedRunTx: ()")⟩
  | .dumpCache runId onDumpCache =>
    match a.dumpCache inserted runId with
    | (next, rows, .error fault) => ⟨next, rows, .error fault⟩
    | (next, rows, .ok txs) => ⟨next, rows, onDumpCache.send (.dumpCache txs)⟩
  | .replaceFlushReceiver receiver => ⟨{ a with flushReceiver := receiver }, [], .ok ()⟩
  | .clearCache onClear =>
    ⟨{ a with cache := ∅ }, [], onClear.send (.oneshotSend "ClearCache: ()")⟩

/-- The snapshot sent in answer to `GetSnapshot`. -/
def snapshot (a : TxActor) : Snapshot := ⟨a.cache.values, a.ctx⟩

/-- Raise the target block of a context, never lowering it. -/
def advanceTarget (newTargetBlock : Nat) (ctx : ActorContext) : ActorContext :=
  if newTargetBlock > ctx.targetBlock then { ctx with targetBlock := newTargetBlock } else ctx

/-- Handle an internal flush request. Buffered marks at least twenty seconds older
than `nowMs` are evicted along the way. -/
def handleFlushRequest (a : TxActor) (nowMs : Nat) : FlushRequest → TxActor
  -- the reply carries `snapshot`; whether it arrives does not matter to the actor
  | .getSnapshot => a
  | .removeConfirmed confirmedTxHashes newTargetBlock =>
    { a with
      cache := a.cache.eraseAll confirmedTxHashes
      pendingFlashblockMarks :=
        (a.pendingFlashblockMarks.eraseAll confirmedTxHashes).retain
          fun _ mark => nowMs - mark.1 < 20000
      ctx := a.ctx.map (advanceTarget newTargetBlock) }

/-- Handle a flashblock mark: the first mark of a transaction wins, and a mark of
an uncached transaction is buffered while there is room. -/
def handleFlashblockMark (a : TxActor) (mark : FlashblockMark) : TxActor :=
  match a.cache.lookup mark.txHash with
  | some pendingTx =>
    if pendingTx.flashblockTimestampMs.isNone then
      { a with
        cache := a.cache.replace mark.txHash
          { pendingTx with
            flashblockTimestampMs := some mark.timestampMs
            flashblockIndex := some mark.index } }
    else a
  | none =>
    -- a full buffer drops the mark, a second mark of the transaction is ignored
    if a.pendingFlashblockMarks.entries.length ≥ maxPendingFlashblockMarks then a
    else if mark.txHash ∈ a.pendingFlashblockMarks then a
    else
      { a with
        pendingFlashblockMarks :=
          a.pendingFlashblockMarks.insert mark.txHash (mark.timestampMs, mark.index) }

end TxActor

/-- One arm of the `select!` in `TxActor::run`. -/
inductive ActorInput
  | stopSignal
  | message (m : TxActorMessage) (inserted : Bool)
  | flush (request : FlushRequest) (nowMs : Nat)
  | mark (mark : FlashblockMark)
  deriving DecidableEq, Repr

namespace TxActor

/-- Handle one input. A stop signal is handled as a `Stop` message whose reply is
awaited in the same arm. -/
def handle (a : TxActor) : ActorInput → Handled
  | .stopSignal => a.handleMessage false (.stop .listening)
  | .message m inserted => a.handleMessage inserted m
  | .flush request nowMs => ⟨a.handleFlushRequest nowMs request, [], .ok ()⟩
  | .mark mark => ⟨a.handleFlashblockMark mark, [], .ok ()⟩

/-- The actor that keeps running after a handled message, if `run` does not
return: it returns the handler's error, and it leaves the loop once the status is
`ShuttingDown`. -/
def survivor (h : Handled) : Option TxActor :=
  match h.result with
  -- `?` leaves `run`, and the actor is dropped with its cache
  | .error _ => none
  | .ok () => if h.actor.status = .shuttingDown then none else some h.actor

/-- One iteration of the loop of `TxActor::run`. -/
def next (a : TxActor) (input : ActorInput) : Option TxActor := survivor (a.handle input)

/-- The loop of `TxActor::run`: the running actor after a list of inputs, or
nothing once `run` has returned. -/
def run (a : TxActor) (inputs : List ActorInput) : Option TxActor :=
  Semantics.Execution.run next a inputs

end TxActor

end Contender
