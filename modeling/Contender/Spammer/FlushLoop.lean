import Contender.Spammer.TxActor

/-!
# The flush loop

`flush_loop` runs beside the actor. It polls the chain for new blocks, asks the
actor for a snapshot of its cache, matches the snapshot with the receipts of one
block after another, commits the matches to the database, and asks the actor to
forget them. It talks to the actor through a channel of its own: requests queue up
in the channel, and the answer to a snapshot request comes back through a oneshot.

The loop is cut at its suspension points. What the node answers, whether the
database accepts an insert, and when the loop is cancelled are inputs.
-/

namespace Contender

/-- `STALE_BLOCK_LIMIT`. -/
def staleBlockLimit : Nat := 6

/-- A transaction receipt, as far as it is read. -/
structure Receipt where
  transactionHash : TxHash
  status : Bool
  gasUsed : Nat
  deriving DecidableEq, Repr

/-- The chain the node serves: the receipts of each block and its timestamp. -/
structure Chain where
  receipts : Nat → List Receipt
  timestamp : Nat → Nat

/-- A chain without transactions. -/
def Chain.empty : Chain := ⟨fun _ => [], fun _ => 0⟩

/-- What the node and the database do while one block is processed.
`allReceipts` says that `eth_getBlockReceipts` is answered; otherwise the receipts
are fetched one by one, and only the transactions in `served` get theirs. -/
structure ReceiptAnswer where
  allReceipts : Bool
  served : List TxHash
  inserted : Bool
  deriving DecidableEq, Repr

/-- The receipts that `process_block_receipts` gets hold of. -/
def ReceiptAnswer.fetch (answer : ReceiptAnswer) (chain : Chain) (blockNumber : Nat) :
    List Receipt :=
  if answer.allReceipts then chain.receipts blockNumber
  -- a receipt that cannot be fetched is dropped like one that does not exist
  else (chain.receipts blockNumber).filter fun r => decide (r.transactionHash ∈ answer.served)

/-- Transaction error based on the receipt status. -/
def getTxError (receipt : Receipt) (tx : PendingRunTx) : Option String :=
  if receipt.status then tx.error else some "execution reverted"

/-- The record of a confirmed transaction. The block timestamp is converted to
milliseconds even when the sender already knew the end timestamp. -/
def PendingRunTx.toConfirmedRunTx (tx : PendingRunTx) (receipt : Receipt) (blockNumber : Nat)
    (blockTimestamp : Nat) : Option RunTx := do
  let start ← toU64 tx.startTimestampMs
  let stop ← tx.endTimestampU64
  let blockMs ← mulU64 blockTimestamp 1000
  let latency ← tx.flashblockLatencyMs
  some {
    txHash := tx.txHash
    startTimestampMs := start
    endTimestampMs := some (stop.getD blockMs)
    blockNumber := some blockNumber
    gasUsed := some receipt.gasUsed
    kind := tx.kind
    error := getTxError receipt tx
    flashblockLatencyMs := latency
    flashblockIndex := tx.flashblockIndex }

/-- The snapshot's transactions that have a receipt, with the first receipt found. -/
def confirmedIn (cacheSnapshot : List PendingRunTx) (receipts : List Receipt) :
    List (PendingRunTx × Receipt) :=
  cacheSnapshot.filterMap fun tx =>
    (receipts.find? fun r => r.transactionHash = tx.txHash).map fun r => (tx, r)

/-- How the processing of one block ends. -/
inductive Processed
  | confirmed (hashes : List TxHash) (rows : List RunTx)
  | failed
  | panicked
  deriving DecidableEq, Repr

/-- Process the receipts of one block: the confirmed hashes and the rows committed
for them. Nothing is fetched for an empty snapshot, and nothing is inserted when no
transaction is confirmed. -/
def processBlockReceipts (chain : Chain) (cacheSnapshot : List PendingRunTx)
    (blockNumber : Nat) (answer : ReceiptAnswer) : Processed :=
  if cacheSnapshot = [] then .confirmed [] []
  else
    let confirmed := confirmedIn cacheSnapshot (answer.fetch chain blockNumber)
    match confirmed.mapM fun c =>
        c.1.toConfirmedRunTx c.2 blockNumber (chain.timestamp blockNumber) with
    | none => .panicked
    | some runTxs =>
      -- an empty list is not inserted, so it cannot fail
      if runTxs = [] ∨ answer.inserted then .confirmed (confirmed.map fun c => c.1.txHash) runTxs
      else .failed

/-- Where the receiver of a flush channel is: on its way to the actor, read by the
actor, or dropped. -/
inductive FlushReceiver
  | inTransit
  | attached
  | closed
  deriving DecidableEq, Repr

/-- The oneshot of the outstanding snapshot request. -/
inductive SnapshotReply
  | idle
  | pending
  | sent (snapshot : Snapshot)
  | dropped

/-- The loop over the blocks `blocksStart..newBlock`, about to process or just done
with block `bn`. `skipped` remembers whether an earlier block of the range failed. -/
structure BlockRange where
  newBlock : Nat
  blocksStart : Nat
  bn : Nat
  runId : Nat
  cacheSnapshot : List PendingRunTx
  skipped : Bool

/-- The suspension points of `flush_loop`. -/
inductive FlushPc
  | awaitContext
  | contextReply
  | poll
  | drainReply
  | rangeReply (newBlock : Nat)
  | block (range : BlockRange)
  | confirmed (range : BlockRange) (hashes : List TxHash)
  | refresh (range : BlockRange)
  | refreshReply (range : BlockRange)
  | done
  | panicked

/-- A flush loop with its cancel token and its channel to the actor. `used` lists
the snapshot each block was processed with, last use first. -/
structure FlushLoop where
  pc : FlushPc
  targetBlock : Nat
  staleBlocks : Nat
  lastPendingCount : Nat
  cancelled : Bool
  receiver : FlushReceiver
  queue : List FlushRequest
  reply : SnapshotReply
  used : List (Nat × List PendingRunTx)

/-- What moves a flush loop on: its own progress, the answer to
`eth_blockNumber`, or the outcome of processing a block. -/
inductive FlushInput
  | tick
  | blockNumber (answer : Option Nat)
  | receipts (answer : ReceiptAnswer)
  deriving DecidableEq, Repr

namespace FlushLoop

/-- A spawned flush loop. `last_pending_count` starts at `usize::MAX`. -/
def spawn (receiver : FlushReceiver) : FlushLoop where
  pc := .awaitContext
  targetBlock := 0
  staleBlocks := 0
  lastPendingCount := 2 ^ 64 - 1
  cancelled := false
  receiver := receiver
  queue := []
  reply := .idle
  used := []

/-- A loop that was never spawned. -/
def unspawned : FlushLoop := { spawn .closed with pc := .done }

/-- The receiver is dropped, and with it every queued request. -/
def close (l : FlushLoop) : FlushLoop :=
  { l with
    receiver := .closed
    queue := []
    reply := match l.reply with
      | .pending => .dropped
      | reply => reply }

/-- Send `GetSnapshot` and wait for the answer at `waiting`; a dropped receiver
ends the loop. -/
def sendGetSnapshot (l : FlushLoop) (waiting : FlushPc) : FlushLoop :=
  if l.receiver = .closed then { l with pc := .done }
  else { l with pc := waiting, queue := l.queue ++ [.getSnapshot], reply := .pending }

/-- Send a request whose delivery is not checked. -/
def sendUnchecked (l : FlushLoop) (request : FlushRequest) : FlushLoop :=
  if l.receiver = .closed then l else { l with queue := l.queue ++ [request] }

/-- Stale tracking after a range: while cancelled, count the blocks in which the
number of pending transactions does not change. -/
def trackStale (l : FlushLoop) (range : BlockRange) : FlushLoop :=
  if l.cancelled ∧ range.cacheSnapshot ≠ [] then
    let currentCount := range.cacheSnapshot.length
    -- all blocks of the range count, not only one
    if currentCount = l.lastPendingCount then
      { l with staleBlocks := l.staleBlocks + max (range.newBlock - range.blocksStart) 1 }
    else { l with staleBlocks := 0, lastPendingCount := currentCount }
  else l

/-- The end of a range: advance past its blocks, and give up when too many of them
were stale. -/
def endRange (l : FlushLoop) (range : BlockRange) : FlushLoop :=
  let tracked := { l with targetBlock := max l.targetBlock range.newBlock }.trackStale range
  if l.cancelled ∧ range.cacheSnapshot ≠ [] ∧ tracked.staleBlocks ≥ staleBlockLimit then
    { tracked with pc := .done }
  else { tracked with pc := .poll }

/-- Go on with the next block of the range, or end it. -/
def nextBlock (l : FlushLoop) (range : BlockRange) : FlushLoop :=
  if range.bn + 1 < range.newBlock then
    { l with pc := .block { range with bn := range.bn + 1 } }
  else l.endRange range

/-- Phase 1: the first context sets the target block. -/
def onContext (l : FlushLoop) : Option ActorContext → FlushLoop
  | some ctx => { l with pc := .poll, targetBlock := ctx.targetBlock }
  | none => { l with pc := .awaitContext }

/-- A new block number: request a snapshot for the new blocks, or, once cancelled,
to see whether the cache has drained. -/
def onBlockNumber (l : FlushLoop) (newBlock : Nat) : FlushLoop :=
  if l.targetBlock ≥ newBlock then
    if l.cancelled then l.sendGetSnapshot .drainReply else l
  else l.sendGetSnapshot (.rangeReply newBlock)

/-- The snapshot taken without new blocks: a drained cache ends the loop. -/
def onDrain (l : FlushLoop) (snapshot : Snapshot) : FlushLoop :=
  if snapshot.txs = [] then { l with pc := .done } else { l with pc := .poll }

/-- The snapshot for the new blocks: the context's target block starts the range. -/
def onRange (l : FlushLoop) (newBlock : Nat) (snapshot : Snapshot) : FlushLoop :=
  match snapshot.ctx with
  | none => { l with pc := .poll }
  | some ctx =>
    let l := { l with targetBlock := ctx.targetBlock }
    -- the actor's target may have moved since the block number was fetched
    if ctx.targetBlock ≥ newBlock then { l with pc := .poll }
    else if l.cancelled ∧ snapshot.txs = [] then { l with pc := .done }
    else
      { l with
        pc := .block {
          newBlock := newBlock
          blocksStart := ctx.targetBlock
          bn := ctx.targetBlock
          runId := ctx.runId
          cacheSnapshot := snapshot.txs
          skipped := false } }

/-- The refreshed snapshot: an empty one ends the range, and the loop once
cancelled. -/
def onRefresh (l : FlushLoop) (range : BlockRange) (snapshot : Snapshot) : FlushLoop :=
  match snapshot.ctx with
  | none => l.endRange range
  | some ctx =>
    let range := { range with cacheSnapshot := snapshot.txs }
    let l := { l with targetBlock := ctx.targetBlock }
    -- `break` leaves the range, not the loop
    if snapshot.txs = [] then
      if l.cancelled then { l with pc := .done } else l.endRange range
    else l.nextBlock range

/-- The outcome of processing a block. A failure is only logged. -/
def onProcessed (l : FlushLoop) (range : BlockRange) : Processed → FlushLoop × List RunRow
  | .confirmed hashes rows =>
    ({ l with pc := .confirmed range hashes }, rows.map fun tx => (range.runId, tx))
  -- the block is not retried, and nothing keeps the later ones from moving the target
  | .failed => (l.nextBlock { range with skipped := true }, [])
  | .panicked => ({ l with pc := .panicked }, [])

/-- Take the answer out of the oneshot, if it is there. -/
def takeReply (l : FlushLoop) (onSnapshot : FlushLoop → Snapshot → FlushLoop)
    (onDropped : FlushLoop → FlushLoop) : Option FlushLoop :=
  match l.reply with
  | .sent snapshot => some (onSnapshot { l with reply := .idle } snapshot)
  | .dropped => some (onDropped { l with reply := .idle })
  | _ => none

/-- The loop stops. -/
def finish (l : FlushLoop) : FlushLoop := { l with pc := .done }

/-- One step of the loop between two suspension points, with the rows it commits. -/
def step (chain : Chain) (l : FlushLoop) (input : FlushInput) :
    Option (FlushLoop × List RunRow) :=
  match l.pc, input with
  | .awaitContext, .tick => some (l.sendGetSnapshot .contextReply, [])
  | .contextReply, .tick =>
    (l.takeReply (fun l s => l.onContext s.ctx) finish).map fun l => (l, [])
  -- the node did not answer: poll again
  | .poll, .blockNumber none => some (l, [])
  | .poll, .blockNumber (some newBlock) => some (l.onBlockNumber newBlock, [])
  | .drainReply, .tick =>
    (l.takeReply onDrain fun l => { l with pc := .poll }).map fun l => (l, [])
  | .rangeReply newBlock, .tick =>
    (l.takeReply (fun l s => l.onRange newBlock s) finish).map fun l => (l, [])
  | .block range, .receipts answer =>
    let used := (range.bn, range.cacheSnapshot) :: l.used
    some ({ l with used := used }.onProcessed range
      (processBlockReceipts chain range.cacheSnapshot range.bn answer))
  | .confirmed range hashes, .tick =>
    some ({ l with pc := .refresh range }.sendUnchecked
      (.removeConfirmed hashes (range.bn + 1)), [])
  | .refresh range, .tick => some (l.sendGetSnapshot (.refreshReply range), [])
  | .refreshReply range, .tick =>
    (l.takeReply (fun l s => l.onRefresh range s) fun l => l.endRange range).map
      fun l => (l, [])
  | _, _ => none

end FlushLoop

end Contender
