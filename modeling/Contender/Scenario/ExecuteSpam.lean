import Contender.Data.Chunks
import Contender.Data.Json
import Contender.Data.StableSort
import Contender.Scenario.PendingBatch
import Mathlib.Order.WithBot

/-!
# Dispatching a batch

`execute_spam` sorts the payloads of a tick by nonce and spawns the tasks that
send them: one task for each payload, or, with batching, one for each chunk of
single transactions. A task reports the outcome of every transaction it has sent
through `handle_tx_outcome`. The answers of the network are collected in
`Network`; a task is modelled by the list of its reports.
-/

namespace Contender

/-! ### Answers of the network -/

/-- How an HTTP call ends: with a transport error, or with a response whose body
is JSON or not. -/
abbrev HttpResult := Except Text (Except Text Json)

/-- How sending a transaction through the provider fails: with an error response
of the node, or otherwise. -/
inductive SendError
  | errorResp (message : Text)
  | other
  deriving DecidableEq, Repr

inductive SpamTrigger
  | nil
  | blockNumber (n : Nat)
  | tick (n : Nat)
  | blockHash (hash : BitVec 256)
  deriving DecidableEq, Repr

inductive BundleType
  | l1
  | revertProtected
  deriving DecidableEq, Repr

/-- A bundle as it is sent, with its target block. -/
inductive TypedBundle
  | l1 (txs : List TxHash) (blockNumber : Nat)
  | revertProtected (txs : List TxHash)
  deriving DecidableEq, Repr

/-- What the calls of the tasks yield. The first argument is the number of the
payload or of the chunk, the second one the number of the attempt. `postSync` has
no result when the run is cancelled first, and `sendBundle` none when it
panics. -/
structure Network where
  sendTxEnvelope : Nat → Nat → Except SendError Unit
  postSync : Nat → Option HttpResult
  postBatch : Nat → Nat → HttpResult
  blockByHash : BitVec 256 → Except Text (Option Nat)
  latestBlock : Nat → Except Text Nat
  sendBundle : Nat → TypedBundle → Option (Except Text Unit)

/-- The settings of the scenario that `execute_spam` reads. -/
structure DispatchConfig where
  rpcBatchSize : Nat
  sendRawTxSync : Bool
  bundleType : BundleType
  hasBundleClient : Bool
  deriving DecidableEq, Repr

/-- `retry_once`. -/
def retryOnce {ε α : Type} (op : Nat → Except ε α) : Except ε α :=
  match op 0 with
  | .ok value => .ok value
  | .error _ => op 1

/-- The text of an error in a JSON-RPC response. -/
def responseError (response : Json) : Option Text :=
  ((response.get "error".toList).bind (Json.get "message".toList)).bind Json.asStr

/-! ### Reports -/

/-- What a task reports: a call of `handle_tx_outcome`, the end of sending a
bundle, or a callback for a transaction of a bundle. -/
inductive SpamReport
  | txOutcome (txHash : TxHash) (req : NamedTxRequest) (error : Option Text)
  | bundleSent (error : Option Text)
  | bundleTx (txHash : TxHash) (req : NamedTxRequest)
  deriving DecidableEq, Repr

/-- The outcome in sync mode: the response is read once, and not retried. -/
def syncError : HttpResult → Option Text
  | .ok (.ok body) => responseError body
  | .ok (.error e) => some ("failed to parse sendRawTransactionSync response: ".toList ++ e)
  | .error e => some ("sendRawTransactionSync HTTP error: ".toList ++ e)

/-- The outcome in single mode. -/
def sendError : Except SendError Unit → Option Text
  | .ok _ => none
  | .error (.errorResp message) => some message
  | .error .other => some "send_tx_envelope failed".toList

/-- The block a bundle is built on. -/
def bundleBlock (net : Network) (trigger : SpamTrigger) (i : Nat) : Option Nat :=
  match trigger with
  | .blockNumber n => some n
  | .blockHash hash => (net.blockByHash hash).toOption.bind id
  | .nil | .tick _ => (net.latestBlock i).toOption

def typedBundle (bundleType : BundleType) (txHashes : List TxHash) (block : Nat) :
    Option TypedBundle :=
  match bundleType with
  | .l1 => (addU64 block 1).map (.l1 txHashes)
  | .revertProtected => some (.revertProtected txHashes)

/-- The task of a bundle. The transactions of a bundle that could not be sent are
reported as well. -/
def sendBundle (cfg : DispatchConfig) (net : Network) (trigger : SpamTrigger) (i : Nat)
    (txHashes : List TxHash) (reqs : List NamedTxRequest) : Option (List SpamReport) := do
  let block ← bundleBlock net trigger i
  let bundle ← typedBundle cfg.bundleType txHashes block
  if cfg.hasBundleClient then
    let result ← net.sendBundle i bundle
    let error := match result with
      | .ok _ => none
      | .error message => some message
    return .bundleSent error :: (txHashes.zip reqs).map fun (txHash, req) => .bundleTx txHash req
  else none

/-- The task of the `i`-th payload; without a result it has panicked. -/
def sendPayload (cfg : DispatchConfig) (net : Network) (trigger : SpamTrigger) (i : Nat) :
    ExecutionPayload → Option (List SpamReport)
  | .signedTx txHash req =>
    if cfg.sendRawTxSync then
      -- a cancelled call is not recorded
      some ((net.postSync i).toList.map fun res => .txOutcome txHash req (syncError res))
    else some [.txOutcome txHash req (sendError (retryOnce (net.sendTxEnvelope i)))]
  | .signedTxBundle txHashes reqs => sendBundle cfg net trigger i txHashes reqs

/-- The reports for a chunk once the response has been parsed: the responses are
aligned with the transactions by position. -/
def alignResponses (chunk : List (TxHash × NamedTxRequest)) (responses : List Json) :
    List SpamReport :=
  chunk.zipIdx.map fun ((txHash, req), i) =>
    .txOutcome txHash req (responses[i]?.bind responseError)

/-- The responses to a chunk: the call is tried twice, and the body of its response
has to be an array. -/
def batchResponses (post : Nat → HttpResult) : Option (List Json) :=
  match retryOnce post with
  | .ok (.ok (.arr responses)) => some responses
  | _ => none

/-- The task of a chunk; without responses it returns and reports nothing. -/
def sendChunk (post : Nat → HttpResult) (chunk : List (TxHash × NamedTxRequest)) :
    List SpamReport :=
  match batchResponses post with
  | some responses => alignResponses chunk responses
  | none => []

/-! ### Dispatch -/

/-- The nonce a payload is sorted by; an empty bundle has no first request. -/
def ExecutionPayload.sortNonce : ExecutionPayload → Option (WithBot Nat)
  | .signedTx _ req => some (req.tx.nonce.elim ⊥ WithBot.some)
  | .signedTxBundle _ reqs => reqs.head?.map fun req => req.tx.nonce.elim ⊥ WithBot.some

/-- The payload sort; without a result it has panicked. -/
def sortPayloads (payloads : List ExecutionPayload) : Option (List ExecutionPayload) :=
  payloads.sortByKey? ExecutionPayload.sortNonce

def ExecutionPayload.signed? : ExecutionPayload → Option (TxHash × NamedTxRequest)
  | .signedTx txHash req => some (txHash, req)
  | .signedTxBundle _ _ => none

/-- Whether the batch is sent in chunks: batching is on, sync mode is off, and
there are no bundles. -/
def shouldBatchRpc (cfg : DispatchConfig) (payloads : List ExecutionPayload) : Bool :=
  0 < cfg.rpcBatchSize ∧ ¬cfg.sendRawTxSync ∧ payloads.all fun payload => payload.signed?.isSome

/-- The tasks of a batch, each by its reports. -/
def spamTasks (cfg : DispatchConfig) (net : Network) (trigger : SpamTrigger)
    (payloads : List ExecutionPayload) : List (Option (List SpamReport)) :=
  if shouldBatchRpc cfg payloads then
    (payloads.chunksOf cfg.rpcBatchSize).zipIdx.map fun (chunk, k) =>
      some (sendChunk (net.postBatch k) (chunk.filterMap ExecutionPayload.signed?))
  else payloads.zipIdx.map fun (payload, i) => sendPayload cfg net trigger i payload

def executeSpam (cfg : DispatchConfig) (net : Network) (trigger : SpamTrigger)
    (payloads : List ExecutionPayload) : Option (List (Option (List SpamReport))) :=
  (sortPayloads payloads).map (spamTasks cfg net trigger)

end Contender
