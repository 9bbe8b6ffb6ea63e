import Contender.Data.Places
import Contender.Engine.ValidPayload
import Contender.Semantics.Effect

/-!
# Driving a node through the engine API

`AuthProvider` calls the engine API of a node and waits for each call to be found VALID. A node
answers a call by what has been called before, and by its own blocks. The calls are recorded, each
once: a wait repeats the same call, for as many rounds as it takes.

A wait that has not ended within the given number of rounds ends the run here, and so does a failed
`expect`, which is a panic.
-/

namespace Contender.Engine

open Stream'

abbrev B256 := BitVec 256

structure BlockTx where
  txHash : B256
  encoded2718 : Bytes
  blobVersionedHashes : Option (List B256)
  deriving DecidableEq, Repr

structure Withdrawal where
  index : ℕ
  validatorIndex : ℕ
  address : Address
  amount : ℕ
  deriving DecidableEq, Repr

structure Header where
  hash : B256
  parentHash : B256
  beneficiary : Address
  stateRoot : B256
  receiptsRoot : B256
  logsBloom : Bytes
  mixHash : Option B256
  number : ℕ
  gasLimit : ℕ
  gasUsed : ℕ
  timestamp : ℕ
  extraData : Bytes
  baseFeePerGas : Option ℕ
  blobGasUsed : Option ℕ
  excessBlobGas : Option ℕ
  parentBeaconBlockRoot : Option B256
  requestsHash : Option B256
  deriving DecidableEq, Repr

structure Block where
  header : Header
  transactions : List BlockTx
  withdrawals : Option (List Withdrawal)
  deriving DecidableEq, Repr

inductive EngineApiMessageVersion
  | v1 | v2 | v3 | v4 | v5 | v6
  deriving DecidableEq, Repr

/-! ### Payloads -/

structure ExecutionPayloadV1 where
  blockHash : B256
  parentHash : B256
  feeRecipient : Address
  stateRoot : B256
  receiptsRoot : B256
  logsBloom : Bytes
  prevRandao : B256
  blockNumber : ℕ
  gasLimit : ℕ
  gasUsed : ℕ
  timestamp : ℕ
  extraData : Bytes
  baseFeePerGas : ℕ
  transactions : List Bytes
  deriving DecidableEq, Repr

structure ExecutionPayloadV2 where
  payloadInner : ExecutionPayloadV1
  withdrawals : List Withdrawal
  deriving DecidableEq, Repr

structure ExecutionPayloadV3 where
  payloadInner : ExecutionPayloadV2
  blobGasUsed : ℕ
  excessBlobGas : ℕ
  deriving DecidableEq, Repr

structure ExecutionPayloadV4 where
  payloadInner : ExecutionPayloadV3
  blockAccessList : Bytes
  slotNumber : ℕ
  deriving DecidableEq, Repr

inductive ExecutionPayload
  | v1 (payload : ExecutionPayloadV1)
  | v2 (payload : ExecutionPayloadV2)
  | v3 (payload : ExecutionPayloadV3)
  | v4 (payload : ExecutionPayloadV4)
  deriving DecidableEq, Repr

/-- The fields that all payloads have. -/
def ExecutionPayload.toV1 : ExecutionPayload → ExecutionPayloadV1
  | .v1 payload => payload
  | .v2 payload => payload.payloadInner
  | .v3 payload => payload.payloadInner.payloadInner
  | .v4 payload => payload.payloadInner.payloadInner.payloadInner

structure ForkchoiceState where
  headBlockHash : B256
  safeBlockHash : B256
  finalizedBlockHash : B256
  deriving DecidableEq, Repr

structure OpPayloadParams where
  transactions : List Bytes
  gasLimit : ℕ
  eip1559Params : Bytes
  deriving DecidableEq, Repr

/-- The attributes of a payload to build. Those for an OP node have `op` and let it use the
transaction pool. -/
structure PayloadAttributes where
  timestamp : ℕ
  prevRandao : B256 := 0
  suggestedFeeRecipient : Address := 0
  withdrawals : Option (List Withdrawal) := some []
  parentBeaconBlockRoot : Option B256 := some 0
  op : Option OpPayloadParams
  deriving DecidableEq, Repr

/-- A call of the engine API. The requests of `engine_newPayloadV4` are given by their hash. -/
inductive EngineCall
  | forkchoiceUpdated (version : EngineApiMessageVersion) (state : ForkchoiceState)
      (attributes : Option PayloadAttributes)
  | getPayload (version : EngineApiMessageVersion) (payloadId : BitVec 64)
  | newPayloadV1 (payload : ExecutionPayloadV1)
  | newPayloadV2 (payload : ExecutionPayloadV1) (withdrawals : Option (List Withdrawal))
  | newPayloadV3 (payload : ExecutionPayloadV3) (versionedHashes : List B256)
      (parentBeaconBlockRoot : B256)
  | newPayloadV4 (payload : ExecutionPayloadV4) (versionedHashes : List B256)
      (parentBeaconBlockRoot : B256) (executionRequests : B256)
  deriving DecidableEq, Repr

/-- How a node answers, given the calls so far: its own last. -/
structure Node where
  blockNumber : List EngineCall → Answer ℕ
  latestBlock : List EngineCall → Answer (Option Block)
  block : List EngineCall → ℕ → Answer (Option Block)
  forkchoiceUpdated : List EngineCall → Seq (Answer ForkchoiceUpdated)
  newPayload : List EngineCall → Seq (Answer PayloadStatus)
  getPayloadV1 : List EngineCall → Answer ExecutionPayloadV1
  getPayloadV2 : List EngineCall → Answer (ExecutionPayloadV1 ⊕ ExecutionPayloadV2)
  getPayloadV3 : List EngineCall → Answer ExecutionPayloadV3
  getPayloadV4 : List EngineCall → Answer ExecutionPayloadV3

/-- The connection to a node, with the encoded deposit transaction that an OP block begins with, and
the versioned hash of a blob commitment. -/
structure AuthProvider where
  isOp : Bool
  genesisExtraData : Bytes
  genesisGasLimit : ℕ
  messageVersion : EngineApiMessageVersion
  opBlockInfoTx : Bytes
  kzgToVersionedHash : Bytes → B256

inductive AuthProviderError
  | transportError (error : RpcError)
  | missingBlock (number : ℕ)
  | invalidBlockRange (start head : ℕ)
  | invalidBlockStart (start : ℕ)
  | invalidPayload (version : EngineApiMessageVersion) (text : String)
  | extraDataTooShort
  | panicked (text : String)
  | waiting
  deriving DecidableEq, Repr

/-- The calls made so far, and the gas counted so far by a replay. -/
structure EngineState where
  calls : List EngineCall
  gasUsed : ℕ
  deriving DecidableEq, Repr

abbrev EngineM := EStateM AuthProviderError EngineState

variable {α σ : Type}

/-- `?` on an answer. -/
def EngineM.ofAnswer : Answer α → EngineM α
  | .ok a => pure a
  | .error e => throw (.transportError e)

/-- `expect`. -/
def EngineM.expect (text : String) : Option α → EngineM α
  | some a => pure a
  | none => throw (.panicked text)

def EngineM.ofWait : Option (WaitOutcome σ) → EngineM σ
  | some (.ok status) => pure status
  | some (.err e) => throw (.transportError e)
  | some (.panicked text _) => throw (.panicked text)
  | none => throw .waiting

/-- The calls with this one. -/
def EngineM.record (call : EngineCall) : EngineM (List EngineCall) := do
  modify fun s => { s with calls := s.calls ++ [call] }
  return (← get).calls

namespace AuthProvider

open EngineM

variable (p : AuthProvider) (node : Node) (rounds : ℕ)

def callForkchoiceUpdated (state : ForkchoiceState) (attributes : Option PayloadAttributes) :
    EngineM ForkchoiceUpdated :=
  match p.messageVersion with
  | .v6 => throw (.panicked "V6 payloads not supported yet")
  | .v5 => throw (.panicked "V5 payloads not supported yet")
  | .v4 | .v3 => do
    let calls ← record (.forkchoiceUpdated .v3 state attributes)
    ofWait (forkChoiceUpdatedV3Wait rounds (node.forkchoiceUpdated calls))
  | .v2 => do
    let calls ← record (.forkchoiceUpdated .v2 state attributes)
    ofWait (forkChoiceUpdatedV2Wait rounds (node.forkchoiceUpdated calls))
  | .v1 => do
    let calls ← record (.forkchoiceUpdated .v1 state attributes)
    ofWait (forkChoiceUpdatedV1Wait rounds (node.forkchoiceUpdated calls))

/-- The parameters of an OP block, from the genesis block. What follows the first byte of its extra
data must be eight bytes. -/
def opParams : EngineM (Option OpPayloadParams) :=
  if p.isOp then
    if p.genesisExtraData.length < 9 then throw .extraDataTooShort
    else if (p.genesisExtraData.drop 1).length ≠ 8 then
      throw (.panicked "source slice length does not match")
    else return some {
      transactions := [p.opBlockInfoTx]
      gasLimit := p.genesisGasLimit
      eip1559Params := p.genesisExtraData.drop 1 }
  else return none

def callFcuDefault (currentHead newHead : B256) (timestamp : Option ℕ) :
    EngineM ForkchoiceUpdated := do
  let op ← p.opParams
  p.callForkchoiceUpdated node rounds ⟨newHead, currentHead, currentHead⟩
    (timestamp.map fun timestamp => { timestamp, op })

def callNewPayload (payload : ExecutionPayload) (parentBeaconBlockRoot : Option B256)
    (versionedHashes : List B256) (executionRequests : Option B256) :
    EngineM EngineApiMessageVersion :=
  match payload with
  | .v4 payload => do
    let some root := parentBeaconBlockRoot
      | throw (.invalidPayload p.messageVersion
          "parent_beacon_block_root is required for V4 payloads")
    let some requests := executionRequests
      | throw (.invalidPayload p.messageVersion "execution_requests is required for V4 payloads")
    let calls ← record (.newPayloadV4 payload versionedHashes root requests)
    let _ ← ofWait (newPayloadV4Wait rounds (node.newPayload calls))
    return .v4
  | .v3 payload => do
    let some root := parentBeaconBlockRoot
      | throw (.invalidPayload p.messageVersion
          "parent_beacon_block_root is required for V3 payloads")
    let calls ← record (.newPayloadV3 payload versionedHashes root)
    let _ ← ofWait (newPayloadV3Wait rounds (node.newPayload calls))
    return .v3
  | .v2 payload => do
    let calls ← record (.newPayloadV2 payload.payloadInner (some payload.withdrawals))
    let _ ← ofWait (newPayloadV2Wait rounds (node.newPayload calls))
    return .v2
  | .v1 payload => do
    let calls ← record (.newPayloadV1 payload)
    let _ ← ofWait (newPayloadV1Wait rounds (node.newPayload calls))
    return .v1

end AuthProvider

/-- The payload of a block: with the blob fields where the header has both of them. -/
def Block.toPayload (blk : Block) : ExecutionPayload :=
  let header := blk.header
  let payloadV1 : ExecutionPayloadV1 := {
    blockHash := header.hash
    parentHash := header.parentHash
    feeRecipient := header.beneficiary
    stateRoot := header.stateRoot
    receiptsRoot := header.receiptsRoot
    logsBloom := header.logsBloom
    prevRandao := header.mixHash.getD 0
    blockNumber := header.number
    gasLimit := header.gasLimit
    gasUsed := header.gasUsed
    timestamp := header.timestamp
    extraData := header.extraData
    baseFeePerGas := header.baseFeePerGas.getD 0
    transactions := blk.transactions.map BlockTx.encoded2718 }
  let payloadV2 : ExecutionPayloadV2 := ⟨payloadV1, blk.withdrawals.getD []⟩
  match header.blobGasUsed, header.excessBlobGas with
  | some blobGasUsed, some excessBlobGas => .v3 ⟨payloadV2, blobGasUsed, excessBlobGas⟩
  | _, _ => .v2 payloadV2

def blockToPayload (node : Node) (blockNum : ℕ) : EngineM ExecutionPayload := do
  let block ← EngineM.ofAnswer (node.block (← get).calls blockNum)
  let blk ← EngineM.expect "block" block
  return blk.toPayload

/-- The blob hashes of the transactions: their own, or those of the commitments in a sidecar. -/
def AuthProvider.deriveBlobVersionedHashes (p : AuthProvider) (txs : List BlockTx)
    (sidecars : Option (B256 → Option (List Bytes))) : List B256 :=
  txs.flatMap fun tx =>
    match tx.blobVersionedHashes with
    | some hashes => hashes
    | none =>
      match sidecars.bind (· tx.txHash) with
      | some commitments => commitments.map p.kzgToVersionedHash
      | none => []

/-! ### What the calls leave behind -/

/-- The state after one more call. -/
def EngineState.after (s : EngineState) (call : EngineCall) : EngineState :=
  { s with calls := s.calls ++ [call] }

/-- The version of `engine_forkchoiceUpdated` for a message version. -/
def EngineApiMessageVersion.forkchoice : EngineApiMessageVersion → EngineApiMessageVersion
  | .v1 => .v1
  | .v2 => .v2
  | .v3 | .v4 | .v5 | .v6 => .v3

/-- The call of `engine_newPayload` for a payload, if all it needs is given. -/
def newPayloadCall (payload : ExecutionPayload) (parentBeaconBlockRoot : Option B256)
    (versionedHashes : List B256) (executionRequests : Option B256) : Option EngineCall :=
  match payload with
  | .v4 payload =>
    match parentBeaconBlockRoot, executionRequests with
    | some root, some requests => some (.newPayloadV4 payload versionedHashes root requests)
    | _, _ => none
  | .v3 payload =>
    parentBeaconBlockRoot.map fun root => .newPayloadV3 payload versionedHashes root
  | .v2 payload => some (.newPayloadV2 payload.payloadInner (some payload.withdrawals))
  | .v1 payload => some (.newPayloadV1 payload)

section Calls

open AuthProvider EngineM
open EStateM (Triple)

variable {s : EngineState} {p : AuthProvider} {node : Node} {rounds : ℕ}

theorem triple_record {call : EngineCall} {E : EngineState → Prop} :
    Triple (· = s) (record call) (· = s.after call) E := by
  have hmodify : Triple (· = s)
      (modify fun s => { s with calls := s.calls ++ [call] } : EngineM PUnit)
      (· = s.after call) E :=
    Triple.update fun t ht => by rw [ht]; rfl
  exact hmodify.bind fun _ => (Triple.get fun _ h => h).bind fun _ => Triple.pure (fun _ h => h) _

theorem triple_ofWait {wait : Option (WaitOutcome σ)} {P : EngineState → Prop} :
    Triple P (ofWait wait) P P := by
  unfold ofWait
  split
  · exact Triple.pure (fun _ h => h) _
  all_goals exact Triple.throw (fun _ h => h) _

theorem triple_callForkchoiceUpdated {state : ForkchoiceState}
    {attributes : Option PayloadAttributes} :
    Triple (· = s) (p.callForkchoiceUpdated node rounds state attributes)
      (· = s.after (.forkchoiceUpdated p.messageVersion.forkchoice state attributes))
      (fun t => t = s ∨
        t = s.after (.forkchoiceUpdated p.messageVersion.forkchoice state attributes)) := by
  unfold callForkchoiceUpdated
  cases p.messageVersion with
  | v6 | v5 => exact Triple.throw (fun _ h => .inl h) _
  | v4 | v3 | v2 | v1 =>
    exact triple_record.bind fun _ => triple_ofWait.mono (fun _ h => h) fun _ h => .inr h

/-- The parameters of an OP block change nothing. -/
theorem triple_opParams {P : EngineState → Prop} : Triple P p.opParams P P := by
  unfold opParams
  split_ifs
  · exact Triple.throw (fun _ h => h) _
  · exact Triple.throw (fun _ h => h) _
  · exact Triple.pure (fun _ h => h) _
  · exact Triple.pure (fun _ h => h) _

theorem triple_callNewPayload {payload : ExecutionPayload} {root : Option B256}
    {hashes : List B256} {requests : Option B256} :
    Triple (· = s) (p.callNewPayload node rounds payload root hashes requests)
      (fun t => ∃ call ∈ newPayloadCall payload root hashes requests, t = s.after call)
      (fun t => t = s ∨
        ∃ call ∈ newPayloadCall payload root hashes requests, t = s.after call) := by
  have hwait {call : EngineCall} (hcall : call ∈ newPayloadCall payload root hashes requests)
      {wait : List EngineCall → Option (WaitOutcome PayloadStatus)}
      {version : EngineApiMessageVersion} :
      Triple (· = s) (do
          let calls ← record call
          let _ ← ofWait (wait calls)
          return version)
        (fun t => ∃ call ∈ newPayloadCall payload root hashes requests, t = s.after call)
        (fun t => t = s ∨
          ∃ call ∈ newPayloadCall payload root hashes requests, t = s.after call) :=
    triple_record.bind fun _ => (triple_ofWait.mono (fun _ h => h) fun _ h =>
      .inr ⟨call, hcall, h⟩).bind fun _ => Triple.pure (fun _ h => ⟨call, hcall, h⟩) _
  cases payload with
  | v4 payload =>
    cases root with
    | none => exact Triple.throw (fun _ h => .inl h) _
    | some root =>
      cases requests with
      | none => exact Triple.throw (fun _ h => .inl h) _
      | some requests => exact hwait rfl
  | v3 payload =>
    cases root with
    | none => exact Triple.throw (fun _ h => .inl h) _
    | some root => exact hwait rfl
  | v2 payload => exact hwait rfl
  | v1 payload => exact hwait rfl

end Calls

end Contender.Engine
