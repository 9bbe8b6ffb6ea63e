import Contender.Data.AssocMap
import Contender.Scenario.Requests
import Contender.Semantics.Effect

/-!
# Preparing a batch

`prepare_spam` turns the requests of one tick into signed payloads. Each request
takes the sender's local nonce and advances it; the gas limit comes from a cache
that is keyed by the call data and filled by `eth_estimateGas`. The preparation
stops at the first error and keeps the nonces it has advanced by then.

The node, the wallet and the hash function are outside the program: `Env` holds
them, with one node view for each RPC call, so that two calls may be answered
differently.
-/

namespace Contender

/-- What the node answers to one RPC call. -/
structure NodeView where
  getGasPrice : Except Text Nat
  getBlobBaseFee : Except Text Nat
  getCodeAt : Address → Except Text Bytes
  estimateGas : TransactionRequest → Except Text Nat

/-- The code the scenario calls: hashing, the Unicode case mapping, signing, and
the node's answer to the `i`-th RPC call. A signed envelope is named by its
hash. -/
structure Env where
  keccak256 : Bytes → BitVec 256
  toLowercase : Text → Text
  build : TransactionRequest → PrivateKeySigner → Except Text TxHash
  node : Nat → NodeView

/-- The state of a scenario that preparing and collecting a batch uses.
`rpcCalls` counts the RPC calls made so far. -/
structure TestScenario where
  nonces : AssocMap Address Nat
  gasLimits : AssocMap (BitVec 256) Nat
  signerMap : AssocMap Address PrivateKeySigner
  setcodeSigner : PrivateKeySigner
  txType : TxType
  chainId : Nat
  gasPrice : Option Nat
  gasPriceAdder : Int
  lastFetchedGasPrice : Option Nat
  lastFetchedBlobGasPrice : Option Nat
  hasBundleClient : Bool
  rpcCalls : Nat

/-- The errors of preparing and collecting a batch. `panic` stands for a failed
overflow check or a failed `unwrap`. -/
inductive ScenarioError
  | txMissingFromAddress (tx : TransactionRequest)
  | nonceMissing (address : Address)
  | gasLimitMissingFromMap (tx : TransactionRequest)
  | signerMissingFromMap (address : Address)
  | builderUrlRequired
  | rpc (message : Text)
  | build (message : Text)
  | batchFailed (message : Text)
  | panic
  deriving DecidableEq, Repr

/-- A method of the scenario: a failed call keeps the writes made before. -/
abbrev ScenarioM := EStateM ScenarioError TestScenario

namespace ScenarioM

/-- `ok_or(e)?`. -/
def okOr {α : Type} (e : ScenarioError) : Option α → ScenarioM α
  | some a => pure a
  | none => throw e

/-- `?` on a result of foreign code. -/
def ofExcept {α : Type} (e : Text → ScenarioError) : Except Text α → ScenarioM α
  | .ok a => pure a
  | .error message => throw (e message)

@[simp] theorem okOr_eq_ok {α : Type} {e : ScenarioError} {o : Option α} {a : α}
    {s t : TestScenario} : okOr e o s = .ok a t ↔ o = some a ∧ s = t := by
  cases o <;> simp [okOr]

@[simp] theorem ofExcept_eq_ok {α : Type} {e : Text → ScenarioError} {r : Except Text α} {a : α}
    {s t : TestScenario} : ofExcept e r s = .ok a t ↔ r = .ok a ∧ s = t := by
  cases r <;> simp [ofExcept]

@[simp] theorem okOr_eq_error {α : Type} {e e' : ScenarioError} {o : Option α}
    {s t : TestScenario} : okOr e o s = .error e' t ↔ o = none ∧ e = e' ∧ s = t := by
  cases o <;> simp [okOr]

end ScenarioM

open ScenarioM

/-- `TxKey::key`: requests with the same call data share a key. -/
def TransactionRequest.key (env : Env) (tx : TransactionRequest) : BitVec 256 :=
  env.keccak256 (tx.input.getD [])

/-- An RPC call: the next view of the node answers it. -/
def rpcCall {α : Type} (env : Env) (ask : NodeView → Except Text α) : ScenarioM (Except Text α) :=
  do
    let scenario ← get
    modify fun scenario => { scenario with rpcCalls := scenario.rpcCalls + 1 }
    return ask (env.node scenario.rpcCalls)

/-- The request `update_gas_map` asks an estimate for. -/
def TransactionRequest.forEstimate (tx : TransactionRequest) (blobGasPrice : Nat) :
    TransactionRequest :=
  let tx :=
    match tx.sidecar with
    | some sidecar =>
      { tx with
        maxFeePerBlobGas := some blobGasPrice
        blobVersionedHashes := some sidecar.versionedHashes }
    | none => tx
  match tx.maxPriorityFeePerGas with
  | some priorityFee =>
    -- the node checks the fee cap against the priority fee while it simulates
    if tx.maxFeePerGas.getD 0 < priorityFee then
      { tx with maxFeePerGas := some priorityFee }
    else tx
  | none => tx

namespace TestScenario

/-- The gas limit `update_gas_map` stores for a request that is not cached. -/
def estimateGasLimit (env : Env) (tx : TransactionRequest) : ScenarioM Nat :=
  match tx.gas with
  | some gas => pure gas
  | none => do
    match tx.toKind with
    | some (.call address) =>
      if tx.input.getD [] ≠ [] then
        -- an empty code is only warned about; a failed call is an error
        let code ← rpcCall env (·.getCodeAt address)
        let _ ← ofExcept .rpc code
    | _ => pure ()
    let estimate ← rpcCall env (·.estimateGas tx)
    ofExcept .rpc estimate

def updateGasMap (env : Env) (tx : TransactionRequest) (blobGasPrice : Nat) :
    ScenarioM (BitVec 256) := do
  let key := tx.key env
  let scenario ← get
  match scenario.gasLimits.lookup key with
  -- a cached limit is used even when the request sets one of its own
  | some _ => return key
  | none =>
    let gasLimit ← estimateGasLimit env (tx.forEstimate blobGasPrice)
    modify fun scenario => { scenario with gasLimits := scenario.gasLimits.insert key gasLimit }
    return key

/-- The nonce part of `prepare_tx_request`: both nonces are read before either is
written, and the setCode signer's is written last. -/
def takeNonce (tx : TransactionRequest) : ScenarioM (Address × Nat) := do
  let sender ← okOr (.txMissingFromAddress tx) tx.fromAddr
  let scenario ← get
  let nonce ← okOr (.nonceMissing sender) (scenario.nonces.lookup sender)
  let setcodeSigner := scenario.setcodeSigner.address
  let setcodeNonce ← okOr (.nonceMissing sender) (scenario.nonces.lookup setcodeSigner)
  let next ← okOr .panic (addU64 nonce 1)
  modify fun scenario => { scenario with nonces := scenario.nonces.insert sender next }
  if tx.authorizationList.isSome then
    let setcodeNext ← okOr .panic (addU64 setcodeNonce 1)
    modify fun scenario =>
      { scenario with nonces := scenario.nonces.insert setcodeSigner setcodeNext }
  return (sender, nonce)

def prepareTxRequest (env : Env) (gasPrice blobGasPrice : Nat) (tx : TransactionRequest) :
    ScenarioM (TransactionRequest × PrivateKeySigner) := do
  let (sender, nonce) ← takeNonce tx
  let key ← updateGasMap env tx blobGasPrice
  let scenario ← get
  let gasLimit ← okOr (.gasLimitMissingFromMap tx) (scenario.gasLimits.lookup key)
  let signer ← okOr (.signerMissingFromMap sender) (scenario.signerMap.lookup sender)
  let priorityFee := tx.maxPriorityFeePerGas.getD (gasPrice / 10)
  return ({ tx with nonce := some nonce }.complete scenario.txType gasPrice priorityFee gasLimit
    scenario.chainId blobGasPrice, signer)

end TestScenario

/-- A signed transaction with its completed request, or a signed bundle with the
requests it was built from. -/
inductive ExecutionPayload
  | signedTx (txHash : TxHash) (req : NamedTxRequest)
  | signedTxBundle (txHashes : List TxHash) (reqs : List NamedTxRequest)
  deriving DecidableEq, Repr

/-- The requests of a payload. -/
def ExecutionPayload.reqs : ExecutionPayload → List NamedTxRequest
  | .signedTx _ req => [req]
  | .signedTxBundle _ reqs => reqs

namespace TestScenario

/-- `fetch_with_cache` for a value that has just been asked for: a failed call
falls back to the last value fetched. -/
def fetchWithCache (cached : Option Nat) : Except Text Nat → Except Text Nat
  | .ok value => .ok value
  | .error message => (cached.map Except.ok).getD (.error message)

def fetchBlobGasPrice (env : Env) : ScenarioM Nat := do
  let scenario ← get
  if scenario.txType ≠ .eip4844 then
    return 0
  let answer ← rpcCall env (·.getBlobBaseFee)
  match fetchWithCache scenario.lastFetchedBlobGasPrice answer with
  | .ok price =>
    modify fun scenario => { scenario with lastFetchedBlobGasPrice := some price }
    return price
  -- without an answer and without a cached price, the price is 0
  | .error _ => return 0

/-- `adjusted_gas_price`, in `u128`. -/
def adjustedGasPrice (adder : Int) (price : Nat) : Option Nat :=
  if adder < 0 then
    -- the subtraction is checked
    if adder.natAbs ≤ price then some (price - adder.natAbs) else none
  else toU128 (price + adder.toNat)

/-- The gas price and the blob gas price of the batch. An override is taken as it
is, and then the blob gas price is not adjusted either. -/
def batchGasPrices (env : Env) : ScenarioM (Nat × Nat) := do
  let blobGasPrice ← fetchBlobGasPrice env
  let scenario ← get
  match scenario.gasPrice with
  | some overridePrice => return (← okOr .panic (toU128 overridePrice), blobGasPrice)
  | none =>
    let answer ← rpcCall env (·.getGasPrice)
    let gasPrice ← ofExcept .rpc (fetchWithCache scenario.lastFetchedGasPrice answer)
    modify fun scenario => { scenario with lastFetchedGasPrice := some gasPrice }
    let adjusted ← okOr .panic (adjustedGasPrice scenario.gasPriceAdder gasPrice)
    let adjustedBlob ← okOr .panic (adjustedGasPrice scenario.gasPriceAdder blobGasPrice)
    return (adjusted, adjustedBlob)

/-- Prepare and sign one request. -/
def prepareSigned (env : Env) (gasPrice blobGasPrice : Nat) (req : NamedTxRequest) :
    ScenarioM (TxHash × NamedTxRequest) := do
  let (tx, signer) ← prepareTxRequest env gasPrice blobGasPrice req.tx
  let txHash ← ofExcept .build (env.build tx signer)
  return (txHash, { req with tx := tx })

/-- One round of the loop of `prepare_spam`. A bundle payload keeps the requests
as they were generated; a single payload keeps the completed one. -/
def preparePayload (env : Env) (gasPrice blobGasPrice : Nat) :
    ExecutionRequest → ScenarioM ExecutionPayload
  | .bundle reqs => do
    if (← get).hasBundleClient = false then
      throw .builderUrlRequired
    let signed ← reqs.mapM (prepareSigned env gasPrice blobGasPrice)
    return .signedTxBundle (signed.map Prod.fst) reqs
  | .tx req => do
    let (txHash, req) ← prepareSigned env gasPrice blobGasPrice req
    return .signedTx txHash req

def prepareSpam (env : Env) (txRequests : List ExecutionRequest) :
    ScenarioM (List ExecutionPayload) := do
  let (gasPrice, blobGasPrice) ← batchGasPrices env
  txRequests.mapM (preparePayload env gasPrice blobGasPrice)

end TestScenario

end Contender
