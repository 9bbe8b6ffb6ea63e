import Contender.Primitives

/-!
# Transaction requests

The requests the generator produces and the scenario prepares. A request carries
the optional fields of the RPC type; `complete_tx_request` fills the ones that
depend on the transaction type once nonce and gas are known.
-/

namespace Contender

/-- A signing key with the address it controls. -/
structure PrivateKeySigner where
  key : BitVec 256
  address : Address
  deriving DecidableEq, Repr

inductive TxKind
  | create
  | call (address : Address)
  deriving DecidableEq, Repr

inductive TxType
  | legacy
  | eip2930
  | eip1559
  | eip4844
  | eip7702
  deriving DecidableEq, Repr

/-- A blob sidecar, by the versioned hashes of its blobs. -/
structure BlobTransactionSidecar where
  versionedHashes : List TxHash
  deriving DecidableEq, Repr

/-- An EIP-7702 authorization signed by the setCode signer. -/
structure SignedAuthorization where
  chainId : Nat
  address : Address
  nonce : Nat
  deriving DecidableEq, Repr

/-- `fromAddr` is `from`, `toKind` is `to`, and `input` the call data. -/
structure TransactionRequest where
  fromAddr : Option Address := none
  toKind : Option TxKind := none
  gasPrice : Option Nat := none
  maxFeePerGas : Option Nat := none
  maxPriorityFeePerGas : Option Nat := none
  maxFeePerBlobGas : Option Nat := none
  gas : Option Nat := none
  value : Option U256 := none
  input : Option Bytes := none
  nonce : Option Nat := none
  chainId : Option Nat := none
  blobVersionedHashes : Option (List TxHash) := none
  sidecar : Option BlobTransactionSidecar := none
  authorizationList : Option (List SignedAuthorization) := none
  deriving DecidableEq, Repr

structure NamedTxRequest where
  name : Option Text := none
  kind : Option Text := none
  tx : TransactionRequest
  deriving DecidableEq, Repr

inductive ExecutionRequest
  | tx (req : NamedTxRequest)
  | bundle (reqs : List NamedTxRequest)
  deriving DecidableEq, Repr

/-- The single transactions of an execution request, in order. -/
def ExecutionRequest.txs : ExecutionRequest → List NamedTxRequest
  | .tx req => [req]
  | .bundle reqs => reqs

namespace TransactionRequest

/-- The fee fields of an EIP-1559 transaction. The fee cap is raised to the
priority fee when that is the higher one. -/
def withEip1559Fees (tx : TransactionRequest) (gasPrice priorityFee chainId : Nat) :
    TransactionRequest :=
  { tx with
    maxFeePerGas := some (max gasPrice priorityFee)
    maxPriorityFeePerGas := some priorityFee
    chainId := some chainId }

/-- `complete_tx_request`. A type without a case of its own is completed as a
legacy transaction. -/
def complete (tx : TransactionRequest) (txType : TxType)
    (gasPrice priorityFee gasLimit chainId blobGasPrice : Nat) : TransactionRequest :=
  let priced :=
    match txType with
    | .legacy | .eip2930 => { tx with gasPrice := some gasPrice }
    | .eip1559 | .eip7702 => tx.withEip1559Fees gasPrice priorityFee chainId
    | .eip4844 =>
      { tx with maxFeePerBlobGas := some blobGasPrice }.withEip1559Fees gasPrice priorityFee chainId
  { priced with gas := some gasLimit }

variable (tx : TransactionRequest) (txType : TxType)
  (gasPrice priorityFee gasLimit chainId blobGasPrice : Nat)

@[simp] theorem complete_nonce :
    (tx.complete txType gasPrice priorityFee gasLimit chainId blobGasPrice).nonce = tx.nonce := by
  cases txType <;> rfl

@[simp] theorem complete_fromAddr :
    (tx.complete txType gasPrice priorityFee gasLimit chainId blobGasPrice).fromAddr =
      tx.fromAddr := by
  cases txType <;> rfl

end TransactionRequest

end Contender
