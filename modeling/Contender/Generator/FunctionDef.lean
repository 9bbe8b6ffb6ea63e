import Contender.Scenario.Requests

/-!
# Definitions of function calls

The user-facing definition of a call, as a scenario file gives it, and the strict
form that has a definite sender. Texts may contain `{placeholders}` that are
filled in later. `SpamRequest` is one spam step: a single call or a bundle.
-/

namespace Contender

/-- What to fuzz, and the bounds of the values. -/
structure FuzzParam where
  param : Option Text := none
  value : Option Bool := none
  maxPriorityFeePerGas : Option Bool := none
  min : Option U256 := none
  max : Option U256 := none
  deriving DecidableEq, Repr

/-- `toAddr` is `to`, `fromAddr` is `from`. -/
structure FunctionCallDefinition where
  toAddr : Text
  fromAddr : Option Text := none
  fromPool : Option Text := none
  signature : Option Text := none
  args : Option (List Text) := none
  value : Option Text := none
  fuzz : Option (List FuzzParam) := none
  kind : Option Text := none
  gasLimit : Option Nat := none
  blobData : Option Text := none
  authorizationAddress : Option Text := none
  forAllAccounts : Bool := false
  maxPriorityFeePerGas : Option Text := none
  deriving DecidableEq, Repr

/-- The texts of a call that are searched for placeholders. -/
def FunctionCallDefinition.templates (call : FunctionCallDefinition) : List Text :=
  call.args.getD [] ++ call.fromAddr.toList ++ [call.toAddr] ++ call.authorizationAddress.toList

/-- A call with a definite sender. -/
structure FunctionCallDefinitionStrict where
  toAddr : Text
  fromAddr : Address
  signature : Text
  args : List Text
  value : Option Text
  fuzz : List FuzzParam
  kind : Option Text
  gasLimit : Option Nat
  maxPriorityFeePerGas : Option Text
  sidecar : Option BlobTransactionSidecar
  authorization : Option (List SignedAuthorization)
  deriving DecidableEq, Repr

inductive SpamRequest
  | tx (call : FunctionCallDefinition)
  | bundle (txs : List FunctionCallDefinition)
  deriving DecidableEq, Repr

/-- The calls of a step, in order. -/
def SpamRequest.calls : SpamRequest → List FunctionCallDefinition
  | .tx call => [call]
  | .bundle txs => txs

/-- The errors of the generator, with those of the templater and of the helper
functions. `panic` stands for a failed assertion, index or overflow check. -/
inductive GeneratorError
  | abiParserFailed (message : Text)
  | addressNotFound (address : Text)
  | blobDataParseFailed (data : Text)
  | fromAddressParseFailed (address : Text)
  | fromPoolNotFound (pool : Text)
  | fuzzMissingParams
  | fuzzValueNeedsParam
  | fuzzConflictingParams
  | fuzzInvalid
  | forAllAccountsRequiresFromPool
  | invalidSender
  | nonceNotFound (address : Address)
  | sidecarBuildFailed
  | signerNotFound (pool : Text) (idx : Nat)
  | signatureArgsMismatch (sigInputs argsLen : Nat)
  | valueFuzzerNotInitialized
  | keyNotFound (arg : Text)
  | contractNotFoundInDB (key : Text)
  | db (message : Text)
  | parseAddressFailed (address : Text)
  | parsePriorityFeeFailed (input : Text)
  | priorityFeeExceedsU128 (input : Text)
  | parseFunctionSigFailed (message : Text)
  | parseValueFailed (message : Text)
  | invalidValueNumeric (input : Text)
  | functionSignatureNumArgsInvalid (sig : Text) (required given : Nat)
  | encodeFunctionArgsFailed (message : Text)
  | signer (message : Text)
  | panic
  deriving DecidableEq, Repr

/-- An `Option` whose `none` is an error. -/
def orError {α : Type} (e : GeneratorError) : Option α → Except GeneratorError α
  | some a => .ok a
  | none => .error e

@[simp] theorem orError_eq_ok {α : Type} {e : GeneratorError} {o : Option α} {a : α} :
    orError e o = .ok a ↔ o = some a := by
  cases o <;> simp [orError]

namespace FuzzParam

/-- `VALUE_KEY`. -/
def valueKey : Text := "__tx_value_contender__".toList

/-- `MAX_PRIORITY_FEE_KEY`. -/
def maxPriorityFeeKey : Text := "__tx_max_priority_fee_contender__".toList

/-- `parse_map_key`: exactly one of the three targets must be set. -/
def mapKey (fuzz : FuzzParam) : Except GeneratorError Text :=
  let setCount :=
    [fuzz.param.isSome, fuzz.value.isSome, fuzz.maxPriorityFeePerGas.isSome].count true
  if setCount = 0 then .error .fuzzMissingParams
  else if setCount > 1 then .error .fuzzConflictingParams
  else
    match fuzz.param with
    | some param => .ok param
    | none =>
      match fuzz.value, fuzz.maxPriorityFeePerGas with
      | some true, _ => .ok valueKey
      | some false, _ => .error .fuzzValueNeedsParam
      | none, some true => .ok maxPriorityFeeKey
      | none, some false => .error .fuzzValueNeedsParam
      | none, none => .error .fuzzInvalid

theorem mapKey_of_param {fuzz : FuzzParam} {key param : Text} (hparam : fuzz.param = some param)
    (h : fuzz.mapKey = .ok key) : key = param := by
  unfold mapKey at h
  cases hvalue : fuzz.value <;> cases hfee : fuzz.maxPriorityFeePerGas <;>
    simp_all

end FuzzParam

end Contender
