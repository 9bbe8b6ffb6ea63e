import Contender.Data.AssocMap
import Contender.Data.Text
import Contender.Generator.FunctionDef
import Contender.Generator.RandSeed

/-!
# Templates

Arguments, addresses and values of a call may contain `{key}` placeholders. A
first pass looks the keys up, in the environment of the scenario and then in the
database of deployed contracts, and a second one replaces them. This file models
the two passes and the translation of a strict call to a transaction request.

`Foreign` holds what the generator takes from libraries: hashing, number and
address syntax, the ABI, and the Unicode tables of letters and numbers.
-/

namespace Contender

/-- A function of the ABI, by the display texts of its inputs: a type, and a name
where the signature gives one. -/
structure AbiFunction where
  inputs : List Text
  deriving DecidableEq, Repr

/-- The library functions the generator calls. -/
structure Foreign where
  keccak256 : Bytes → U256
  toLowercase : Text → Text
  isNumeric : Char → Bool
  parseAddress : Text → Option Address
  addressToString : Address → Text
  parseU256 : Text → Option U256
  parseUnits : Text → Text → Except Text U256
  parseFunction : Text → Except Text AbiFunction
  encodeInput : AbiFunction → List Text → Except Text Bytes
  fromHex : Text → Option Bytes
  buildSidecar : Bytes → Option BlobTransactionSidecar
  signFails : PrivateKeySigner → SignedAuthorization → Option Text
  g1Point : Nat → U256 × U256
  g2Point : Nat → U256 × U256 × U256 × U256

/-- `{key}`. -/
def placeholder (key : Text) : Text := '{' :: (key ++ ['}'])

/-- `SENDER_KEY`. -/
def senderKey : Text := "_sender".toList

/-- `SETCODE_KEY`. -/
def setcodeKey : Text := "_setCodeSender".toList

/-- `TestConfig::replace_placeholders`: the entries of the map are replaced one
after another, in the order of the map. -/
def replacePlaceholders (placeholderMap : AssocMap Text Text) (input : Text) : Text :=
  placeholderMap.entries.foldl (fun output entry =>
    output.replaceAll (placeholder entry.1) entry.2) input

/-- A text without an opening brace has no placeholders to replace. -/
theorem replacePlaceholders_of_notMem {input : Text} (h : '{' ∉ input)
    (placeholderMap : AssocMap Text Text) : replacePlaceholders placeholderMap input = input := by
  unfold replacePlaceholders
  induction placeholderMap.entries with
  | nil => rfl
  | cons entry entries ih =>
    rw [List.foldl_cons, placeholder, List.replaceAll_of_notMem h]
    exact ih

/-! ### Looking placeholders up -/

/-- `TestConfig::find_key`: the first opening and the first closing brace. A
closing brace before the opening one makes the slice panic. -/
def findKey (input : Text) : Except GeneratorError (Option (Text × Nat)) :=
  match input.findIdx? (· = '{'), input.findIdx? (· = '}') with
  | some start, some stop =>
    -- `input[start + 1..stop]`
    if start + 1 ≤ stop then .ok (some ((input.drop (start + 1)).take (stop - (start + 1)), stop))
    else .error .panic
  | _, _ => .ok none

/-- `TestConfig::num_placeholders`. -/
def numPlaceholders (input : Text) : Nat := input.count '{'

/-- A contract the database knows. -/
structure NamedTx where
  name : Text
  address : Option Address
  deriving DecidableEq, Repr

/-- `scenario_db_key`. -/
def scenarioDbKey (templateKey : Text) : Option Text → Text
  | some label => templateKey ++ '_' :: label
  | none => templateKey

/-- `Address::encode_hex`, without a leading `0x`. -/
def encodeHexAddress (address : Address) : Text := Nat.paddedHex 40 address.toNat

/-- Where placeholders are looked up: the named transactions of the chain, under
the label of the scenario. A query is answered or fails. The rows are those of
contracts, which have addresses; `SqliteDb` panics on a row without one, and there
is no outcome for that here. -/
structure PlaceholderSource where
  getNamedTx : Text → Except Text (Option NamedTx)
  scenarioLabel : Option Text

namespace PlaceholderSource

variable (source : PlaceholderSource)

/-- The value of a key that the map does not have yet. -/
def lookupKey (key : Text) (placeholderMap : AssocMap Text Text) :
    Except GeneratorError (AssocMap Text Text) :=
  if key = senderKey ∨ key = setcodeKey then .ok placeholderMap
  else if key ∈ placeholderMap then .ok placeholderMap
  else
    match source.getNamedTx (scenarioDbKey key source.scenarioLabel) with
    | .error message => .error (.db message)
    | .ok none => .error (.contractNotFoundInDB key)
    | .ok (some named) =>
      .ok (placeholderMap.insert key ((named.address.map encodeHexAddress).getD []))

/-- The loop of `find_placeholder_values`, with the number of rounds left and the
part of the argument that has not been scanned. -/
def scanPlaceholders (arg : Text) : Nat → Text → AssocMap Text Text →
    Except GeneratorError (AssocMap Text Text)
  | 0, _, placeholderMap => .ok placeholderMap
  | rounds + 1, input, placeholderMap => do
    match ← findKey input with
    | none => .error (.keyNotFound arg)
    | some (key, stop) =>
      let placeholderMap ← source.lookupKey key placeholderMap
      scanPlaceholders arg rounds (input.drop (stop + 1)) placeholderMap

def findPlaceholderValues (placeholderMap : AssocMap Text Text) (arg : Text) :
    Except GeneratorError (AssocMap Text Text) :=
  source.scanPlaceholders arg (numPlaceholders arg) arg placeholderMap

def findFncallPlaceholders (placeholderMap : AssocMap Text Text) (call : FunctionCallDefinition) :
    Except GeneratorError (AssocMap Text Text) :=
  call.templates.foldlM source.findPlaceholderValues placeholderMap

end PlaceholderSource

/-! ### From a strict call to a request -/

namespace Foreign

variable (foreign : Foreign)

/-- `parse_value`: a plain number is wei, otherwise a unit follows the number. -/
def parseValue (input : Text) : Except GeneratorError U256 :=
  let input := foreign.toLowercase (trim input)
  match foreign.parseU256 input with
  | some value => .ok value
  | none =>
    match input.findIdx? fun c => !foreign.isNumeric c && c != '.' with
    | none => .error (.invalidValueNumeric input)
    | some split =>
      -- `input` is trimmed twice in the source, where trimming again changes nothing
      match foreign.parseUnits (input.take split) (trim (input.drop split)) with
      | .ok value => .ok value
      | .error message => .error (.parseValueFailed message)

def encodeCalldata (args : List Text) (sig : Text) : Except GeneratorError Bytes :=
  if sig = [] then .ok []
  else
    match foreign.parseFunction sig with
    | .error message => .error (.parseFunctionSigFailed message)
    | .ok func =>
      if func.inputs.length ≠ args.length then
        .error (.functionSignatureNumArgsInvalid sig func.inputs.length args.length)
      else
        match foreign.encodeInput func args with
        | .ok input => .ok input
        | .error message => .error (.encodeFunctionArgsFailed message)

/-- The priority fee of a request, in `u128`. -/
def templateFee (placeholderMap : AssocMap Text Text) (raw : Text) : Except GeneratorError Nat :=
  let resolved := replacePlaceholders placeholderMap raw
  match foreign.parseValue resolved with
  | .error _ => .error (.parsePriorityFeeFailed resolved)
  | .ok parsed =>
    match toU128 parsed.toNat with
    | some fee => .ok fee
    | none => .error (.priorityFeeExceedsU128 resolved)

/-- The value of a request. A text that is no number is dropped. -/
def templateValue (placeholderMap : AssocMap Text Text) (value : Option Text) : Option U256 :=
  (value.map (replacePlaceholders placeholderMap)).bind foreign.parseU256

def templateFunctionCall (placeholderMap : AssocMap Text Text)
    (funcdef : FunctionCallDefinitionStrict) : Except GeneratorError TransactionRequest := do
  let args := funcdef.args.map (replacePlaceholders placeholderMap)
  let input ← foreign.encodeCalldata args funcdef.signature
  let toText := replacePlaceholders placeholderMap funcdef.toAddr
  let toAddress ← orError (.parseAddressFailed toText) (foreign.parseAddress toText)
  let fee ← funcdef.maxPriorityFeePerGas.mapM (foreign.templateFee placeholderMap)
  return {
    toKind := some (.call toAddress)
    input := some input
    fromAddr := some funcdef.fromAddr
    value := foreign.templateValue placeholderMap funcdef.value
    gas := funcdef.gasLimit
    maxPriorityFeePerGas := fee
    sidecar := funcdef.sidecar
    authorizationList := funcdef.authorization }

end Foreign

end Contender
