import Contender.Generator.SignerStore
import Contender.Generator.Templater

/-!
# The spam plan

`load_txs(PlanType::Spam)` turns the spam steps of a scenario into execution
requests. It rounds the number of requests up to a multiple of the number of
steps, looks up the placeholders and draws the fuzzed values of all steps, and
then generates the requests step after step. The fuzzed values of all steps are
kept in one map, by the name of the parameter.
-/

namespace Contender

/-- The values drawn for each fuzzed parameter. -/
abbrev FuzzMap := AssocMap Text (List U256)

/-- What the generator reads of a scenario. -/
structure Generator where
  foreign : Foreign
  env : AssocMap Text Text
  setupSteps : List FunctionCallDefinition := []
  spamSteps : List SpamRequest
  fuzzSeeder : RandSeed
  agents : AssocMap Text SignerStore
  nonces : AssocMap Address Nat
  setcodeSigner : PrivateKeySigner
  chainId : Nat
  source : PlaceholderSource

namespace Generator

variable (g : Generator)

/-! ### Fuzzed values -/

/-- The first value the base seed yields. -/
def baseSeed : Option U256 :=
  (g.fuzzSeeder.seedValues g.foreign.keccak256 1 none none).bind List.head?

/-- The seed of a fuzzed parameter: base seed and name, hashed together. -/
def paramSeed (baseSeed : U256) (key : Text) : RandSeed :=
  .seedFromBytes (beBytes (g.foreign.keccak256 (beBytes baseSeed ++ utf8 key)))

/-- One round of `create_fuzz_map`. -/
def insertFuzz (baseSeed : U256) (numValues : Nat) (map : FuzzMap) (fuzz : FuzzParam) :
    Except GeneratorError FuzzMap := do
  let key ← fuzz.mapKey
  let values ← orError .panic
    ((g.paramSeed baseSeed key).seedValues g.foreign.keccak256 numValues fuzz.min fuzz.max)
  return map.insert key values

def createFuzzMap (numValues : Nat) (fuzzArgs : List FuzzParam) :
    Except GeneratorError FuzzMap := do
  let baseSeed ← orError .panic g.baseSeed
  fuzzArgs.foldlM (g.insertFuzz baseSeed numValues) ∅

/-- `HashMap::extend`: the new entries win. -/
def extend (canonical new : FuzzMap) : FuzzMap :=
  new.entries.foldl (fun map entry => map.insert entry.1 entry.2) canonical

/-- The display text of an input, as type and name. -/
def namedInput (input : Text) : Option (Text × Text) :=
  match Char.splitAsciiWhitespace input with
  | type :: name :: _ => some (type, name)
  | _ => none

/-- How a fuzzed value is written: an address in hexadecimal, everything else in
decimal. -/
def fuzzText (type : Text) (value : U256) : Text :=
  if type = "address".toList then '0' :: 'x' :: Nat.paddedHex 40 value.toNat
  else Nat.decimal value.toNat

/-- The argument of one input: a fuzzed value when the map has the input's name. -/
def fuzzedArg (fuzzMap : FuzzMap) (fuzzIdx : Nat) (input arg : Text) :
    Except GeneratorError Text :=
  match namedInput input with
  | none => .ok arg
  | some (type, name) =>
    match fuzzMap.lookup name with
    | none => .ok arg
    | some values => (orError .panic values[fuzzIdx]?).map (fuzzText type)

def getFuzzedArgs (tx : FunctionCallDefinition) (fuzzMap : FuzzMap) (fuzzIdx : Nat) :
    Except GeneratorError (List Text) :=
  match tx.signature with
  | none => .ok []
  | some signature =>
    match g.foreign.parseFunction signature with
    | .error message => .error (.abiParserFailed message)
    | .ok func =>
      let args := tx.args.getD []
      if func.inputs.length < args.length then
        .error (.signatureArgsMismatch func.inputs.length args.length)
      else (func.inputs.zip args).mapM fun (input, arg) => fuzzedArg fuzzMap fuzzIdx input arg

/-- A fuzzed field of the transaction itself: the value under `key`, when one of
the fuzz entries asks for it. -/
def getFuzzedField (wants : FuzzParam → Bool) (key : Text) (tx : FunctionCallDefinition)
    (fuzzMap : FuzzMap) (fuzzIdx : Nat) : Except GeneratorError (Option Text) :=
  if (tx.fuzz.getD []).any wants then do
    let values ← orError .valueFuzzerNotInitialized (fuzzMap.lookup key)
    let value ← orError .panic values[fuzzIdx]?
    return some (Nat.decimal value.toNat)
  else .ok none

def getFuzzedTxValue : FunctionCallDefinition → FuzzMap → Nat →
    Except GeneratorError (Option Text) :=
  getFuzzedField (fun fuzz => fuzz.value = some true) FuzzParam.valueKey

def getFuzzedMaxPriorityFeePerGas : FunctionCallDefinition → FuzzMap → Nat →
    Except GeneratorError (Option Text) :=
  getFuzzedField (fun fuzz => fuzz.maxPriorityFeePerGas = some true) FuzzParam.maxPriorityFeeKey

/-! ### The strict call -/

/-- The sender of a call: the `idx`-th account of its pool, or its own address. -/
def fromAddress (funcdef : FunctionCallDefinition) (idx : Nat) : Except GeneratorError Address :=
  match funcdef.fromPool, funcdef.fromAddr with
  | some pool, _ => do
    let agent ← orError (.fromPoolNotFound pool) (g.agents.lookup pool)
    -- `idx % 0` panics
    if agent.signers.length = 0 then
      .error .panic
    else
      let signer ← orError (.signerNotFound pool idx)
        agent.signers[idx % agent.signers.length]?
      return signer.address
  | none, some address =>
    orError (.fromAddressParseFailed address)
      (g.foreign.parseAddress (replacePlaceholders g.env address))
  | none, none => .error .invalidSender

/-- `special_replace`. -/
def specialReplace (sender : Address) (arg : Text) : Text :=
  if placeholder senderKey <:+: arg then
    arg.replaceAll (placeholder senderKey) (g.foreign.addressToString sender)
  else if placeholder setcodeKey <:+: arg then
    arg.replaceAll (placeholder setcodeKey)
      (g.foreign.addressToString g.setcodeSigner.address)
  else arg

/-- The authorization a call carries, signed by the setCode signer for its nonce
plus `idx`. -/
def signedAuth (funcdef : FunctionCallDefinition) (idx : Nat) (authAddress : Text) :
    Except GeneratorError SignedAuthorization := do
  -- the placeholders of the authorization are looked up in a map of their own
  let placeholderMap ← g.source.findFncallPlaceholders ∅ funcdef
  let address ← orError (.addressNotFound authAddress)
    (g.foreign.parseAddress (replacePlaceholders placeholderMap authAddress))
  let nonce ← orError (.nonceNotFound g.setcodeSigner.address)
    (g.nonces.lookup g.setcodeSigner.address)
  let nonce ← orError .panic (addU64 nonce idx)
  let auth := { chainId := g.chainId, address, nonce }
  match g.foreign.signFails g.setcodeSigner auth with
  | some message => .error (.signer message)
  | none => return auth

/-- The value text of the strict call: a number in wei, or a placeholder as it
is. -/
def strictValue (input : Text) : Except GeneratorError Text :=
  match g.foreign.parseValue input with
  | .ok value => .ok (Nat.decimal value.toNat)
  | .error e =>
    -- a placeholder is left for the templater
    if '{' ∈ input then .ok input
    else if input.all g.foreign.isNumeric then .ok input
    else .error e

/-- `sidecar_data`. -/
def sidecarData (funcdef : FunctionCallDefinition) :
    Except GeneratorError (Option BlobTransactionSidecar) :=
  match funcdef.blobData with
  | none => .ok none
  | some data => do
    let hex := if "0x".toList <+: data then data else hexEncode (utf8 data)
    let bytes ← orError (.blobDataParseFailed data) (g.foreign.fromHex hex)
    let sidecar ← orError .sidecarBuildFailed (g.foreign.buildSidecar bytes)
    return some sidecar

def makeStrictCall (funcdef : FunctionCallDefinition) (idx : Nat) :
    Except GeneratorError FunctionCallDefinitionStrict := do
  let sender ← g.fromAddress funcdef idx
  let args := (funcdef.args.getD []).map (g.specialReplace sender)
  let toAddr := g.specialReplace sender funcdef.toAddr
  let auth ← funcdef.authorizationAddress.mapM (g.signedAuth funcdef idx)
  let value ← funcdef.value.mapM g.strictValue
  let sidecar ← g.sidecarData funcdef
  return {
    toAddr
    fromAddr := sender
    signature := funcdef.signature.getD []
    args
    value
    fuzz := funcdef.fuzz.getD []
    kind := funcdef.kind
    gasLimit := funcdef.gasLimit
    maxPriorityFeePerGas := funcdef.maxPriorityFeePerGas
    sidecar
    authorization := auth.map fun a => [a] }

/-! ### Generating the requests -/

/-- The kind whose sixth argument is replaced by a generated proof. -/
def groth16Kind : Text := "groth16-verifyProof".toList

/-- The proof argument: eight coordinates of generated curve points. -/
def groth16Proof (i : Nat) : Text :=
  let a := g.foreign.g1Point i
  let b := g.foreign.g2Point i
  let c := g.foreign.g1Point (i + 1000)
  let values := [a.1, a.2, b.2.1, b.1, b.2.2.2, b.2.2.1, c.1, c.2]
  let texts := values.map fun v => '0' :: 'x' :: Nat.paddedHex 64 v.toNat
  '[' :: (List.intercalate ", ".toList texts ++ [']'])

/-- The arguments of a call of that kind: the sixth is overwritten, and must be
there. -/
def withProof (i : Nat) (req : FunctionCallDefinition) (args : List Text) :
    Except GeneratorError (List Text) :=
  if req.kind = some groth16Kind then
    if 5 < args.length then .ok (args.set 5 (g.groth16Proof i)) else .error .panic
  else .ok args

/-- The call with its arguments, value and priority fee filled in. -/
def fillFuzzed (fuzzMap : FuzzMap) (i : Nat) (req : FunctionCallDefinition) :
    Except GeneratorError FunctionCallDefinition := do
  let args ← g.getFuzzedArgs req fuzzMap i
  let value ← getFuzzedTxValue req fuzzMap i
  let fee ← getFuzzedMaxPriorityFeePerGas req fuzzMap i
  -- the proof overwrites whatever was fuzzed
  let args ← g.withProof i req args
  return { req with
    args := some args
    value := value.or req.value
    maxPriorityFeePerGas := fee.or req.maxPriorityFeePerGas }

/-- `prepare_tx`: the `i`-th request of a call. -/
def prepareTx (placeholderMap : AssocMap Text Text) (fuzzMap : FuzzMap) (i : Nat)
    (req : FunctionCallDefinition) : Except GeneratorError NamedTxRequest := do
  let filled ← g.fillFuzzed fuzzMap i req
  let strict ← g.makeStrictCall filled i
  let tx ← g.foreign.templateFunctionCall placeholderMap strict
  return { tx, kind := req.kind }

/-- The `i`-th request of a step. -/
def prepareStep (placeholderMap : AssocMap Text Text) (fuzzMap : FuzzMap) (i : Nat) :
    SpamRequest → Except GeneratorError ExecutionRequest
  | .tx req => return .tx (← g.prepareTx placeholderMap fuzzMap i req)
  | .bundle txs => return .bundle (← txs.mapM (g.prepareTx placeholderMap fuzzMap i))

/-- Placeholders and fuzzed values of the calls of all steps, collected one after
another. -/
def collectCall (numTxs : Nat) (maps : AssocMap Text Text × FuzzMap)
    (call : FunctionCallDefinition) : Except GeneratorError (AssocMap Text Text × FuzzMap) := do
  let placeholderMap ← g.source.findFncallPlaceholders maps.1 call
  -- `num_txs` values for each entry, though a step uses only its share
  let fuzzMap ← g.createFuzzMap numTxs (call.fuzz.getD [])
  return (placeholderMap, extend maps.2 fuzzMap)

def spamCalls : List FunctionCallDefinition := g.spamSteps.flatMap SpamRequest.calls

def collectMaps (numTxs : Nat) : Except GeneratorError (AssocMap Text Text × FuzzMap) :=
  g.spamCalls.foldlM (g.collectCall numTxs) (g.env, ∅)

/-- A generated request, with the step and the round it comes from. -/
structure Generated where
  step : Nat
  round : Nat
  request : ExecutionRequest
  deriving DecidableEq, Repr

/-- The order of generation: all rounds of the first step, then all rounds of the
second, and so on. -/
def spamPlan (numSteps perStep : Nat) : List (Nat × Nat) :=
  (List.range numSteps).flatMap fun step => (List.range perStep).map fun i => (step, i)

/-- `num_txs` rounded up to a multiple of the number of steps, in `u64`. -/
def roundUp (numTxs numSteps : Nat) : Option Nat :=
  if numSteps = 0 then none
  else if numTxs % numSteps = 0 then some numTxs
  else addU64 numTxs (numSteps - numTxs % numSteps)

/-- `load_txs(PlanType::Spam)`, with a setup callback that starts no task. -/
def loadSpam (numTxs : Nat) : Except GeneratorError (List Generated) := do
  let numSteps := g.spamSteps.length
  let numTxs ← orError .panic (roundUp numTxs numSteps)
  let (placeholderMap, fuzzMap) ← g.collectMaps numTxs
  (spamPlan numSteps (numTxs / numSteps)).mapM fun (step, i) => do
    let spamStep ← orError .panic g.spamSteps[step]?
    let request ← g.prepareStep placeholderMap fuzzMap i spamStep
    return { step, round := i, request }

/-- The requests `load_txs` returns. -/
def loadTxs (numTxs : Nat) : Except GeneratorError (List ExecutionRequest) :=
  (g.loadSpam numTxs).map (List.map Generated.request)

end Generator

end Contender
