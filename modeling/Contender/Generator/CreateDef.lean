import Contender.Generator.LoadTxs

/-!
# Contract creations

The definition of a contract creation, its strict form with a definite sender, and
the request it becomes. A constructor with a signature has its arguments encoded and
appended to the bytecode; older definitions carry them in the bytecode itself, with
placeholders.
-/

namespace Contender

structure CompiledContract where
  bytecode : Text
  name : Text
  deriving DecidableEq, Repr

/-- The contract's name as a placeholder. -/
def CompiledContract.templateName (contract : CompiledContract) : Text :=
  placeholder contract.name

/-- `fromAddr` is `from`. -/
structure CreateDefinition where
  contract : CompiledContract
  signature : Option Text := none
  args : Option (List Text) := none
  fromAddr : Option Text := none
  fromPool : Option Text := none
  deriving DecidableEq, Repr

/-- The texts of a creation that are searched for placeholders. -/
def CreateDefinition.templates (createDef : CreateDefinition) : List Text :=
  createDef.args.getD [] ++ createDef.fromAddr.toList ++ [createDef.contract.bytecode]

/-- A creation with a definite sender. -/
structure CreateDefinitionStrict where
  bytecode : Text
  name : Text
  fromAddr : Address
  signature : Option Text
  args : List Text
  deriving DecidableEq, Repr

def PlaceholderSource.findCreatePlaceholders (source : PlaceholderSource)
    (placeholderMap : AssocMap Text Text) (createDef : CreateDefinition) :
    Except GeneratorError (AssocMap Text Text) :=
  createDef.templates.foldlM source.findPlaceholderValues placeholderMap

/-- The sender of a creation is found like the sender of a call. -/
def CreateDefinition.asCall (createDef : CreateDefinition) : FunctionCallDefinition where
  toAddr := []
  fromAddr := createDef.fromAddr
  fromPool := createDef.fromPool

namespace Generator

variable (g : Generator)

/-- The sender as it is written into bytecode: without `0x`, and padded to a word. -/
def senderWord (sender : Address) : Text := List.replicate 24 '0' ++ encodeHexAddress sender

def makeStrictCreate (createDef : CreateDefinition) (idx : Nat) :
    Except GeneratorError CreateDefinitionStrict := do
  let sender ← g.fromAddress createDef.asCall idx
  return {
    name := createDef.contract.name
    bytecode :=
      createDef.contract.bytecode.replaceAll (placeholder senderKey) (senderWord sender)
    fromAddr := sender
    signature := createDef.signature
    args := createDef.args.getD [] }

end Generator

/-- A constructor may be given by its inputs alone. -/
def constructorSignature (sig : Text) : Text :=
  if ['('] <+: sig then "constructor".toList ++ sig else sig

namespace Foreign

variable (foreign : Foreign)

/-- An argument of a constructor. Only an argument that is the placeholder of the sender
and nothing else is replaced by the sender. -/
def constructorArg (placeholderMap : AssocMap Text Text) (sender : Address) (arg : Text) : Text :=
  if arg = placeholder senderKey then foreign.addressToString sender
  else replacePlaceholders placeholderMap arg

/-- The arguments of a constructor, encoded without a selector. -/
def constructorData (placeholderMap : AssocMap Text Text) (createDef : CreateDefinitionStrict)
    (sig : Text) : Except GeneratorError Bytes := do
  let args := createDef.args.map (foreign.constructorArg placeholderMap createDef.fromAddr)
  let calldata ← foreign.encodeCalldata args (constructorSignature sig)
  return calldata.drop 4

def templateContractDeploy (placeholderMap : AssocMap Text Text)
    (createDef : CreateDefinitionStrict) : Except GeneratorError TransactionRequest := do
  let bytecode := replacePlaceholders placeholderMap createDef.bytecode
  let calldata ←
    match createDef.signature with
    | some sig => foreign.constructorData placeholderMap createDef sig
    | none => .ok []
  -- `expect("invalid bytecode hex")`
  let input ← orError .panic (foreign.fromHex (bytecode ++ hexEncode calldata))
  return {
    fromAddr := some createDef.fromAddr
    toKind := some .create
    input := some input }

end Foreign

end Contender
