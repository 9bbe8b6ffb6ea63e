import Contender.Cli.Erc20
import Contender.Cli.FunctionCalls

/-!
# The builtin scenarios

Each builtin scenario makes a configuration from its own arguments, as a scenario file would give
it. The bytecodes of the contracts are parameters, and so is the clock of UniV2. A scenario that
has no configuration is one whose arithmetic panics.
-/

namespace Contender

/-- The bytecodes that the crate includes. -/
structure BuiltinCode where
  counter : Text
  smartWallet : Text
  spamMe : Text
  spamMe6 : Text
  testTokenHex : Text
  uniV2 : UniV2Bytecode

namespace BuiltinCode

variable (code : BuiltinCode)

/-- `COUNTER`. -/
def counterContract : CompiledContract := ⟨code.counter, "Counter".toList⟩

/-- `SMART_WALLET`. -/
def smartWalletContract : CompiledContract := ⟨code.smartWallet, "SmartWallet".toList⟩

/-- `SPAM_ME`. -/
def spamMeContract : CompiledContract := ⟨code.spamMe, "SpamMe5".toList⟩

/-- `SPAM_ME_6`. -/
def spamMe6Contract : CompiledContract := ⟨code.spamMe6, "SpamMe6".toList⟩

end BuiltinCode

/-- The create step for a contract, which most scenarios write out. -/
def CreateDefinition.deployFromAdmin (contract : CompiledContract) : CreateDefinition :=
  { contract, fromPool := some "admin".toList }

/-- `FunctionCallDefinition::new`. -/
def FunctionCallDefinition.new (toAddr : Text) : FunctionCallDefinition := { toAddr }

/-! ### Storage -/

structure StorageStressCliArgs where
  numSlots : ℕ := 500
  numIterations : ℕ := 1

structure StorageStressArgs where
  numSlots : ℕ
  numIterations : ℕ

def StorageStressCliArgs.toArgs (args : StorageStressCliArgs) : StorageStressArgs :=
  ⟨args.numSlots, args.numIterations⟩

def StorageStressArgs.toTestConfig (code : BuiltinCode) (args : StorageStressArgs) :
    TestConfig where
  create := some [.deployFromAdmin code.spamMeContract]
  spam := some [.tx (FunctionCallDefinition.new code.spamMeContract.templateName
    |>.withSignature "fillStorageSlots(uint256 numSlots, uint256 iteration)".toList
    |>.withArgs [args.numSlots.decimal, args.numIterations.decimal])]

/-! ### Transfers -/

structure TransferStressCliArgs where
  amount : U256 := BitVec.ofNat 256 (10 ^ 15)
  recipient : Option Address := none

structure TransferStressArgs where
  amount : U256
  recipient : Text

def TransferStressCliArgs.toArgs (addressToString : Address → Text)
    (args : TransferStressCliArgs) : TransferStressArgs where
  amount := args.amount
  recipient := (args.recipient.map addressToString).getD "{_sender}".toList

def TransferStressArgs.toTestConfig (args : TransferStressArgs) : TestConfig where
  spam := some [.tx ((FunctionCallDefinition.new args.recipient).withValue args.amount)]

/-! ### Opcodes and precompiles -/

/-- The opcodes that can be called, in the order of `EthereumOpcode::iter`. -/
inductive EthereumOpcode
  | stop | add | mul | sub | div | sdiv | mod | smod | addmod | mulmod | exp | signextend
  | lt | gt | slt | sgt | eq | iszero | and | or | xor | not | byte | shl | shr | sar
  | sha3 | keccak256 | address | balance | origin | caller | callvalue | calldataload
  | calldatasize | calldatacopy | codesize | codecopy | gasprice | extcodesize | extcodecopy
  | returndatasize | returndatacopy | extcodehash | blockhash | coinbase | timestamp | number
  | prevrandao | gaslimit | chainid | selfbalance | basefee | pop | mload | mstore | mstore8
  | sload | sstore | msize | gas | log0 | log1 | log2 | log3 | log4 | create | call | callcode
  | return | delegatecall | create2 | staticcall | revert | invalid | selfdestruct
  deriving DecidableEq, Repr

inductive EthereumPrecompile
  | hashSha256 | hashRipemd160 | identity | modExp | ecAdd | ecMul | ecPairing | blake2f
  deriving DecidableEq, Repr

namespace EthereumOpcode

/-- `EthereumOpcode::iter`. -/
def iter : List EthereumOpcode :=
  [stop, add, mul, sub, div, sdiv, mod, smod, addmod, mulmod, exp, signextend, lt, gt, slt, sgt,
    eq, iszero, and, or, xor, not, byte, shl, shr, sar, sha3, keccak256, address, balance, origin,
    caller, callvalue, calldataload, calldatasize, calldatacopy, codesize, codecopy, gasprice,
    extcodesize, extcodecopy, returndatasize, returndatacopy, extcodehash, blockhash, coinbase,
    timestamp, number, prevrandao, gaslimit, chainid, selfbalance, basefee, pop, mload, mstore,
    mstore8, sload, sstore, msize, gas, log0, log1, log2, log3, log4, create, call, callcode,
    EthereumOpcode.return, delegatecall, create2, staticcall, revert, invalid, selfdestruct]

/-- The name of the variant in lower case. -/
def name : EthereumOpcode → Text
  | stop => "stop".toList
  | add => "add".toList
  | mul => "mul".toList
  | sub => "sub".toList
  | div => "div".toList
  | sdiv => "sdiv".toList
  | mod => "mod".toList
  | smod => "smod".toList
  | addmod => "addmod".toList
  | mulmod => "mulmod".toList
  | exp => "exp".toList
  | signextend => "signextend".toList
  | lt => "lt".toList
  | gt => "gt".toList
  | slt => "slt".toList
  | sgt => "sgt".toList
  | eq => "eq".toList
  | iszero => "iszero".toList
  | and => "and".toList
  | or => "or".toList
  | xor => "xor".toList
  | not => "not".toList
  | byte => "byte".toList
  | shl => "shl".toList
  | shr => "shr".toList
  | sar => "sar".toList
  | sha3 => "sha3".toList
  | keccak256 => "keccak256".toList
  | address => "address".toList
  | balance => "balance".toList
  | origin => "origin".toList
  | caller => "caller".toList
  | callvalue => "callvalue".toList
  | calldataload => "calldataload".toList
  | calldatasize => "calldatasize".toList
  | calldatacopy => "calldatacopy".toList
  | codesize => "codesize".toList
  | codecopy => "codecopy".toList
  | gasprice => "gasprice".toList
  | extcodesize => "extcodesize".toList
  | extcodecopy => "extcodecopy".toList
  | returndatasize => "returndatasize".toList
  | returndatacopy => "returndatacopy".toList
  | extcodehash => "extcodehash".toList
  | blockhash => "blockhash".toList
  | coinbase => "coinbase".toList
  | timestamp => "timestamp".toList
  | number => "number".toList
  | prevrandao => "prevrandao".toList
  | gaslimit => "gaslimit".toList
  | chainid => "chainid".toList
  | selfbalance => "selfbalance".toList
  | basefee => "basefee".toList
  | pop => "pop".toList
  | mload => "mload".toList
  | mstore => "mstore".toList
  | mstore8 => "mstore8".toList
  | sload => "sload".toList
  | sstore => "sstore".toList
  | msize => "msize".toList
  | gas => "gas".toList
  | log0 => "log0".toList
  | log1 => "log1".toList
  | log2 => "log2".toList
  | log3 => "log3".toList
  | log4 => "log4".toList
  | create => "create".toList
  | call => "call".toList
  | callcode => "callcode".toList
  | EthereumOpcode.return => "return".toList
  | delegatecall => "delegatecall".toList
  | create2 => "create2".toList
  | staticcall => "staticcall".toList
  | revert => "revert".toList
  | invalid => "invalid".toList
  | selfdestruct => "selfdestruct".toList

end EthereumOpcode

namespace EthereumPrecompile

/-- `EthereumPrecompile::iter`. -/
def iter : List EthereumPrecompile :=
  [hashSha256, hashRipemd160, identity, modExp, ecAdd, ecMul, ecPairing, blake2f]

def method : EthereumPrecompile → Text
  | hashSha256 => "hash_sha256".toList
  | hashRipemd160 => "hash_ripemd160".toList
  | identity => "identity".toList
  | modExp => "modExp".toList
  | ecAdd => "ecAdd".toList
  | ecMul => "ecMul".toList
  | ecPairing => "ecPairing".toList
  | blake2f => "blake2f".toList

end EthereumPrecompile

structure EthFunctionsArgs where
  opcodes : List EthereumOpcode
  precompiles : List EthereumPrecompile
  numIterations : ℕ

/-- The call of the test contract that runs an opcode. -/
def consumeGasSignature : Text := "consumeGas(string memory method, uint256 iterations)".toList

/-- The call of the test contract that runs a precompile. -/
def callPrecompileSignature : Text :=
  "callPrecompile(string memory method, uint256 iterations)".toList

section EthFunctions

variable (code : BuiltinCode) (numIterations : ℕ)

def opcodeCall (opcode : EthereumOpcode) : FunctionCallDefinition :=
  FunctionCallDefinition.new code.spamMeContract.templateName
    |>.withSignature consumeGasSignature
    |>.withArgs [opcode.name, numIterations.decimal]
    |>.withKind "opcodes".toList

def opcodeTxs (opcodes : List EthereumOpcode) : List SpamRequest :=
  opcodes.map fun opcode => .tx (opcodeCall code numIterations opcode)

def precompileCall (precompile : EthereumPrecompile) : FunctionCallDefinition :=
  FunctionCallDefinition.new code.spamMeContract.templateName
    |>.withSignature callPrecompileSignature
    |>.withArgs [precompile.method, numIterations.decimal]
    |>.withKind "precompiles".toList

def precompileTxs (precompiles : List EthereumPrecompile) : List SpamRequest :=
  precompiles.map fun precompile => .tx (precompileCall code numIterations precompile)

def EthFunctionsArgs.toTestConfig (args : EthFunctionsArgs) : TestConfig where
  create := some [.deployFromAdmin code.spamMeContract]
  spam := some (precompileTxs code args.numIterations args.precompiles ++
    opcodeTxs code args.numIterations args.opcodes)

end EthFunctions

/-! ### Stress -/

structure StressCliArgs where
  disableStorage : Bool := false
  disableTransfers : Bool := false
  disableOpcodes : Option (List EthereumOpcode) := none
  disablePrecompiles : Option (List EthereumPrecompile) := none
  disableAllPrecompiles : Bool := false
  disableAllOpcodes : Bool := false
  storage : StorageStressCliArgs := {}
  transfers : TransferStressCliArgs := {}
  opcodeIterations : ℕ := 10
  withFails : Bool := false

namespace StressCliArgs

variable (code : BuiltinCode) (addressToString : Address → Text) (args : StressCliArgs)

/-- The opcodes whose gas cannot be estimated are left out, even if the user wants them. -/
def opcodes : List EthereumOpcode :=
  if args.disableAllOpcodes then []
  else (EthereumOpcode.iter.filter fun opcode => opcode ∉ args.disableOpcodes.getD []).filter
    fun opcode => opcode ≠ .revert ∧ opcode ≠ .create2 ∧ opcode ≠ .invalid

def precompiles : List EthereumPrecompile :=
  if args.disableAllPrecompiles then []
  else (EthereumPrecompile.iter.filter fun p => p ∉ args.disablePrecompiles.getD []).filter
    fun p => args.withFails = true ∨ p ≠ .identity

def consumeGas (callArgs : List Text) : FunctionCallDefinition :=
  FunctionCallDefinition.new code.spamMeContract.templateName
    |>.withSignature consumeGasSignature
    |>.withArgs callArgs

/-- The opcodes that were left out, with limits of their own instead of an estimate. -/
def failingTxs : List SpamRequest :=
  if args.disableAllOpcodes = false ∧ args.withFails = true then
    (if .revert ∉ args.disableOpcodes.getD [] then
      [.tx ((consumeGas code ["revert".toList, "1".toList]).withGasLimit 42000)] else []) ++
    (if .create2 ∉ args.disableOpcodes.getD [] then
      [.tx (consumeGas code ["create2".toList, "1".toList])] else []) ++
    (if .invalid ∉ args.disableOpcodes.getD [] then
      [.tx ((consumeGas code ["invalid".toList, "1".toList]).withGasLimit 21000)] else [])
  else []

/-- The configuration of the opcodes and precompiles. -/
def ethFunctionsConfig : TestConfig :=
  let config := EthFunctionsArgs.toTestConfig code
    ⟨args.opcodes, args.precompiles, args.opcodeIterations⟩
  { config with spam := config.spam.map (· ++ args.failingTxs code) }

/-- The configurations that are put together. -/
def configs : List TestConfig :=
  (if args.disableStorage then [] else [args.storage.toArgs.toTestConfig code]) ++
    (if args.disableTransfers then []
      else [(args.transfers.toArgs addressToString).toTestConfig]) ++
    [args.ethFunctionsConfig code]

def toTestConfig : TestConfig where
  create := some [.deployFromAdmin code.spamMeContract]
  spam := some ((args.configs code addressToString).flatMap fun config => config.spam.getD [])

end StressCliArgs

/-! ### Filling blocks -/

inductive SpamRate
  | txsPerBlock (n : ℕ)
  | txsPerSecond (n : ℕ)

namespace SpamRate

/-- The rate where none is given. -/
def default : SpamRate := .txsPerSecond 10

def numTxs : SpamRate → ℕ
  | .txsPerBlock n | .txsPerSecond n => n

end SpamRate

structure FillBlockArgs where
  maxGasPerBlock : ℕ
  numTxs : ℕ

namespace FillBlockArgs

variable (code : BuiltinCode) (args : FillBlockArgs)

/-- One of the calls that share the gas of a block. -/
def fillCall : FunctionCallDefinition :=
  FunctionCallDefinition.new code.spamMeContract.templateName
    |>.withSignature "consumeGas()".toList
    |>.withKind "fill-block".toList
    |>.withGasLimit (args.maxGasPerBlock / args.numTxs)

def toTestConfig : Option TestConfig :=
  if args.numTxs = 0 then none
  else some {
    create := some [.deployFromAdmin code.spamMeContract]
    spam := some (List.replicate args.numTxs (.tx (args.fillCall code))) }

end FillBlockArgs

/-! ### Reverts -/

structure RevertCliArgs where
  gasUse : ℕ := 30000

def RevertCliArgs.toTestConfig (code : BuiltinCode) (args : RevertCliArgs) : Option TestConfig := do
  let gasLimit ← addU64 args.gasUse 35000
  return {
    create := some [.deployFromAdmin code.spamMe6Contract]
    spam := some [.tx (FunctionCallDefinition.new code.spamMe6Contract.templateName
      |>.withSignature "consumeGasAndRevert(uint256 gas)".toList
      |>.withArgs [args.gasUse.decimal]
      |>.withGasLimit gasLimit)] }

/-! ### Blobs -/

structure BlobsCliArgs where
  blobData : Text := "0xdeadbeef".toList
  recipient : Option Text := none

def BlobsCliArgs.toTestConfig (args : BlobsCliArgs) : TestConfig where
  spam := some [.tx { FunctionCallDefinition.new (args.recipient.getD "{_sender}".toList) with
    blobData := some args.blobData }]

/-! ### Setting code -/

/-- `DEFAULT_SIG`. -/
def defaultSig : Text := "execute((address,uint256,bytes)[])".toList

/-- `DEFAULT_ARGS`: the counter is incremented. -/
def defaultArgs : Text := "[(0x{Counter},0,0xd09de08a)]".toList

structure SetCodeArgs where
  contractAddress : Option Text
  signature : Text
  args : List Text
  signerAddress : Text

/-- `SetCodeArgs::from_cli_args`, for the signer that is the placeholder of the setCode account. -/
def SetCodeArgs.fromCliArgs (contractAddress signature : Option Text) (args : Option (List Text)) :
    SetCodeArgs where
  contractAddress
  signature := signature.getD defaultSig
  args := args.getD [defaultArgs]
  signerAddress := placeholder setcodeKey

def SetCodeArgs.toTestConfig (code : BuiltinCode) (args : SetCodeArgs) : TestConfig where
  create := if args.contractAddress = none then
      some [{ contract := code.counterContract }, { contract := code.smartWalletContract }]
    else none
  spam := some [.tx {
    (FunctionCallDefinition.new args.signerAddress
      |>.withArgs args.args
      |>.withSignature args.signature) with
    authorizationAddress :=
      some (args.contractAddress.getD code.smartWalletContract.templateName) }]

/-- `SetCodeExecuteCliArgs`. -/
structure SetCodeExecuteCliArgs where
  toAddr : Text
  sig : Text
  args : List Text
  value : Option U256 := none

/-- `str::trim_start_matches("0x")`: as often as it stands there. -/
def trimStart0x : Text → Text
  | '0' :: 'x' :: rest => trimStart0x rest
  | text => text

/-- The arguments of the smart wallet's `execute` in `to_setcode_cli_args`. -/
def SetCodeExecuteCliArgs.executeArgs (foreign : Foreign) (args : SetCodeExecuteCliArgs) :
    Except GeneratorError Text := do
  let calldata ← foreign.encodeCalldata args.args args.sig
  return "[(0x".toList ++ trimStart0x args.toAddr ++ ",".toList ++
    (args.value.getD 0).toNat.decimal ++ ",".toList ++ hexEncode calldata ++ ")]".toList

structure SetCodeCliArgs where
  command : Option SetCodeExecuteCliArgs := none
  contractAddress : Option Text := none
  signature : Option Text := none
  args : Option (List Text) := none

/-! ### Contracts of the user -/

/-- What `forge` gives of a contract: the signatures of its functions by name, that of its
constructor, and its bytecode. -/
structure ContractArtifacts where
  functions : Text → Option (List Text)
  constructorSig : Option Text
  bytecode : Text

structure CustomContractCliArgs where
  contractPath : Text
  constructorArgs : Option Text := none
  setupCalls : List Text := []
  spamCalls : List Text := []

inductive CustomContractArgsError
  | invalidContractPathFormat (path : Text)
  | spamArgsEmpty
  | build (message : Text)
  | contractMeta (e : ContractMetaError)
  | generator (e : GeneratorError)
  | panic
  deriving DecidableEq, Repr

/-- The step for a function of the contract that is called on the command line. -/
def CompiledContract.callStep (contract : CompiledContract) (call : NameAndArgs)
    (signature : Text) : FunctionCallDefinition :=
  FunctionCallDefinition.new contract.templateName
    |>.withSignature signature
    |>.withArgs call.args

/-- The contract has the name of a contract, and its steps call its functions. -/
structure CustomContractArgs where
  contract : CompiledContract
  setup : List FunctionCallDefinition
  spam : List FunctionCallDefinition
  braceFree_name : BraceFree contract.name
  callsContract : ∀ step ∈ setup ++ spam, ∃ call signature,
    step = contract.callStep call signature

def CustomContractArgs.toTestConfig (args : CustomContractArgs) : TestConfig where
  create := some [{ contract := args.contract }]
  setup := some args.setup
  spam := some (args.spam.map SpamRequest.tx)

namespace CustomContractCliArgs

variable (foreign : Foreign) (args : CustomContractCliArgs)

/-- `constructor_args`. -/
def constructorArgsList : List Text :=
  match args.constructorArgs with
  | some constructorArgs => ((constructorArgs.splitOn ',').map trim).filter fun arg => arg ≠ []
  | none => []

/-- The characters of a contract's name, and those it may begin with. -/
def isNameStart (c : Char) : Bool := c.isAlpha || c = '_'

def isNameChar (c : Char) : Bool := c.isAlphanum || c = '_'

/-- The second group of the regular expression in `read_sol_file`. -/
def contractName : Option Text :=
  let name := (args.contractPath.reverse.takeWhile (· ≠ ':')).reverse
  let file := args.contractPath.take (args.contractPath.length - (name.length + 1))
  if ':' ∈ args.contractPath ∧ name ≠ [] ∧ (name.take 1).all isNameStart ∧
      name.all isNameChar ∧ ".sol".toList <:+ file ∧ 4 < file.length ∧ '\n' ∉ file then
    some name
  else none

/-- A call and its signature. -/
def parseCall (functions : Text → Option (List Text)) (call : NameAndArgs) :
    Except CustomContractArgsError (NameAndArgs × Text) :=
  match call.signature functions id fun args sig => (foreign.encodeCalldata args sig).isOk with
  | .ok signature => .ok (call, signature)
  | .error e => .error (.contractMeta e)

def parseName (call : Text) : Except CustomContractArgsError NameAndArgs :=
  match NameAndArgs.fromFunctionCall call with
  | some (.ok parsed) => .ok parsed
  | some (.error e) => .error (.contractMeta e)
  | none => .error .panic

/-- The bytecode of `with_constructor_args`. -/
def withConstructorArgs (bytecode sig : Text) (constructorArgs : List Text) :
    Except CustomContractArgsError Text :=
  match foreign.encodeCalldata constructorArgs (constructorSignature sig) with
  | .ok calldata => .ok (bytecode ++ hexEncode (calldata.drop 4))
  | .error e => .error (.generator e)

variable {args}

theorem braceFree_of_all_isNameChar {name : Text} (h : name.all isNameChar = true) :
    BraceFree name := by
  rw [List.all_eq_true] at h
  have hnot : ∀ c, isNameChar c = false → c ∉ name := fun c hc hmem => by
    rw [h c hmem] at hc
    cases hc
  exact ⟨hnot _ (by decide), hnot _ (by decide)⟩

theorem braceFree_contractName {name : Text} (h : args.contractName = some name) :
    BraceFree name := by
  simp only [contractName] at h
  split_ifs at h with hname
  obtain rfl := Option.some.inj h
  exact braceFree_of_all_isNameChar hname.2.2.2.1

theorem callsContract_map (contract : CompiledContract) (setup spam : List (NameAndArgs × Text)) :
    ∀ step ∈ setup.map (fun p => contract.callStep p.1 p.2) ++
      spam.map (fun p => contract.callStep p.1 p.2),
      ∃ call signature, step = contract.callStep call signature := by
  intro step hstep
  rw [← List.map_append] at hstep
  obtain ⟨p, -, rfl⟩ := List.mem_map.mp hstep
  exact ⟨p.1, p.2, rfl⟩

variable (args)

/-- `CustomContractArgs::from_cli_args`. -/
def toArgs (build : Text → Except Text ContractArtifacts) :
    Except CustomContractArgsError CustomContractArgs :=
  if args.spamCalls = [] then .error .spamArgsEmpty
  else
    match hname : args.contractName with
    | none => .error (.invalidContractPathFormat args.contractPath)
    | some name => do
      let artifacts ← (build args.contractPath).mapError .build
      let spamCalls ← args.spamCalls.mapM parseName
      let setupCalls ← args.setupCalls.mapM parseName
      let bytecode ←
        match artifacts.constructorSig with
        | some sig => withConstructorArgs foreign artifacts.bytecode sig args.constructorArgsList
        | none => .ok artifacts.bytecode
      let spam ← spamCalls.mapM (parseCall foreign artifacts.functions)
      let setup ← setupCalls.mapM (parseCall foreign artifacts.functions)
      let contract : CompiledContract := ⟨bytecode, name⟩
      return {
        contract
        setup := setup.map fun p => contract.callStep p.1 p.2
        spam := spam.map fun p => contract.callStep p.1 p.2
        braceFree_name := braceFree_contractName hname
        callsContract := callsContract_map contract setup spam }

end CustomContractCliArgs

/-! ### All of them -/

inductive BuiltinScenario
  | blobs (args : BlobsCliArgs)
  | contract (args : CustomContractArgs)
  | erc20 (args : Erc20Args)
  | ethFunctions (args : EthFunctionsArgs)
  | fillBlock (args : FillBlockArgs)
  | revert (args : RevertCliArgs)
  | setCode (args : SetCodeArgs)
  | storage (args : StorageStressArgs)
  | transfers (args : TransferStressArgs)
  | stress (args : StressCliArgs)
  | uniV2 (args : UniV2Args)

/-- `TestConfig::from`. -/
def BuiltinScenario.toTestConfig (code : BuiltinCode) (addressToString : Address → Text)
    (now : Text → Text → ℕ) : BuiltinScenario → Option TestConfig
  | .blobs args => some args.toTestConfig
  | .contract args => some args.toTestConfig
  | .erc20 args => some (args.toTestConfig code.testTokenHex addressToString)
  | .ethFunctions args => some (args.toTestConfig code)
  | .fillBlock args => args.toTestConfig code
  | .revert args => args.toTestConfig code
  | .setCode args => some (args.toTestConfig code)
  | .storage args => some (args.toTestConfig code)
  | .transfers args => some args.toTestConfig
  | .stress args => some (args.toTestConfig code addressToString)
  | .uniV2 args => args.toTestConfig now code.uniV2

/-! ### From the command line -/

/-- `BuiltinScenarioCli`, with the arguments of the commands. -/
inductive BuiltinScenarioCliArgs
  | blobs (args : BlobsCliArgs)
  | contract (args : CustomContractCliArgs)
  | erc20 (args : Erc20CliArgs)
  | ethFunctions (args : EthFunctionsArgs)
  | fillBlock (maxGasPerBlock : Option ℕ)
  | revert (args : RevertCliArgs)
  | setCode (args : SetCodeCliArgs)
  | storage (args : StorageStressCliArgs)
  | transfers (args : TransferStressCliArgs)
  | stress (args : StressCliArgs)
  | uniV2 (args : UniV2CliArgs)

/-- `missingArgs` and `invalidArgs` are kinds of `RuntimeParamErrorKind`. -/
inductive BuiltinError
  | missingArgs (text : Text)
  | invalidArgs (text : Text)
  | contract (e : CustomContractArgsError)
  | generator (e : GeneratorError)
  | provider (message : Text)
  | panic
  deriving DecidableEq, Repr

/-- `fill_block`, with the gas limit of the latest block where none is given. The division by the
number of transactions panics when there are none. -/
def fillBlock (latestGasLimit : Except Text (Option ℕ)) (spamRate : SpamRate)
    (maxGasPerBlock : Option ℕ) : Except BuiltinError FillBlockArgs := do
  let gasLimit ←
    match maxGasPerBlock with
    | some maxGas => .ok maxGas
    | none =>
      (latestGasLimit.map fun blockGasLimit => blockGasLimit.getD 30000000).mapError .provider
  if spamRate.numTxs = 0 then .error .panic
  else return ⟨gasLimit, spamRate.numTxs⟩

/-- A text in bold type. -/
def bold (text : Text) : Text := '\x1b' :: ("[1m".toList ++ text ++ '\x1b' :: "[0m".toList)

/-- What the scenarios are made with: the libraries, the accounts' addresses, `forge`, and the gas
limit of the latest block. -/
structure BuiltinEnv where
  foreign : Foreign
  addressOf : U256 → Address
  build : Text → Except Text ContractArtifacts
  latestGasLimit : Except Text (Option ℕ)

namespace BuiltinScenarioCliArgs

def mustBePositive (name : Text) : BuiltinError :=
  .invalidArgs (bold name ++ " must be greater than 0".toList)

/-- `check_zero`. -/
def checkZero (name : Text) (value : U256) : Except BuiltinError Unit :=
  if value = 0 then .error (mustBePositive name) else .ok ()

/-- The arguments that `setCode execute` would overwrite. -/
def overwritten (args : SetCodeCliArgs) : Text :=
  (if args.args.isSome then bold "--args".toList else []) ++
    (if args.signature.isSome then
      (if args.args.isSome then " and ".toList else []) ++ bold "--sig".toList else []) ++
    " may not be provided to ".toList ++ bold "setCode".toList ++ " when calling ".toList ++
    bold "setCode execute".toList

/-- The arm of setCode. -/
def setCodeArgs (foreign : Foreign) (args : SetCodeCliArgs) : Except BuiltinError SetCodeArgs :=
  match args.command with
  | none => .ok (.fromCliArgs args.contractAddress args.signature args.args)
  | some execute =>
    if args.args.isSome ∨ args.signature.isSome then .error (.invalidArgs (overwritten args))
    else
      match execute.executeArgs foreign with
      | .ok arg => .ok (.fromCliArgs args.contractAddress (some defaultSig) (some [arg]))
      | .error e => .error (.generator e)

/-- `BuiltinScenarioCli::to_builtin_scenario`. -/
def toBuiltinScenario (env : BuiltinEnv) (options : BuiltinOptions) (spamRate : Option SpamRate) :
    BuiltinScenarioCliArgs → Except BuiltinError BuiltinScenario
  | .blobs args => .ok (.blobs args)
  | .contract args =>
    match args.toArgs env.foreign env.build with
    | .ok args => .ok (.contract args)
    | .error e => .error (.contract e)
  | .erc20 args =>
    match Erc20Args.toBuiltinScenario env.foreign.keccak256 env.addressOf
      env.foreign.addressToString args options with
    | some args => .ok (.erc20 args)
    | none => .error .panic
  | .fillBlock maxGasPerBlock =>
    match Contender.fillBlock env.latestGasLimit (spamRate.getD .default) maxGasPerBlock with
    | .ok args => .ok (.fillBlock args)
    | .error e => .error e
  | .ethFunctions args =>
    if args.opcodes = [] ∧ args.precompiles = [] then
      .error (.missingArgs (bold "--opcode (-o)".toList ++ " or ".toList ++
        bold "--precompile (-p)".toList))
    else .ok (.ethFunctions args)
  | .revert args => .ok (.revert args)
  | .setCode args => (setCodeArgs env.foreign args).map .setCode
  | .storage args =>
    if args.numSlots = 0 then .error (mustBePositive "--num-slots (-s)".toList)
    else if args.numIterations = 0 then .error (mustBePositive "--num-iterations (-n)".toList)
    else .ok (.storage args.toArgs)
  | .transfers args => .ok (.transfers (args.toArgs env.foreign.addressToString))
  | .stress args =>
    if args.disableStorage ∧ args.disableTransfers ∧ args.disableAllOpcodes ∧
        args.disableAllPrecompiles then
      .error (.missingArgs "At least one stress test must be enabled".toList)
    else .ok (.stress args)
  | .uniV2 args => do
    checkZero "--initial-token-supply (-i)".toList args.initialTokenSupply
    checkZero "--num-tokens (-n)".toList (BitVec.ofNat 256 args.numTokens)
    checkZero "--weth-per-token (-w)".toList args.wethPerToken
    match args.tokenTradeAmount with
    | some amount => checkZero "--token-trade-amount".toList amount
    | none => .ok ()
    return .uniV2 args.toArgs

end BuiltinScenarioCliArgs

end Contender
