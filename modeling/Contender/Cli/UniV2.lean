import Contender.Data.FindByKey
import Contender.Data.Pairings
import Contender.Generator.CreateDef

/-!
# The UniV2 scenario

`uni_v2.rs` builds a scenario for any number of test tokens. It deploys them, pairs each with
WETH and with every other token, puts half of a token's supply into its pools, and hands the
other half to the contract that trades. The scenario file gives the contracts; its steps that
deploy tokens, its setup and its spam are replaced.

A failed `expect` is `none`, as is an overflow of `num_tokens + 1`: where that is not checked
the sum is zero, and the division by it panics. The bytecodes and the clock are parameters.

## Main results

* `UniV2Args.toTestConfig_eq` — the steps that the nested loops emit
-/

namespace Contender

structure TestConfig where
  env : Option (AssocMap Text Text) := none
  create : Option (List CreateDefinition) := none
  setup : Option (List FunctionCallDefinition) := none
  spam : Option (List SpamRequest) := none

namespace FunctionCallDefinition

variable (call : FunctionCallDefinition)

def withSignature (sig : Text) : FunctionCallDefinition := { call with signature := some sig }

def withKind (kind : Text) : FunctionCallDefinition := { call with kind := some kind }

def withArgs (args : List Text) : FunctionCallDefinition := { call with args := some args }

def withValue (value : U256) : FunctionCallDefinition :=
  { call with value := some value.toNat.decimal }

def withGasLimit (gasLimit : ℕ) : FunctionCallDefinition := { call with gasLimit := some gasLimit }

end FunctionCallDefinition

/-- The bytecodes of `uniV2.toml`, and that of the test token. -/
structure UniV2Bytecode where
  weth : Text
  testToken : Text
  uniV2Factory : Text
  uniRouterV2 : Text
  unicheat : Text
  testTokenHex : Text

namespace UniV2Bytecode

variable (code : UniV2Bytecode)

/-- The create steps of the file. -/
def fileSteps : List CreateDefinition :=
  [{ contract := ⟨code.weth, "weth".toList⟩ },
   { contract := ⟨code.testToken, "testToken".toList⟩
     signature := some "(uint256 initialSupply)".toList
     args := some ["{initialSupply}".toList] },
   { contract := ⟨code.testToken, "testToken2".toList⟩
     signature := some "(uint256 initialSupply)".toList
     args := some ["{initialSupply}".toList] },
   { contract := ⟨code.uniV2Factory, "uniV2Factory".toList⟩
     signature := some "(address _feeToSetter)".toList
     args := some ["{_sender}".toList] },
   { contract := ⟨code.uniRouterV2, "uniRouterV2".toList⟩
     signature := some "(address,address)".toList
     args := some ["{uniV2Factory}".toList, "{weth}".toList] },
   { contract := ⟨code.unicheat, "unicheat".toList⟩
     signature := some "(address)".toList
     args := some ["{uniRouterV2}".toList] }]

/-- The variables of the file. -/
def fileEnv : AssocMap Text Text :=
  (∅ : AssocMap Text Text).insert "initialSupply".toList
    ("0x".toList ++ List.replicate 62 'f')

/-- `test_token`: the supply is appended as a word. -/
def testTokenContract (tokenNum : ℕ) (initialSupply : U256) : CompiledContract where
  bytecode := code.testTokenHex ++ Nat.paddedHex 64 initialSupply.toNat
  name := "testToken".toList ++ tokenNum.decimal

end UniV2Bytecode

/-- The contracts that the steps call. -/
structure UniV2Contracts where
  weth : CompiledContract
  univ2Factory : CompiledContract
  uniRouterV2 : CompiledContract
  unicheat : CompiledContract

namespace UniV2Contracts

variable (c : UniV2Contracts) (tokenA tokenB : CompiledContract)

def createPair : FunctionCallDefinition :=
  ({ toAddr := c.univ2Factory.templateName } : FunctionCallDefinition)
    |>.withSignature "createPair(address,address)".toList
    |>.withKind ("univ2_create_pair_".toList ++ tokenA.name ++ "-".toList ++ tokenB.name)
    |>.withArgs [tokenA.templateName, tokenB.templateName]
    |>.withGasLimit 3000000

/-- The amounts may slip by one hundredth, and the deadline is ten minutes ahead. -/
def addLiquidity (now : ℕ) (amountA amountB : U256) : FunctionCallDefinition :=
  ({ toAddr := c.uniRouterV2.templateName } : FunctionCallDefinition)
    |>.withSignature
      "addLiquidity(address,address,uint256,uint256,uint256,uint256,address,uint256)".toList
    |>.withKind ("univ2_add_liquidity_".toList ++ tokenA.name ++ "-".toList ++ tokenB.name)
    |>.withArgs [tokenA.templateName, tokenB.templateName,
      amountA.toNat.decimal, amountB.toNat.decimal,
      (amountA / 100#256).toNat.decimal, (amountB / 100#256).toNat.decimal,
      "{_sender}".toList, (now + 600).decimal]
    |>.withGasLimit 300000

def swap (amount : U256) : FunctionCallDefinition :=
  ({ toAddr := c.unicheat.templateName } : FunctionCallDefinition)
    |>.withSignature "swap(address,address,uint256)".toList
    |>.withKind ("univ2_swap_".toList ++ tokenA.name ++ "-".toList ++ tokenB.name)
    |>.withArgs [tokenA.templateName, tokenB.templateName, amount.toNat.decimal]

end UniV2Contracts

namespace CompiledContract

variable (token : CompiledContract)

def transfer (recipient : CompiledContract) (amount : U256) : FunctionCallDefinition :=
  ({ toAddr := token.templateName } : FunctionCallDefinition)
    |>.withSignature "transfer(address,uint256)".toList
    |>.withKind (token.name ++ "_transfer_to_".toList ++ recipient.name)
    |>.withArgs [recipient.templateName, amount.toNat.decimal]
    |>.withGasLimit 200000

def approveMax (spender : CompiledContract) : FunctionCallDefinition :=
  ({ toAddr := token.templateName } : FunctionCallDefinition)
    |>.withSignature "approve(address,uint256)".toList
    |>.withKind (token.name ++ "_approve_".toList ++ spender.name)
    |>.withArgs [spender.templateName, (2 ^ 256 - 1 : ℕ).decimal]

def deposit (value : U256) : FunctionCallDefinition :=
  ({ toAddr := token.templateName } : FunctionCallDefinition)
    |>.withSignature "deposit()".toList
    |>.withKind "weth_deposit".toList
    |>.withValue value

end CompiledContract

inductive UniV2Error
  | contractNameNotFound (name : Text)
  deriving DecidableEq, Repr

/-- The first create step of that name gives the contract. -/
def findContract (createSteps : List CreateDefinition) (name : Text) :
    Except UniV2Error CompiledContract :=
  match createSteps.find? fun c => c.contract.name = name with
  | some c => .ok c.contract
  | none => .error (.contractNameNotFound name)

/-- The steps so far. -/
structure UniV2Steps where
  setup : List FunctionCallDefinition
  spam : List FunctionCallDefinition

def UniV2Steps.push (steps : UniV2Steps) (setup spam : List FunctionCallDefinition) :
    UniV2Steps where
  setup := steps.setup ++ setup
  spam := steps.spam ++ spam

/-- `u32` addition under overflow checks. -/
def addU32 (m n : ℕ) : Option ℕ := if m + n < 2 ^ 32 then some (m + n) else none

/-- The arguments of the command line. -/
structure UniV2CliArgs where
  numTokens : ℕ := 2
  wethPerToken : U256 := BitVec.ofNat 256 (10 ^ 18)
  initialTokenSupply : U256 := BitVec.ofNat 256 (5000000 * 10 ^ 18)
  wethTradeAmount : Option U256 := none
  tokenTradeAmount : Option U256 := none

structure UniV2Args where
  numTokens : ℕ
  wethPerToken : U256
  initialTokenSupply : U256
  wethTradeAmount : U256
  tokenTradeAmount : U256

/-- The amounts to trade are a small part of the pools by default. -/
def UniV2CliArgs.toArgs (args : UniV2CliArgs) : UniV2Args where
  numTokens := args.numTokens
  wethPerToken := args.wethPerToken
  initialTokenSupply := args.initialTokenSupply
  wethTradeAmount := args.wethTradeAmount.getD (args.wethPerToken / 10000#256)
  tokenTradeAmount := args.tokenTradeAmount.getD (args.initialTokenSupply / 100000#256)

namespace UniV2Args

variable (args : UniV2Args)

def liquidityAmount : U256 := args.initialTokenSupply / 2#256

def poolLiquidityAmount : Option U256 := do
  let pools ← addU32 args.numTokens 1
  return args.liquidityAmount / BitVec.ofNat 256 pools

def deployment (code : UniV2Bytecode) (i : ℕ) : CreateDefinition where
  contract := code.testTokenContract (i + 1) args.initialTokenSupply
  fromPool := some "admin".toList

/-- The deployments of the tokens come before those of the file. -/
def createSteps (code : UniV2Bytecode) : List CreateDefinition :=
  (List.range args.numTokens).map (args.deployment code) ++
    code.fileSteps.filter fun c => ¬"testToken".toList <+: c.contract.name

variable (createSteps : List CreateDefinition) (c : UniV2Contracts) (now : Text → Text → ℕ)

/-- The contracts of the file, by their names. -/
def findContracts : Option UniV2Contracts := do
  let weth ← (findContract createSteps "weth".toList).toOption
  let univ2Factory ← (findContract createSteps "uniV2Factory".toList).toOption
  let uniRouterV2 ← (findContract createSteps "uniRouterV2".toList).toOption
  let unicheat ← (findContract createSteps "unicheat".toList).toOption
  return { weth, univ2Factory, uniRouterV2, unicheat }

/-- The test token of that index. -/
def findToken (i : ℕ) : Option CompiledContract :=
  (findContract createSteps ("testToken".toList ++ (i + 1).decimal)).toOption

/-- The router may spend the tokens. -/
def approveToken (uniRouterV2 : CompiledContract) (token : ℕ) : Option FunctionCallDefinition := do
  let tokenContract ← findToken createSteps token
  return tokenContract.approveMax uniRouterV2

/-- The inner loop: a pair of two test tokens. -/
def pairTokens (token : CompiledContract) (steps : UniV2Steps) (j : ℕ) : Option UniV2Steps := do
  let otherToken ← findToken createSteps j
  let amount ← args.poolLiquidityAmount
  return steps.push
    [c.createPair token otherToken,
      c.addLiquidity token otherToken (now token.name otherToken.name) amount amount]
    [c.swap token otherToken args.tokenTradeAmount, c.swap otherToken token args.tokenTradeAmount]

/-- The outer loop: the pairs of a test token with WETH and with the tokens after it. -/
def pairToken (steps : UniV2Steps) (i : ℕ) : Option UniV2Steps := do
  let token ← findToken createSteps i
  let amount ← args.poolLiquidityAmount
  let steps := steps.push
    [c.createPair c.weth token,
      c.addLiquidity c.weth token (now c.weth.name token.name) args.wethPerToken amount]
    [c.swap c.weth token args.wethTradeAmount, c.swap token c.weth args.wethTradeAmount]
  let steps ← (List.range' (i + 1) (args.numTokens - (i + 1))).foldlM
    (args.pairTokens createSteps c now token) steps
  -- fund unicheat with remaining tokens
  return steps.push [token.transfer c.unicheat args.liquidityAmount] []

/-- The clock is read once for each pair of tokens. -/
def toTestConfig (code : UniV2Bytecode) : Option TestConfig := do
  let createSteps := args.createSteps code
  let c ← findContracts createSteps
  let pools ← addU32 args.numTokens 1
  let wethValue := args.wethPerToken * BitVec.ofNat 256 pools
  let approvals ← (List.range args.numTokens).mapM (approveToken createSteps c.uniRouterV2)
  let setup := [c.weth.deposit wethValue, c.weth.approveMax c.uniRouterV2,
    c.weth.transfer c.unicheat args.wethPerToken] ++ approvals ++ [c.weth.approveMax c.uniRouterV2]
  let steps ← (List.range args.numTokens).foldlM (args.pairToken createSteps c now)
    { setup := setup, spam := [] }
  return {
    env := some UniV2Bytecode.fileEnv
    create := some createSteps
    setup := some steps.setup
    spam := some (steps.spam.map SpamRequest.tx) }

/-! ### What the loops emit -/

/-- The contracts of the test tokens. -/
def tokens (code : UniV2Bytecode) : List CompiledContract :=
  (List.range args.numTokens).map fun i => code.testTokenContract (i + 1) args.initialTokenSupply

/-- The part of the supply that goes into one pool. -/
def poolAmount : U256 := args.liquidityAmount / BitVec.ofNat 256 (args.numTokens + 1)

/-- The steps that open the pool of two tokens. -/
def openPool (tokenA tokenB : CompiledContract) (amountA amountB : U256) :
    List FunctionCallDefinition :=
  [c.createPair tokenA tokenB,
    c.addLiquidity tokenA tokenB (now tokenA.name tokenB.name) amountA amountB]

/-- The setup steps of a test token, when the given ones come after it. -/
def tokenSetup (token : CompiledContract) (rest : List CompiledContract) :
    List FunctionCallDefinition :=
  openPool c now c.weth token args.wethPerToken args.poolAmount ++
    (rest.flatMap fun other => openPool c now token other args.poolAmount args.poolAmount) ++
    [token.transfer c.unicheat args.liquidityAmount]

/-- Both swaps of two tokens. -/
def swaps (tokenA tokenB : CompiledContract) (amount : U256) : List FunctionCallDefinition :=
  [c.swap tokenA tokenB amount, c.swap tokenB tokenA amount]

/-- The spam steps of a test token, when the given ones come after it. -/
def tokenSpam (token : CompiledContract) (rest : List CompiledContract) :
    List FunctionCallDefinition :=
  swaps c c.weth token args.wethTradeAmount ++
    rest.flatMap fun other => swaps c token other args.tokenTradeAmount

end UniV2Args

namespace UniV2Bytecode

/-- The contracts of the file that the steps call. -/
def contracts (code : UniV2Bytecode) : UniV2Contracts where
  weth := ⟨code.weth, "weth".toList⟩
  univ2Factory := ⟨code.uniV2Factory, "uniV2Factory".toList⟩
  uniRouterV2 := ⟨code.uniRouterV2, "uniRouterV2".toList⟩
  unicheat := ⟨code.unicheat, "unicheat".toList⟩

end UniV2Bytecode

theorem UniV2Steps.foldlM_push {f : UniV2Steps → ℕ → Option UniV2Steps}
    {setup spam : ℕ → List FunctionCallDefinition} {l : List ℕ}
    (h : ∀ i ∈ l, ∀ steps, f steps i = some (steps.push (setup i) (spam i)))
    (steps : UniV2Steps) :
    l.foldlM f steps = some (steps.push (l.flatMap setup) (l.flatMap spam)) := by
  induction l generalizing steps with
  | nil => simp [push]
  | cons i l ih =>
    have hrest := ih fun j hj => h j (List.mem_cons_of_mem i hj)
    rw [List.foldlM_cons, h i List.mem_cons_self, Option.bind_eq_bind, Option.bind_some, hrest]
    simp [push]

/-- A contract is found if no other create step has its name. -/
theorem findContract_of_unique {createSteps : List CreateDefinition} {d : CreateDefinition}
    (hmem : d ∈ createSteps)
    (hunique : ∀ d' ∈ createSteps, d'.contract.name = d.contract.name → d' = d) :
    findContract createSteps d.contract.name = .ok d.contract := by
  rw [findContract, List.find?_key_of_unique hmem hunique]

namespace UniV2Args

variable (args : UniV2Args) (code : UniV2Bytecode)

theorem findToken_createSteps {i : ℕ} (h : i < args.numTokens) :
    findToken (args.createSteps code) i =
      some (code.testTokenContract (i + 1) args.initialTokenSupply) := by
  have hmem : args.deployment code i ∈ args.createSteps code :=
    List.mem_append_left _ (List.mem_map.mpr ⟨i, List.mem_range.mpr h, rfl⟩)
  have hfind := findContract_of_unique hmem ?_
  · exact congrArg Except.toOption hfind
  · intro d hd hname
    rcases List.mem_append.mp hd with hd | hd
    · obtain ⟨j, -, rfl⟩ := List.mem_map.mp hd
      have hij := Nat.decimal_injective (List.append_cancel_left hname)
      rw [Nat.succ.inj hij]
    · -- the tokens of the file are left out
      have hstart := (List.mem_filter.mp hd).2
      rw [hname] at hstart
      simp [deployment, UniV2Bytecode.testTokenContract] at hstart

theorem findContract_createSteps {d : CreateDefinition} {name : Text} (hmem : d ∈ code.fileSteps)
    (hd : d.contract.name = name) (hkept : ¬"testToken".toList <+: name) :
    (findContract (args.createSteps code) name).toOption = some d.contract := by
  subst hd
  have hnames : (code.fileSteps.map fun d => d.contract.name).Nodup := by
    change ["weth".toList, "testToken".toList, "testToken2".toList, "uniV2Factory".toList,
      "uniRouterV2".toList, "unicheat".toList].Nodup
    decide
  have hd : d ∈ args.createSteps code :=
    List.mem_append_right _ (List.mem_filter.mpr ⟨hmem, decide_eq_true hkept⟩)
  rw [findContract_of_unique hd, Except.toOption]
  intro d' hd' hname
  rcases List.mem_append.mp hd' with hd' | hd'
  · obtain ⟨j, -, rfl⟩ := List.mem_map.mp hd'
    exact absurd (hname ▸ List.prefix_append _ _) hkept
  · exact List.inj_on_of_nodup_map hnames (List.mem_filter.mp hd').1 hmem hname

theorem findContracts_createSteps :
    findContracts (args.createSteps code) = some code.contracts := by
  have hweth : (findContract (args.createSteps code) "weth".toList).toOption =
      some code.contracts.weth :=
    args.findContract_createSteps code (.head _) rfl (by decide)
  have hfactory : (findContract (args.createSteps code) "uniV2Factory".toList).toOption =
      some code.contracts.univ2Factory :=
    args.findContract_createSteps code (.tail _ <| .tail _ <| .tail _ <| .head _) rfl (by decide)
  have hrouter : (findContract (args.createSteps code) "uniRouterV2".toList).toOption =
      some code.contracts.uniRouterV2 :=
    args.findContract_createSteps code
      (.tail _ <| .tail _ <| .tail _ <| .tail _ <| .head _) rfl (by decide)
  have hunicheat : (findContract (args.createSteps code) "unicheat".toList).toOption =
      some code.contracts.unicheat :=
    args.findContract_createSteps code
      (.tail _ <| .tail _ <| .tail _ <| .tail _ <| .tail _ <| .head _) rfl (by decide)
  rw [findContracts, hweth, hfactory, hrouter, hunicheat]
  rfl

theorem poolLiquidityAmount_eq (h : args.numTokens + 1 < 2 ^ 32) :
    args.poolLiquidityAmount = some args.poolAmount := by
  have hpools : addU32 args.numTokens 1 = some (args.numTokens + 1) := if_pos h
  rw [poolLiquidityAmount, hpools]
  rfl

variable (c : UniV2Contracts) (now : Text → Text → ℕ)

/-- The token of that index. -/
abbrev token (i : ℕ) : CompiledContract := code.testTokenContract (i + 1) args.initialTokenSupply

theorem pairTokens_eq (h : args.numTokens + 1 < 2 ^ 32) (token : CompiledContract) {j : ℕ}
    (hj : j < args.numTokens) (steps : UniV2Steps) :
    args.pairTokens (args.createSteps code) c now token steps j =
      some (steps.push (openPool c now token (args.token code j) args.poolAmount args.poolAmount)
        (swaps c token (args.token code j) args.tokenTradeAmount)) := by
  simp [pairTokens, findToken_createSteps args code hj, poolLiquidityAmount_eq args h, openPool,
    swaps]

/-- The tokens after the one of that index. -/
abbrev tokensAfter (i : ℕ) : List CompiledContract :=
  (List.range' (i + 1) (args.numTokens - (i + 1))).map (args.token code)

theorem pairToken_eq (h : args.numTokens + 1 < 2 ^ 32) {i : ℕ} (hi : i < args.numTokens)
    (steps : UniV2Steps) :
    args.pairToken (args.createSteps code) c now steps i =
      some (steps.push (args.tokenSetup c now (args.token code i) (args.tokensAfter code i))
        (args.tokenSpam c (args.token code i) (args.tokensAfter code i))) := by
  have hinner := UniV2Steps.foldlM_push
    (l := List.range' (i + 1) (args.numTokens - (i + 1)))
    fun j hj => args.pairTokens_eq code c now h (args.token code i) (j := j) (by
      rw [List.mem_range'_1] at hj
      omega)
  simp [pairToken, findToken_createSteps args code hi, poolLiquidityAmount_eq args h, hinner,
    UniV2Steps.push, tokenSetup, tokenSpam, openPool, swaps, List.flatMap_map]

/-- The setup steps before the pools are opened. -/
def fundingSteps (tokens : List CompiledContract) : List FunctionCallDefinition :=
  [c.weth.deposit (args.wethPerToken * BitVec.ofNat 256 (args.numTokens + 1)),
    c.weth.approveMax c.uniRouterV2, c.weth.transfer c.unicheat args.wethPerToken] ++
    (tokens.map fun token => token.approveMax c.uniRouterV2) ++ [c.weth.approveMax c.uniRouterV2]

/-- The configuration, when `num_tokens + 1` fits: the steps of every token in order. -/
theorem toTestConfig_eq (h : args.numTokens + 1 < 2 ^ 32) :
    args.toTestConfig now code = some {
      env := some UniV2Bytecode.fileEnv
      create := some (args.createSteps code)
      setup := some (args.fundingSteps code.contracts (args.tokens code) ++
        List.flatMapRest (args.tokenSetup code.contracts now) (args.tokens code))
      spam := some ((List.flatMapRest (args.tokenSpam code.contracts) (args.tokens code)).map
        SpamRequest.tx) } := by
  have hpools : addU32 args.numTokens 1 = some (args.numTokens + 1) := if_pos h
  have happrovals : (List.range args.numTokens).mapM
      (approveToken (args.createSteps code) code.contracts.uniRouterV2) =
        some ((args.tokens code).map fun token =>
          token.approveMax code.contracts.uniRouterV2) := by
    rw [tokens, List.map_map]
    refine List.mapM_eq_some_map fun i hi => ?_
    rw [approveToken, args.findToken_createSteps code (List.mem_range.mp hi)]
    rfl
  have hsteps := UniV2Steps.foldlM_push (l := List.range args.numTokens)
    fun i hi => args.pairToken_eq code code.contracts now h (List.mem_range.mp hi)
  have hsetup := List.flatMap_range_eq_flatMapRest (args.tokenSetup code.contracts now)
    (args.token code) args.numTokens
  have hspam := List.flatMap_range_eq_flatMapRest (args.tokenSpam code.contracts)
    (args.token code) args.numTokens
  rw [toTestConfig, findContracts_createSteps, hpools]
  simp only [happrovals, Option.bind_eq_bind, Option.bind_some]
  rw [hsteps, hsetup, hspam]
  rfl

end UniV2Args

end Contender
