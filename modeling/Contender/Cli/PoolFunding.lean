import Contender.Cli.UniV2
import Contender.Data.Spending
import Mathlib.Tactic.Ring

/-!
# The funding of the UniV2 pools

What the setup of the UniV2 scenario does to the account that runs it. Its steps are read back
from their texts and executed on the balances of the account: WETH comes from a deposit, and
nothing else is ever paid in.

## Main definitions

* `FunctionCallDefinition.setupCall` — the call that a step's texts spell
* `Account.exec` — what it does to the balances, and to the pairs that exist
* `UniV2Args.SolventComplete` — the setup is covered, and both it and the spam are complete

## Main results

* `UniV2Args.toTestConfig_solventComplete` — so it is for every number of tokens
-/

namespace Contender

open Spending

/-! ### Reading the steps -/

/-- The name between braces. -/
def readPlaceholder : Text → Option Text
  | '{' :: rest => if rest.getLast? = some '}' then some rest.dropLast else none
  | _ => none

@[simp] theorem readPlaceholder_templateName (contract : CompiledContract) :
    readPlaceholder contract.templateName = some contract.name := by
  simp [CompiledContract.templateName, placeholder, readPlaceholder]

def readDecimal (text : Text) : Option ℕ :=
  if !text.isEmpty && text.all Char.isDigit then some (Nat.ofDigitChars 10 text 0) else none

@[simp] theorem readDecimal_decimal (n : ℕ) : readDecimal n.decimal = some n := by
  have hne : n.decimal ≠ [] := Nat.toDigits_ne_nil
  have hdigits : n.decimal.all Char.isDigit :=
    List.all_eq_true.mpr fun c hc => Nat.isDigit_of_mem_decimal hc
  have hvalue : Nat.ofDigitChars 10 n.decimal 0 = n := by
    simp [Nat.decimal, Nat.ofDigitChars_toDigits]
  simp [readDecimal, hne, hdigits, hvalue]

/-- The calls of a setup. -/
inductive SetupCall
  | deposit (token : Text) (value : ℕ)
  | approve (token spender : Text) (amount : ℕ)
  | transfer (token recipient : Text) (amount : ℕ)
  | createPair (tokenA tokenB : Text)
  | addLiquidity (tokenA tokenB : Text) (amountA amountB : ℕ)
  deriving DecidableEq, Repr

/-- The call of a function of a contract. Pairs are created by the factory, and liquidity is added
through the router. -/
def SetupCall.read (contract sig : Text) (value : Option Text) : List Text → Option SetupCall
  | [] =>
    if sig = "deposit()".toList then do return .deposit contract (← readDecimal (← value))
    else none
  | [a, b] =>
    if sig = "approve(address,uint256)".toList then do
      return .approve contract (← readPlaceholder a) (← readDecimal b)
    else if sig = "transfer(address,uint256)".toList then do
      return .transfer contract (← readPlaceholder a) (← readDecimal b)
    else if sig = "createPair(address,address)".toList ∧ contract = "uniV2Factory".toList then do
      return .createPair (← readPlaceholder a) (← readPlaceholder b)
    else none
  | [a, b, amountA, amountB, _, _, _, _] =>
    if sig =
        "addLiquidity(address,address,uint256,uint256,uint256,uint256,address,uint256)".toList ∧
        contract = "uniRouterV2".toList then do
      return .addLiquidity (← readPlaceholder a) (← readPlaceholder b) (← readDecimal amountA)
        (← readDecimal amountB)
    else none
  | _ => none

/-- The tokens that a swap gives and takes. Only the trading contract swaps. -/
def readSwap (contract sig : Text) : List Text → Option (Text × Text)
  | [a, b, _] =>
    if sig = "swap(address,address,uint256)".toList ∧ contract = "unicheat".toList then do
      return (← readPlaceholder a, ← readPlaceholder b)
    else none
  | _ => none

namespace FunctionCallDefinition

variable {call : FunctionCallDefinition} {contract : CompiledContract} {sig : Text}
  {args : List Text}

variable (call) in
/-- The call that the texts of a step spell. -/
def setupCall : Option SetupCall := do
  let contract ← readPlaceholder call.toAddr
  let sig ← call.signature
  SetupCall.read contract sig call.value (call.args.getD [])

variable (call) in
/-- The tokens that a step swaps. -/
def swapPair : Option (Text × Text) := do
  let contract ← readPlaceholder call.toAddr
  let sig ← call.signature
  readSwap contract sig (call.args.getD [])

theorem setupCall_eq (hto : call.toAddr = contract.templateName) (hsig : call.signature = some sig)
    (hargs : call.args.getD [] = args) :
    call.setupCall = SetupCall.read contract.name sig call.value args := by
  rw [setupCall, hto, hsig, hargs, readPlaceholder_templateName]
  rfl

theorem swapPair_eq (hto : call.toAddr = contract.templateName) (hsig : call.signature = some sig)
    (hargs : call.args.getD [] = args) : call.swapPair = readSwap contract.name sig args := by
  rw [swapPair, hto, hsig, hargs, readPlaceholder_templateName]
  rfl

end FunctionCallDefinition

def SpamRequest.swapPair : SpamRequest → Option (Text × Text)
  | .tx call => call.swapPair
  | .bundle _ => none

section Reading

theorem toList_ne {s t : String} (h : s ≠ t) : s.toList ≠ t.toList :=
  fun heq => h (String.toList_inj.mp heq)

variable (code : UniV2Bytecode) (token other : CompiledContract)

theorem setupCall_deposit (value : U256) :
    (token.deposit value).setupCall = some (.deposit token.name value.toNat) := by
  have hread : (token.deposit value).setupCall =
      SetupCall.read token.name "deposit()".toList (some value.toNat.decimal) [] :=
    FunctionCallDefinition.setupCall_eq rfl rfl rfl
  rw [hread, SetupCall.read, if_pos rfl, Option.bind_eq_bind, Option.bind_some, readDecimal_decimal]
  rfl

theorem setupCall_approveMax :
    (token.approveMax other).setupCall = some (.approve token.name other.name (2 ^ 256 - 1)) := by
  have hread : (token.approveMax other).setupCall =
      SetupCall.read token.name "approve(address,uint256)".toList none
        [other.templateName, (2 ^ 256 - 1 : ℕ).decimal] :=
    FunctionCallDefinition.setupCall_eq rfl rfl rfl
  rw [hread, SetupCall.read, if_pos rfl, readPlaceholder_templateName, readDecimal_decimal]
  rfl

theorem setupCall_transfer (amount : U256) :
    (token.transfer other amount).setupCall =
      some (.transfer token.name other.name amount.toNat) := by
  have hread : (token.transfer other amount).setupCall =
      SetupCall.read token.name "transfer(address,uint256)".toList none
        [other.templateName, amount.toNat.decimal] :=
    FunctionCallDefinition.setupCall_eq rfl rfl rfl
  rw [hread, SetupCall.read, if_neg (toList_ne (by decide)), if_pos rfl,
    readPlaceholder_templateName, readDecimal_decimal]
  rfl

theorem setupCall_createPair :
    (code.contracts.createPair token other).setupCall =
      some (.createPair token.name other.name) := by
  have hread : (code.contracts.createPair token other).setupCall =
      SetupCall.read code.contracts.univ2Factory.name "createPair(address,address)".toList none
        [token.templateName, other.templateName] :=
    FunctionCallDefinition.setupCall_eq rfl rfl rfl
  have hname : code.contracts.univ2Factory.name = "uniV2Factory".toList := by
    rw [UniV2Bytecode.contracts]
  rw [hread, SetupCall.read, if_neg (toList_ne (by decide)), if_neg (toList_ne (by decide)),
    if_pos ⟨rfl, hname⟩, readPlaceholder_templateName, readPlaceholder_templateName]
  rfl

theorem setupCall_addLiquidity (now : ℕ) (amountA amountB : U256) :
    (code.contracts.addLiquidity token other now amountA amountB).setupCall =
      some (.addLiquidity token.name other.name amountA.toNat amountB.toNat) := by
  have hread : (code.contracts.addLiquidity token other now amountA amountB).setupCall =
      SetupCall.read code.contracts.uniRouterV2.name
        "addLiquidity(address,address,uint256,uint256,uint256,uint256,address,uint256)".toList none
        [token.templateName, other.templateName, amountA.toNat.decimal, amountB.toNat.decimal,
          (amountA / 100#256).toNat.decimal, (amountB / 100#256).toNat.decimal, "{_sender}".toList,
          (now + 600).decimal] :=
    FunctionCallDefinition.setupCall_eq rfl rfl rfl
  have hname : code.contracts.uniRouterV2.name = "uniRouterV2".toList := by
    rw [UniV2Bytecode.contracts]
  rw [hread, SetupCall.read, if_pos ⟨rfl, hname⟩, readPlaceholder_templateName,
    readPlaceholder_templateName, readDecimal_decimal, readDecimal_decimal]
  rfl

theorem swapPair_swap (amount : U256) :
    (code.contracts.swap token other amount).swapPair = some (token.name, other.name) := by
  have hread : (code.contracts.swap token other amount).swapPair =
      readSwap code.contracts.unicheat.name "swap(address,address,uint256)".toList
        [token.templateName, other.templateName, amount.toNat.decimal] :=
    FunctionCallDefinition.swapPair_eq rfl rfl rfl
  have hname : code.contracts.unicheat.name = "unicheat".toList := by rw [UniV2Bytecode.contracts]
  rw [hread, readSwap, if_pos ⟨rfl, hname⟩, readPlaceholder_templateName,
    readPlaceholder_templateName]
  rfl

end Reading

/-! ### Executing the setup -/

/-- What an account holds of every token, and the pairs that exist. -/
structure Account where
  balance : Text → ℕ
  pairs : List (Sym2 Text)

namespace Account

/-- The account pays debits one after the other, if its balances cover them. -/
def pay (account : Account) (debits : List (Text × ℕ)) : Option Account := do
  let balance ← debits.foldlM withdraw account.balance
  return { account with balance := balance }

/-- A call of a setup. A pair is created once, between two tokens. Liquidity is taken in the amounts
desired, as it is for a pair that has none yet. The router would create a missing pair, which
counts as a failure here. -/
def exec (account : Account) : SetupCall → Option Account
  | .deposit token value =>
    let balance := Function.update account.balance token (account.balance token + value)
    some { account with balance := balance }
  | .approve _ _ _ => some account
  | .transfer token _ amount => account.pay [(token, amount)]
  | .createPair tokenA tokenB =>
    if tokenA ≠ tokenB ∧ s(tokenA, tokenB) ∉ account.pairs then
      some { account with pairs := s(tokenA, tokenB) :: account.pairs }
    else none
  | .addLiquidity tokenA tokenB amountA amountB =>
    if s(tokenA, tokenB) ∈ account.pairs then account.pay [(tokenA, amountA), (tokenB, amountB)]
    else none

/-- The calls in order. -/
def run (account : Account) (calls : List SetupCall) : Option Account := calls.foldlM exec account

theorem pay_eq_some (account : Account) {left : Text → ℕ} {debits : List (Text × ℕ)}
    (h : ∀ token, account.balance token = left token + spent debits token) :
    account.pay debits = some { account with balance := left } := by
  have hleft := foldlM_withdraw_eq_some_iff.mpr h
  rw [pay, hleft]
  rfl

theorem run_append (account : Account) (calls calls' : List SetupCall) :
    account.run (calls ++ calls') = (account.run calls).bind fun account => account.run calls' :=
  List.foldlM_append

end Account

/-- The pair that a call creates. -/
def SetupCall.created : SetupCall → Option (Sym2 Text)
  | .createPair tokenA tokenB => some s(tokenA, tokenB)
  | _ => none

/-- The pair that a call adds liquidity to. -/
def SetupCall.funded : SetupCall → Option (Sym2 Text)
  | .addLiquidity tokenA tokenB _ _ => some s(tokenA, tokenB)
  | _ => none

/-- What the setup is for: pools are opened, and tokens are handed on. -/
inductive FundingStep
  | openPool (tokenA tokenB : Text) (amountA amountB : ℕ)
  | fund (token recipient : Text) (amount : ℕ)

namespace FundingStep

def calls : FundingStep → List SetupCall
  | .openPool tokenA tokenB amountA amountB =>
    [.createPair tokenA tokenB, .addLiquidity tokenA tokenB amountA amountB]
  | .fund token recipient amount => [.transfer token recipient amount]

def debits : FundingStep → List (Text × ℕ)
  | .openPool tokenA tokenB amountA amountB => [(tokenA, amountA), (tokenB, amountB)]
  | .fund token _ amount => [(token, amount)]

def opened : FundingStep → Option (Sym2 Text)
  | .openPool tokenA tokenB _ _ => some s(tokenA, tokenB)
  | .fund _ _ _ => none

end FundingStep

namespace Account

variable {account : Account} {left : Text → ℕ}

/-- A step that opens a new pool, or hands a token on, is carried out if it is covered. -/
theorem run_calls {step : FundingStep}
    (hnew : ∀ pair ∈ step.opened, pair ∉ account.pairs ∧ ¬pair.IsDiag)
    (hcovered : ∀ token, account.balance token = left token + spent step.debits token) :
    account.run step.calls =
      some { balance := left, pairs := step.opened.toList ++ account.pairs } := by
  cases step with
  | fund token recipient amount =>
    have hpay := pay_eq_some account hcovered
    simp only [FundingStep.debits] at hpay
    simp [run, FundingStep.calls, exec, hpay, FundingStep.opened]
  | openPool tokenA tokenB amountA amountB =>
    obtain ⟨hpair, hne⟩ := hnew s(tokenA, tokenB) rfl
    rw [Sym2.mk_isDiag_iff] at hne
    have hpay := pay_eq_some { account with pairs := s(tokenA, tokenB) :: account.pairs } hcovered
    simp only [FundingStep.debits] at hpay
    simp [run, FundingStep.calls, exec, hpay, hpair, hne, FundingStep.opened]

/-- The steps of a setup are carried out one after the other if no pair is opened twice and
everything they spend is there at the start. -/
theorem run_flatMap_calls {steps : List FundingStep}
    (hnodup : (steps.filterMap FundingStep.opened).Nodup)
    (hnew : ∀ pair ∈ steps.filterMap FundingStep.opened, pair ∉ account.pairs ∧ ¬pair.IsDiag)
    (hcovered : ∀ token, account.balance token =
      left token + spent (steps.flatMap FundingStep.debits) token) :
    account.run (steps.flatMap FundingStep.calls) = some {
      balance := left
      pairs := (steps.filterMap FundingStep.opened).reverse ++ account.pairs } := by
  induction steps generalizing account with
  | nil =>
    have hleft : account.balance = left := funext hcovered
    rw [← hleft]
    rfl
  | cons step steps ih =>
    have hfirst : account.run step.calls = some {
        balance := fun token => left token + spent (steps.flatMap FundingStep.debits) token
        pairs := step.opened.toList ++ account.pairs } := by
      refine run_calls (fun pair hpair => hnew pair ?_) fun token => ?_
      · exact List.mem_filterMap.mpr ⟨step, List.mem_cons_self, hpair⟩
      · rw [hcovered token, List.flatMap_cons, spent_append]
        omega
    have hcons : (step :: steps).filterMap FundingStep.opened =
        step.opened.toList ++ steps.filterMap FundingStep.opened := by
      cases hopened : step.opened <;> simp [hopened]
    rw [hcons] at hnodup hnew ⊢
    obtain ⟨-, hrest, hdisjoint⟩ := List.nodup_append.mp hnodup
    rw [List.flatMap_cons, run_append, hfirst, Option.bind_some, ih hrest ?_ fun _ => rfl]
    · have hreverse : step.opened.toList.reverse = step.opened.toList := by
        cases step.opened <;> rfl
      rw [List.reverse_append, hreverse, List.append_assoc]
    · intro pair hpair
      obtain ⟨hold, hdiag⟩ := hnew pair (List.mem_append_right _ hpair)
      refine ⟨fun hmem => ?_, hdiag⟩
      rcases List.mem_append.mp hmem with hmem | hmem
      · exact hdisjoint pair hmem pair hpair rfl
      · exact hold hmem

end Account

/-! ### The plan of the setup -/

namespace FundingStep

variable (hub recipient : Text) (hubAmount poolAmount fundAmount : ℕ)

/-- A token gets a pool with the hub and one with each of the tokens after it, and what is left is
handed on. -/
def forToken (token : Text) (rest : List Text) : List FundingStep :=
  .openPool hub token hubAmount poolAmount ::
    (rest.map fun other => .openPool token other poolAmount poolAmount) ++
    [.fund token recipient fundAmount]

def forTokens : List Text → List FundingStep :=
  List.flatMapRest (forToken hub recipient hubAmount poolAmount fundAmount)

theorem opened_forTokens (tokens : List Text) :
    (forTokens hub recipient hubAmount poolAmount fundAmount tokens).filterMap opened =
      (List.pairings hub tokens).unordered := by
  rw [forTokens, List.filterMap_flatMapRest, List.unordered, List.pairings, List.map_flatMapRest]
  congr 1
  funext token rest
  simp [forToken, opened, List.filterMap_map, Function.comp_def]

theorem spent_pools (token asset : Text) (rest : List Text) :
    spent ((rest.map fun other => openPool token other poolAmount poolAmount).flatMap debits)
      asset = (if token = asset then poolAmount * rest.length else 0) +
        poolAmount * rest.count asset := by
  induction rest with
  | nil => simp
  | cons other rest ih =>
    rw [List.map_cons, List.flatMap_cons, spent_append, ih, List.count_cons]
    by_cases htoken : token = asset <;> by_cases hother : other = asset <;>
      simp [debits, htoken, hother] <;> ring

/-- What the tokens' pools and the handing on take of an asset: each token is in a pool with every
other one and with the hub. -/
theorem spent_forTokens (asset : Text) (tokens : List Text) :
    spent ((forTokens hub recipient hubAmount poolAmount fundAmount tokens).flatMap debits) asset =
      (if hub = asset then hubAmount * tokens.length else 0) +
        tokens.count asset * (poolAmount * tokens.length + fundAmount) := by
  induction tokens with
  | nil => simp [forTokens, List.flatMapRest]
  | cons token rest ih =>
    have hfirst : spent ((forToken hub recipient hubAmount poolAmount fundAmount token
        rest).flatMap debits) asset =
          (if hub = asset then hubAmount else 0) + poolAmount * rest.count asset +
            if token = asset then poolAmount * (rest.length + 1) + fundAmount else 0 := by
      rw [forToken, List.flatMap_append, List.flatMap_cons, spent_append, spent_append,
        spent_pools]
      by_cases hhub : hub = asset <;> by_cases htoken : token = asset <;>
        simp [debits, hhub, htoken] <;> ring
    change spent ((_ ++ forTokens hub recipient hubAmount poolAmount fundAmount rest).flatMap
      debits) asset = _
    rw [List.flatMap_append, spent_append, hfirst, ih, List.count_cons, List.length_cons]
    by_cases hhub : hub = asset <;> by_cases htoken : token = asset <;>
      simp [hhub, htoken] <;> ring

end FundingStep

/-! ### The pairs of a run -/

namespace Account

variable {account account' : Account}

theorem pairs_of_pay {debits : List (Text × ℕ)} (h : account.pay debits = some account') :
    account'.pairs = account.pairs := by
  rw [pay, Option.bind_eq_bind, Option.bind_eq_some_iff] at h
  obtain ⟨balance, -, h⟩ := h
  rw [← Option.some.inj h]

theorem pairs_of_exec {call : SetupCall} (h : account.exec call = some account') :
    account'.pairs = call.created.toList ++ account.pairs := by
  cases call with
  | deposit token value =>
    rw [← Option.some.inj h]
    rfl
  | approve token spender amount =>
    rw [← Option.some.inj h]
    rfl
  | transfer token recipient amount => exact pairs_of_pay h
  | createPair tokenA tokenB =>
    rw [exec] at h
    split_ifs at h
    rw [← Option.some.inj h]
    rfl
  | addLiquidity tokenA tokenB amountA amountB =>
    rw [exec] at h
    split_ifs at h
    exact pairs_of_pay h

/-- The pairs after a run are those that it created, and those before it. -/
theorem pairs_of_run {calls : List SetupCall} (h : account.run calls = some account') :
    account'.pairs = (calls.filterMap SetupCall.created).reverse ++ account.pairs := by
  induction calls generalizing account with
  | nil =>
    rw [← Option.some.inj h]
    rfl
  | cons call calls ih =>
    rw [run, List.foldlM_cons, Option.bind_eq_bind, Option.bind_eq_some_iff] at h
    obtain ⟨mid, hexec, hrun⟩ := h
    rw [ih hrun, pairs_of_exec hexec]
    cases hcreated : call.created <;> simp [hcreated]

/-- Liquidity is added to a pair that exists, or was created before. -/
theorem created_of_run {before after : List SetupCall} {tokenA tokenB : Text}
    {amountA amountB : ℕ}
    (h : account.run (before ++ .addLiquidity tokenA tokenB amountA amountB :: after) =
      some account') :
    s(tokenA, tokenB) ∈ before.filterMap SetupCall.created ∨
      s(tokenA, tokenB) ∈ account.pairs := by
  rw [run_append, Option.bind_eq_some_iff] at h
  obtain ⟨mid, hbefore, hafter⟩ := h
  have hmem : s(tokenA, tokenB) ∈ mid.pairs := by
    by_contra hnot
    simp [run, exec, hnot] at hafter
  rw [pairs_of_run hbefore, List.mem_append, List.mem_reverse] at hmem
  exact hmem

theorem run_approvals (tokens : List Text) (spender : Text) (amount : ℕ) :
    account.run (tokens.map fun token => .approve token spender amount) = some account := by
  induction tokens with
  | nil => rfl
  | cons token tokens ih => exact ih

end Account

/-- What is read off the calls that open a pool can be read off the steps. -/
theorem FundingStep.filterMap_calls {f : SetupCall → Option (Sym2 Text)}
    (h : ∀ step : FundingStep, step.calls.filterMap f = step.opened.toList)
    (steps : List FundingStep) : (steps.flatMap calls).filterMap f = steps.filterMap opened := by
  induction steps with
  | nil => rfl
  | cons step steps ih =>
    rw [List.flatMap_cons, List.filterMap_append, ih, h]
    cases hopened : step.opened <;> simp [hopened]

/-! ### The scenario -/

namespace UniV2Args

variable (args : UniV2Args)

def tokenNames : List Text :=
  (List.range args.numTokens).map fun i => "testToken".toList ++ (i + 1).decimal

/-- WETH and the test tokens. -/
def assetNames : List Text := "weth".toList :: args.tokenNames

/-- The account holds the supply of every test token, and no pair exists. -/
def startAccount : Account where
  balance token := if token ∈ args.tokenNames then args.initialTokenSupply.toNat else 0
  pairs := []

/-- The setup is solvent: every transfer and every addition of liquidity is covered by what the
account has left, and no WETH is left at the end. The setup and the spam are complete: each
unordered pair is created once, before its liquidity is added once, and each ordered pair is
swapped once. -/
structure SolventComplete (calls : List SetupCall) (swaps : List (Text × Text)) : Prop where
  solvent : ∃ account, args.startAccount.run calls = some account ∧
    account.balance "weth".toList = 0
  createdOnce : ∀ tokenA tokenB, (calls.filterMap SetupCall.created).count s(tokenA, tokenB) =
    if tokenA ≠ tokenB ∧ tokenA ∈ args.assetNames ∧ tokenB ∈ args.assetNames then 1 else 0
  fundedOnce : ∀ tokenA tokenB, (calls.filterMap SetupCall.funded).count s(tokenA, tokenB) =
    if tokenA ≠ tokenB ∧ tokenA ∈ args.assetNames ∧ tokenB ∈ args.assetNames then 1 else 0
  createdFirst : ∀ before after tokenA tokenB amountA amountB,
    calls = before ++ .addLiquidity tokenA tokenB amountA amountB :: after →
      s(tokenA, tokenB) ∈ before.filterMap SetupCall.created
  swappedOnce : ∀ tokenA tokenB, swaps.count (tokenA, tokenB) =
    if tokenA ≠ tokenB ∧ tokenA ∈ args.assetNames ∧ tokenB ∈ args.assetNames then 1 else 0

theorem nodup_assetNames : args.assetNames.Nodup := by
  refine List.nodup_cons.mpr ⟨?_, ?_⟩
  · intro hmem
    obtain ⟨i, -, hname⟩ := List.mem_map.mp hmem
    exact absurd (congrArg List.head? hname) (by simp)
  · refine List.nodup_range.map fun i j hname => ?_
    exact Nat.succ.inj (Nat.decimal_injective (List.append_cancel_left hname))

theorem map_name_tokens (code : UniV2Bytecode) :
    (args.tokens code).map CompiledContract.name = args.tokenNames := by
  simp [tokens, tokenNames, UniV2Bytecode.testTokenContract]

/-! ### What the steps of the scenario spell -/

/-- The calls before the pools are opened. -/
def fundingCalls : List SetupCall :=
  [.deposit "weth".toList (args.wethPerToken.toNat * (args.numTokens + 1)),
    .approve "weth".toList "uniRouterV2".toList (2 ^ 256 - 1),
    .transfer "weth".toList "unicheat".toList args.wethPerToken.toNat] ++
    (args.tokenNames.map fun token => .approve token "uniRouterV2".toList (2 ^ 256 - 1)) ++
    [.approve "weth".toList "uniRouterV2".toList (2 ^ 256 - 1)]

/-- The pools, and what the trading contract is handed. -/
def poolPlan : List FundingStep :=
  FundingStep.forTokens "weth".toList "unicheat".toList args.wethPerToken.toNat
    args.poolAmount.toNat args.liquidityAmount.toNat args.tokenNames

def setupCalls : List SetupCall := args.fundingCalls ++ args.poolPlan.flatMap FundingStep.calls

/-- A step spells a call. -/
def Spells (step : FunctionCallDefinition) (call : SetupCall) : Prop := step.setupCall = some call

variable {args} (code : UniV2Bytecode) (now : Text → Text → ℕ)

theorem spells_openPool (tokenA tokenB : CompiledContract) (amountA amountB : U256) :
    List.Forall₂ Spells (openPool code.contracts now tokenA tokenB amountA amountB)
      (FundingStep.calls
        (.openPool tokenA.name tokenB.name amountA.toNat amountB.toNat)) :=
  .cons (setupCall_createPair code tokenA tokenB) <|
    .cons (setupCall_addLiquidity code tokenA tokenB _ amountA amountB) .nil

theorem spells_tokenSetup (token : CompiledContract) (rest : List CompiledContract) :
    List.Forall₂ Spells (args.tokenSetup code.contracts now token rest)
      ((FundingStep.forToken "weth".toList "unicheat".toList args.wethPerToken.toNat
        args.poolAmount.toNat args.liquidityAmount.toNat token.name
        (rest.map CompiledContract.name)).flatMap FundingStep.calls) := by
  have hpools : List.Forall₂ Spells
      (rest.flatMap fun other =>
        openPool code.contracts now token other args.poolAmount args.poolAmount)
      (((rest.map CompiledContract.name).map fun other => FundingStep.openPool token.name other
        args.poolAmount.toNat args.poolAmount.toNat).flatMap FundingStep.calls) := by
    induction rest with
    | nil => exact .nil
    | cons other rest ih => exact List.rel_append (spells_openPool code now token other _ _) ih
  rw [tokenSetup, FundingStep.forToken, List.flatMap_append, List.flatMap_cons]
  refine List.rel_append (List.rel_append (spells_openPool code now _ token _ _) hpools) ?_
  exact .cons (setupCall_transfer token _ _) .nil

theorem spells_fundingSteps (hn : args.numTokens + 1 < 2 ^ 32)
    (hweth : args.wethPerToken.toNat * (args.numTokens + 1) < 2 ^ 256) :
    List.Forall₂ Spells (args.fundingSteps code.contracts (args.tokens code))
      args.fundingCalls := by
  have hvalue : (args.wethPerToken * BitVec.ofNat 256 (args.numTokens + 1)).toNat =
      args.wethPerToken.toNat * (args.numTokens + 1) := by
    rw [BitVec.toNat_mul, BitVec.toNat_ofNat, Nat.mod_eq_of_lt (hn.trans (by decide)),
      Nat.mod_eq_of_lt hweth]
  have happrovals : List.Forall₂ Spells
      ((args.tokens code).map fun token => token.approveMax code.contracts.uniRouterV2)
      (args.tokenNames.map fun token =>
        SetupCall.approve token "uniRouterV2".toList (2 ^ 256 - 1)) := by
    rw [← args.map_name_tokens code, List.map_map, List.forall₂_map_left_iff,
      List.forall₂_map_right_iff, List.forall₂_same]
    exact fun token _ => setupCall_approveMax token code.contracts.uniRouterV2
  have happrove := setupCall_approveMax code.contracts.weth code.contracts.uniRouterV2
  have hdeposit := setupCall_deposit code.contracts.weth
    (args.wethPerToken * BitVec.ofNat 256 (args.numTokens + 1))
  rw [hvalue] at hdeposit
  refine List.rel_append (List.rel_append ?_ happrovals) (.cons happrove .nil)
  exact .cons hdeposit <| .cons happrove <|
    .cons (setupCall_transfer code.contracts.weth code.contracts.unicheat _) .nil

theorem spells_setup (hn : args.numTokens + 1 < 2 ^ 32)
    (hweth : args.wethPerToken.toNat * (args.numTokens + 1) < 2 ^ 256) :
    List.Forall₂ Spells (args.fundingSteps code.contracts (args.tokens code) ++
      List.flatMapRest (args.tokenSetup code.contracts now) (args.tokens code))
      args.setupCalls := by
  refine List.rel_append (spells_fundingSteps code hn hweth) ?_
  rw [poolPlan, FundingStep.forTokens, List.flatMap_flatMapRest, ← args.map_name_tokens code]
  exact List.forall₂_flatMapRest fun token rest => spells_tokenSetup code now token rest

/-- The swaps in the order of the spam steps. -/
theorem swapPairs_tokenSpam :
    List.Forall₂ (fun call pair => SpamRequest.swapPair call = some pair)
      ((List.flatMapRest (args.tokenSpam code.contracts) (args.tokens code)).map SpamRequest.tx)
      (List.pairings "weth".toList args.tokenNames).bothWays := by
  rw [List.forall₂_map_left_iff, List.bothWays, List.pairings, List.flatMap_flatMapRest,
    ← args.map_name_tokens code]
  refine List.forall₂_flatMapRest fun token rest => ?_
  have hswaps : ∀ (tokenA tokenB : CompiledContract) (amount : U256),
      List.Forall₂ (fun call pair => (SpamRequest.tx call).swapPair = some pair)
        (swaps code.contracts tokenA tokenB amount)
        [(tokenA.name, tokenB.name), (tokenB.name, tokenA.name)] := by
    intro tokenA tokenB amount
    exact .cons (swapPair_swap code tokenA tokenB amount) <|
      .cons (swapPair_swap code tokenB tokenA amount) .nil
  rw [tokenSpam, List.flatMap_cons]
  refine List.rel_append (hswaps _ token _) ?_
  induction rest with
  | nil => exact .nil
  | cons other rest ih => exact List.rel_append (hswaps token other _) ih

/-! ### The funds suffice -/

variable (args) in
/-- The account before the pools are opened: WETH for one share of every token. -/
def fundedAccount : Account where
  balance token := if token = "weth".toList then args.wethPerToken.toNat * args.numTokens
    else args.startAccount.balance token
  pairs := []

theorem weth_notMem_tokenNames : "weth".toList ∉ args.tokenNames :=
  (List.nodup_cons.mp args.nodup_assetNames).1

variable (args) in
theorem run_fundingCalls : args.startAccount.run args.fundingCalls = some args.fundedAccount := by
  have hpay : Account.pay
      { balance := Function.update args.startAccount.balance "weth".toList
          (args.wethPerToken.toNat * (args.numTokens + 1))
        pairs := [] } [("weth".toList, args.wethPerToken.toNat)] = some args.fundedAccount := by
    refine Account.pay_eq_some _ fun token => ?_
    by_cases htoken : token = "weth".toList
    · subst htoken
      simp only [Function.update_self, spent_cons, spent_nil, if_true, Nat.mul_succ, Nat.add_zero]
    · simp only [Function.update_of_ne htoken, spent_cons, spent_nil, if_neg htoken,
        if_neg (Ne.symm htoken), Nat.add_zero]
  have hstart : args.startAccount.balance "weth".toList = 0 := if_neg weth_notMem_tokenNames
  have hfirst : args.startAccount.run
      [.deposit "weth".toList (args.wethPerToken.toNat * (args.numTokens + 1)),
        .approve "weth".toList "uniRouterV2".toList (2 ^ 256 - 1),
        .transfer "weth".toList "unicheat".toList args.wethPerToken.toNat] =
      some args.fundedAccount := by
    simp only [Account.run, Account.exec, List.foldlM_cons, List.foldlM_nil, hstart, Nat.zero_add,
      Option.bind_eq_bind, Option.bind_some]
    exact (Option.bind_fun_some _).trans hpay
  rw [fundingCalls, Account.run_append, Account.run_append, hfirst, Option.bind_some,
    Account.run_approvals]
  rfl

/-- A token's pools take at most half of its supply, and the trading contract the other half. -/
theorem spent_le_supply (hn : args.numTokens + 1 < 2 ^ 32) :
    args.poolAmount.toNat * args.numTokens + args.liquidityAmount.toNat ≤
      args.initialTokenSupply.toNat := by
  have hliquidity : args.liquidityAmount.toNat = args.initialTokenSupply.toNat / 2 := by
    rw [liquidityAmount, BitVec.toNat_udiv]
    rfl
  have hpool : args.poolAmount.toNat = args.liquidityAmount.toNat / (args.numTokens + 1) := by
    rw [poolAmount, BitVec.toNat_udiv, BitVec.toNat_ofNat,
      Nat.mod_eq_of_lt (hn.trans (by decide))]
  have hpools : args.poolAmount.toNat * args.numTokens ≤ args.liquidityAmount.toNat := by
    calc args.poolAmount.toNat * args.numTokens
        ≤ args.poolAmount.toNat * (args.numTokens + 1) := Nat.mul_le_mul_left _ (Nat.le_succ _)
      _ ≤ args.liquidityAmount.toNat := by
        rw [hpool]
        exact Nat.div_mul_le_self _ _
  omega

variable (args) in
/-- What the plan takes of a token: the whole WETH, or the shares of the pools and the part that is
handed on. -/
theorem spent_poolPlan (token : Text) : spent (args.poolPlan.flatMap FundingStep.debits) token =
    if token = "weth".toList then args.wethPerToken.toNat * args.numTokens
    else if token ∈ args.tokenNames then
      args.poolAmount.toNat * args.numTokens + args.liquidityAmount.toNat
    else 0 := by
  have hlength : args.tokenNames.length = args.numTokens := by simp [tokenNames]
  rw [poolPlan, FundingStep.spent_forTokens, hlength,
    (List.nodup_cons.mp args.nodup_assetNames).2.count]
  by_cases hweth : token = "weth".toList
  · subst hweth
    simp only [if_true, if_neg weth_notMem_tokenNames, Nat.zero_mul, Nat.add_zero]
  · by_cases hmem : token ∈ args.tokenNames
    · simp only [if_neg hweth, if_neg (Ne.symm hweth), if_pos hmem, Nat.one_mul, Nat.zero_add]
    · simp only [if_neg hweth, if_neg (Ne.symm hweth), if_neg hmem, Nat.zero_mul, Nat.zero_add]

/-- The pools are opened and the trading contract is funded, and all of the WETH is in the pools. -/
theorem run_setupCalls (hn : args.numTokens + 1 < 2 ^ 32) :
    ∃ account, args.startAccount.run args.setupCalls = some account ∧
      account.balance "weth".toList = 0 := by
  have hnodup := args.nodup_assetNames
  have hcovered : ∀ token, args.fundedAccount.balance token =
      (args.fundedAccount.balance token -
        spent (args.poolPlan.flatMap FundingStep.debits) token) +
        spent (args.poolPlan.flatMap FundingStep.debits) token := by
    intro token
    refine (Nat.sub_add_cancel ?_).symm
    rw [spent_poolPlan]
    simp only [fundedAccount, startAccount]
    have := spent_le_supply hn
    split_ifs <;> omega
  have hsetup : args.startAccount.run args.setupCalls =
      args.fundedAccount.run (args.poolPlan.flatMap FundingStep.calls) := by
    rw [setupCalls, Account.run_append, run_fundingCalls, Option.bind_some]
  have hrun := Account.run_flatMap_calls ?_ ?_ hcovered
  · refine ⟨_, hsetup.trans hrun, ?_⟩
    simp only [spent_poolPlan, fundedAccount, if_true, Nat.sub_self]
  · rw [poolPlan, FundingStep.opened_forTokens]
    exact List.nodup_unordered_pairings hnodup
  · rw [poolPlan, FundingStep.opened_forTokens]
    intro pair hpair
    induction pair with
    | _ tokenA tokenB =>
      have hne := ((List.mem_unordered_pairings hnodup).mp hpair).1
      exact ⟨List.not_mem_nil, by rwa [Sym2.mk_isDiag_iff]⟩

variable (args) in
theorem filterMap_setupCalls {f : SetupCall → Option (Sym2 Text)}
    (h : ∀ step : FundingStep, step.calls.filterMap f = step.opened.toList)
    (happrove : ∀ token spender amount, f (.approve token spender amount) = none)
    (hdeposit : ∀ token amount, f (.deposit token amount) = none)
    (htransfer : ∀ token recipient amount, f (.transfer token recipient amount) = none) :
    args.setupCalls.filterMap f = (List.pairings "weth".toList args.tokenNames).unordered := by
  have happrovals : (args.tokenNames.map fun token =>
      SetupCall.approve token "uniRouterV2".toList (2 ^ 256 - 1)).filterMap f = [] := by
    rw [List.filterMap_map]
    exact List.filterMap_eq_nil_iff.mpr fun token _ => happrove token _ _
  have hfunding : args.fundingCalls.filterMap f = [] := by
    simp only [fundingCalls, List.filterMap_append, happrovals, List.filterMap_cons, hdeposit,
      happrove, htransfer, List.filterMap_nil, List.append_nil]
  rw [setupCalls, List.filterMap_append, hfunding, FundingStep.filterMap_calls h, poolPlan,
    FundingStep.opened_forTokens]
  rfl

/-- For every number of tokens that has a successor, and all amounts for which the deposit fits,
the scenario is built, its steps can be read, and it is solvent and complete. -/
theorem toTestConfig_solventComplete (args : UniV2Args) (code : UniV2Bytecode)
    (now : Text → Text → ℕ) (hn : args.numTokens < 2 ^ 32 - 1)
    (hweth : args.wethPerToken.toNat * (args.numTokens + 1) < 2 ^ 256) :
    ∃ config setup spam calls swaps, args.toTestConfig now code = some config ∧
      config.setup = some setup ∧ setup.mapM FunctionCallDefinition.setupCall = some calls ∧
      config.spam = some spam ∧ spam.mapM SpamRequest.swapPair = some swaps ∧
      args.SolventComplete calls swaps := by
  have hn' : args.numTokens + 1 < 2 ^ 32 := by omega
  have hnodup := args.nodup_assetNames
  obtain ⟨account, hrun, hleft⟩ := run_setupCalls hn'
  refine ⟨_, _, _, args.setupCalls, _, args.toTestConfig_eq code now hn', rfl,
    List.mapM_eq_some_iff.mpr (spells_setup code now hn' hweth), rfl,
    List.mapM_eq_some_iff.mpr (swapPairs_tokenSpam code), ?_⟩
  have hpairs := List.nodup_unordered_pairings hnodup
  have hcreated := args.filterMap_setupCalls (f := SetupCall.created)
    (fun step => by cases step <;> rfl) (fun _ _ _ => rfl) (fun _ _ => rfl) fun _ _ _ => rfl
  have hfunded := args.filterMap_setupCalls (f := SetupCall.funded)
    (fun step => by cases step <;> rfl) (fun _ _ _ => rfl) (fun _ _ => rfl) fun _ _ _ => rfl
  exact {
    solvent := ⟨account, hrun, hleft⟩
    createdOnce := by
      intro tokenA tokenB
      rw [hcreated, hpairs.count]
      simp only [List.mem_unordered_pairings hnodup]
      rfl
    fundedOnce := by
      intro tokenA tokenB
      rw [hfunded, hpairs.count]
      simp only [List.mem_unordered_pairings hnodup]
      rfl
    createdFirst := by
      intro before after tokenA tokenB amountA amountB heq
      rw [heq] at hrun
      rcases Account.created_of_run hrun with hmem | hmem
      · exact hmem
      · cases hmem
    swappedOnce := by
      intro tokenA tokenB
      have hswaps := List.nodup_bothWays hpairs fun p hp => ?_
      · rw [hswaps.count]
        simp only [List.mem_bothWays, List.mem_unordered_pairings hnodup]
        rfl
      · have hmem := List.mem_map_of_mem (f := fun p => s(p.1, p.2)) hp
        exact ((List.mem_unordered_pairings hnodup).mp hmem).1 }

theorem toTestConfig_solventComplete_default :
    ∃ config setup spam calls swaps, (UniV2CliArgs.toArgs {}).toTestConfig (fun _ _ => 1700000000)
        ⟨"0x6060".toList, "0x6080".toList, "0x6080".toList, "0x60c0".toList, "0x6080".toList,
          "0x6080".toList⟩ = some config ∧
      config.setup = some setup ∧ setup.mapM FunctionCallDefinition.setupCall = some calls ∧
      config.spam = some spam ∧ spam.mapM SpamRequest.swapPair = some swaps ∧
      (UniV2CliArgs.toArgs {}).SolventComplete calls swaps :=
  toTestConfig_solventComplete _ _ _ (by decide) (by decide)

end UniV2Args

end Contender
