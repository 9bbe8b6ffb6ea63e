import Contender.Cli.BuiltinScenarios
import Contender.Generator.PlaceholderScope
import Contender.Scenario.DeployContracts

/-!
# The placeholders of the builtin scenarios

The calls of a builtin scenario name their contracts by placeholders, which are looked up in the
database after the contracts have been deployed. A scenario refers to the contracts of its own
create steps only, apart from what the user writes into its arguments.

## Main results

* `BuiltinScenario.wellScoped` — the setup and spam steps of a builtin scenario refer to its own
  contracts and to the special accounts
* `SetCodeArgs.not_wellScoped_fromCliArgs` — the default arguments of setCode do not go with a
  contract of the user's
* `builtin_placeholders_found` — after a deployment that ends well the placeholders of all steps are
  found, and stand for the contracts deployed last
-/

namespace Contender

open SqliteDb (History)

/-- The keys that stand for a special account or for one of these contracts. -/
def OwnKey (names : List Text) (key : Text) : Prop :=
  key = senderKey ∨ key = setcodeKey ∨ key ∈ names

namespace TestConfig

variable (config : TestConfig)

def contractNames : List Text := config.getCreateSteps.map (·.contract.name)

/-- The calls of setup and spam. -/
def calls : List FunctionCallDefinition :=
  config.getSetupSteps ++ config.getSpamSteps.flatMap SpamRequest.calls

/-- The calls refer to no contracts but those of the create steps. -/
def WellScoped : Prop := ∀ call ∈ config.calls, call.ScopedIn (OwnKey config.contractNames)

/-- The calls as they are written down. -/
def ownCalls : List FunctionCallDefinition :=
  config.setup.getD [] ++ (config.spam.getD []).flatMap SpamRequest.calls

end TestConfig

/-! ### The texts of a call -/

section Calls

variable {keys : Text → Prop} {names : List Text} {call : FunctionCallDefinition}
  {contract : CompiledContract} {config : TestConfig}

theorem FunctionCallDefinition.ScopedIn.of_parts
    (hargs : ∀ arg ∈ call.args.getD [], Scoped keys arg) (hfrom : call.fromAddr = none)
    (hto : Scoped keys call.toAddr) (hauth : ∀ auth ∈ call.authorizationAddress, Scoped keys auth) :
    call.ScopedIn keys := by
  intro text htext
  rw [templates, hfrom, Option.toList_none, List.append_nil] at htext
  rcases List.mem_append.mp htext with hfirst | hlast
  · rcases List.mem_append.mp hfirst with harg | haddr
    · exact hargs text harg
    · rw [List.mem_singleton.mp haddr]
      exact hto
  · exact hauth text (Option.mem_toList.mp hlast)

/-- A call that authorizes no contract. -/
theorem FunctionCallDefinition.ScopedIn.of_unauthorized
    (hargs : ∀ arg ∈ call.args.getD [], Scoped keys arg) (hfrom : call.fromAddr = none)
    (hto : Scoped keys call.toAddr) (hauth : call.authorizationAddress = none) :
    call.ScopedIn keys := by
  refine .of_parts hargs hfrom hto fun auth hmem => ?_
  rw [hauth] at hmem
  cases hmem

theorem templates_setDefaultFromPool (name : Text) (call : FunctionCallDefinition) :
    (call.setDefaultFromPool name).templates = call.templates := by
  unfold FunctionCallDefinition.setDefaultFromPool
  split_ifs <;> rfl

theorem TestConfig.contractNames_eq (config : TestConfig) :
    config.contractNames = (config.create.getD []).map (·.contract.name) := by
  rw [contractNames, getCreateSteps, List.map_map]
  refine List.map_congr_left fun create _ => ?_
  rw [Function.comp_apply, CreateDefinition.setDefaultFromPool]
  split_ifs <;> rfl

/-- The default pools change no text. -/
theorem TestConfig.wellScoped_of_ownCalls
    (h : ∀ call ∈ config.ownCalls, call.ScopedIn (OwnKey config.contractNames)) :
    config.WellScoped := by
  have hdefault : ∀ name (call : FunctionCallDefinition), call ∈ config.ownCalls →
      (call.setDefaultFromPool name).ScopedIn (OwnKey config.contractNames) := by
    intro name call hcall text htext
    rw [templates_setDefaultFromPool] at htext
    exact h call hcall text htext
  intro call hcall
  rcases List.mem_append.mp hcall with hsetup | hspam
  · obtain ⟨own, hown, rfl⟩ := List.mem_map.mp hsetup
    exact hdefault _ own (List.mem_append_left _ hown)
  · obtain ⟨step, hstep, hmem⟩ := List.mem_flatMap.mp hspam
    obtain ⟨step, hown, rfl⟩ := List.mem_map.mp hstep
    rw [SpamRequest.calls_mapCalls] at hmem
    obtain ⟨own, hcalls, rfl⟩ := List.mem_map.mp hmem
    exact hdefault _ own (List.mem_append_right _ (List.mem_flatMap.mpr ⟨step, hown, hcalls⟩))

/-- A contract that the scenario deploys, under a name without braces. -/
structure Own (names : List Text) (contract : CompiledContract) : Prop where
  braceFree : BraceFree contract.name
  mem : contract.name ∈ names

theorem Own.scoped (h : Own names contract) : Scoped (OwnKey names) contract.templateName :=
  .placeholder h.braceFree (.inr (.inr h.mem))

theorem scoped_sender : Scoped (OwnKey names) "{_sender}".toList := by
  have hbrace : BraceFree senderKey := by decide
  exact .placeholder hbrace (.inl rfl)

theorem scoped_decimal (n : ℕ) : Scoped keys n.decimal := .of_braceFree (braceFree_decimal n)

/-- A call of such a contract, from an account of a pool. -/
theorem Own.scopedIn (h : Own names contract) (hto : call.toAddr = contract.templateName)
    (hfrom : call.fromAddr = none) (hauth : call.authorizationAddress = none)
    (hargs : ∀ arg ∈ call.args.getD [], Scoped (OwnKey names) arg) :
    call.ScopedIn (OwnKey names) :=
  .of_unauthorized hargs hfrom (hto ▸ h.scoped) hauth

theorem forall_mem_pair {α : Type} {p : α → Prop} {a b : α} (ha : p a) (hb : p b) :
    ∀ x ∈ [a, b], p x :=
  List.forall_mem_cons.mpr ⟨ha, List.forall_mem_singleton.mpr hb⟩

theorem ownCalls_eq_of_spam {calls : List FunctionCallDefinition} (hsetup : config.setup = none)
    (hspam : config.spam = some (calls.map SpamRequest.tx)) : config.ownCalls = calls := by
  rw [TestConfig.ownCalls, hsetup, hspam]
  simp [List.flatMap_map, SpamRequest.calls]

end Calls

/-! ### The scenarios -/

section Scenarios

variable {names : List Text} {code : BuiltinCode} {addressToString : Address → Text}

theorem braceFree_opcode (opcode : EthereumOpcode) : BraceFree opcode.name := by
  cases opcode <;> decide

theorem braceFree_precompile (precompile : EthereumPrecompile) : BraceFree precompile.method := by
  cases precompile <;> decide

/-- The test contract, where it is deployed. -/
theorem own_spamMe (h : "SpamMe5".toList ∈ names) : Own names code.spamMeContract := by
  have hbrace : BraceFree "SpamMe5".toList := by decide
  exact ⟨hbrace, h⟩

theorem scopedIn_opcodeCall (h : "SpamMe5".toList ∈ names) (n : ℕ) (opcode : EthereumOpcode) :
    (opcodeCall code n opcode).ScopedIn (OwnKey names) :=
  (own_spamMe h).scopedIn rfl rfl rfl
    (forall_mem_pair (.of_braceFree (braceFree_opcode opcode)) (scoped_decimal n))

theorem scopedIn_precompileCall (h : "SpamMe5".toList ∈ names) (n : ℕ)
    (precompile : EthereumPrecompile) :
    (precompileCall code n precompile).ScopedIn (OwnKey names) :=
  (own_spamMe h).scopedIn rfl rfl rfl
    (forall_mem_pair (.of_braceFree (braceFree_precompile precompile)) (scoped_decimal n))

theorem StorageStressArgs.scopedIn (args : StorageStressArgs) (h : "SpamMe5".toList ∈ names) :
    ∀ call ∈ (args.toTestConfig code).ownCalls, call.ScopedIn (OwnKey names) := by
  intro call hcall
  obtain rfl := List.mem_singleton.mp hcall
  exact (own_spamMe h).scopedIn rfl rfl rfl
    (forall_mem_pair (scoped_decimal _) (scoped_decimal _))

theorem TransferStressArgs.scopedIn (args : TransferStressArgs)
    (h : Scoped (OwnKey names) args.recipient) :
    ∀ call ∈ args.toTestConfig.ownCalls, call.ScopedIn (OwnKey names) := by
  intro call hcall
  obtain rfl := List.mem_singleton.mp hcall
  exact .of_unauthorized (fun _ harg => absurd harg List.not_mem_nil) rfl h rfl

theorem TransferStressCliArgs.scoped_recipient (args : TransferStressCliArgs)
    (haddr : ∀ address, '{' ∉ addressToString address) :
    Scoped (OwnKey names) (args.toArgs addressToString).recipient := by
  rw [toArgs]
  cases args.recipient with
  | none => exact scoped_sender
  | some address => exact .plain (haddr address)

theorem EthFunctionsArgs.scopedIn (args : EthFunctionsArgs) (h : "SpamMe5".toList ∈ names) :
    ∀ call ∈ (args.toTestConfig code).ownCalls, call.ScopedIn (OwnKey names) := by
  have hspam : (args.toTestConfig code).spam =
      some ((args.precompiles.map (precompileCall code args.numIterations) ++
        args.opcodes.map (opcodeCall code args.numIterations)).map SpamRequest.tx) := by
    rw [List.map_append, List.map_map, List.map_map]
    rfl
  intro call hcall
  rw [ownCalls_eq_of_spam rfl hspam] at hcall
  rcases List.mem_append.mp hcall with hprecompile | hopcode
  · obtain ⟨precompile, -, rfl⟩ := List.mem_map.mp hprecompile
    exact scopedIn_precompileCall h _ precompile
  · obtain ⟨opcode, -, rfl⟩ := List.mem_map.mp hopcode
    exact scopedIn_opcodeCall h _ opcode

namespace StressCliArgs

/-- The calls of the opcodes that fail. -/
theorem scopedIn_consumeGas (h : "SpamMe5".toList ∈ names) {callArgs : List Text}
    (hargs : ∀ arg ∈ callArgs, BraceFree arg) :
    (consumeGas code callArgs).ScopedIn (OwnKey names) :=
  (own_spamMe h).scopedIn rfl rfl rfl fun arg harg => .of_braceFree (hargs arg harg)

theorem scopedIn_failingTxs (args : StressCliArgs) (h : "SpamMe5".toList ∈ names) :
    ∀ step ∈ args.failingTxs code, ∀ call ∈ step.calls, call.ScopedIn (OwnKey names) := by
  intro step hstep call hcall
  simp only [failingTxs, List.mem_ite_nil_right, List.mem_append, List.mem_singleton] at hstep
  obtain ⟨-, (⟨-, rfl⟩ | ⟨-, rfl⟩) | ⟨-, rfl⟩⟩ := hstep
  · obtain rfl := List.mem_singleton.mp hcall
    exact scopedIn_consumeGas h (by decide)
  · obtain rfl := List.mem_singleton.mp hcall
    exact scopedIn_consumeGas h (by decide)
  · obtain rfl := List.mem_singleton.mp hcall
    exact scopedIn_consumeGas h (by decide)

theorem scopedIn_ethFunctionsConfig (args : StressCliArgs) (h : "SpamMe5".toList ∈ names) :
    ∀ call ∈ (args.ethFunctionsConfig code).ownCalls, call.ScopedIn (OwnKey names) := by
  intro call hcall
  obtain ⟨step, hstep, hmem⟩ := List.mem_flatMap.mp hcall
  rcases List.mem_append.mp hstep with hestimated | hfailing
  · exact EthFunctionsArgs.scopedIn ⟨args.opcodes, args.precompiles, args.opcodeIterations⟩ h call
      (List.mem_flatMap.mpr ⟨step, hestimated, hmem⟩)
  · exact args.scopedIn_failingTxs h step hfailing call hmem

theorem scopedIn (args : StressCliArgs) (haddr : ∀ address, '{' ∉ addressToString address)
    (h : "SpamMe5".toList ∈ names) :
    ∀ call ∈ (args.toTestConfig code addressToString).ownCalls,
      call.ScopedIn (OwnKey names) := by
  intro call hcall
  obtain ⟨step, hstep, hmem⟩ := List.mem_flatMap.mp hcall
  obtain ⟨config, hconfig, hspam⟩ := List.mem_flatMap.mp hstep
  have hown : call ∈ config.ownCalls :=
    List.mem_append_right _ (List.mem_flatMap.mpr ⟨step, hspam, hmem⟩)
  simp only [configs, List.mem_ite_nil_left, List.mem_append, List.mem_singleton] at hconfig
  obtain (⟨-, rfl⟩ | ⟨-, rfl⟩) | rfl := hconfig
  · exact args.storage.toArgs.scopedIn h call hown
  · exact (args.transfers.toArgs addressToString).scopedIn
      (args.transfers.scoped_recipient haddr) call hown
  · exact args.scopedIn_ethFunctionsConfig h call hown

end StressCliArgs

theorem FillBlockArgs.toTestConfig_eq_some (args : FillBlockArgs) {config : TestConfig}
    (hconfig : args.toTestConfig code = some config) :
    config.create = some [.deployFromAdmin code.spamMeContract] ∧
      config.ownCalls = List.replicate args.numTxs (args.fillCall code) := by
  rw [toTestConfig] at hconfig
  split_ifs at hconfig
  obtain rfl := Option.some.inj hconfig
  exact ⟨rfl, ownCalls_eq_of_spam rfl (by rw [List.map_replicate])⟩

theorem FillBlockArgs.scopedIn (args : FillBlockArgs) (h : "SpamMe5".toList ∈ names) :
    (args.fillCall code).ScopedIn (OwnKey names) :=
  (own_spamMe h).scopedIn rfl rfl rfl fun _ harg => absurd harg List.not_mem_nil

theorem RevertCliArgs.toTestConfig_eq_some (args : RevertCliArgs) {config : TestConfig}
    (hconfig : args.toTestConfig code = some config) :
    config.create = some [.deployFromAdmin code.spamMe6Contract] ∧
      ∀ call ∈ config.ownCalls, call.toAddr = code.spamMe6Contract.templateName ∧
        call.fromAddr = none ∧ call.authorizationAddress = none ∧
          call.args = some [args.gasUse.decimal] := by
  rw [toTestConfig] at hconfig
  generalize addU64 args.gasUse 35000 = limit at hconfig
  cases limit with
  | none => cases hconfig
  | some gasLimit =>
    obtain rfl := Option.some.inj hconfig
    exact ⟨rfl, List.forall_mem_singleton.mpr ⟨rfl, rfl, rfl, rfl⟩⟩

theorem RevertCliArgs.scopedIn (args : RevertCliArgs) {config : TestConfig}
    (hconfig : args.toTestConfig code = some config) (h : "SpamMe6".toList ∈ names) :
    ∀ call ∈ config.ownCalls, call.ScopedIn (OwnKey names) := by
  intro call hcall
  have hbrace : BraceFree "SpamMe6".toList := by decide
  have hown : Own names code.spamMe6Contract := ⟨hbrace, h⟩
  obtain ⟨hto, hfrom, hauth, hargs⟩ := (args.toTestConfig_eq_some hconfig).2 call hcall
  refine hown.scopedIn hto hfrom hauth ?_
  rw [hargs]
  exact List.forall_mem_singleton.mpr (scoped_decimal _)

theorem BlobsCliArgs.scopedIn (args : BlobsCliArgs)
    (h : ∀ text ∈ args.recipient, Scoped (OwnKey names) text) :
    ∀ call ∈ args.toTestConfig.ownCalls, call.ScopedIn (OwnKey names) := by
  intro call hcall
  obtain rfl := List.mem_singleton.mp hcall
  refine .of_unauthorized (fun _ harg => absurd harg List.not_mem_nil) rfl ?_ rfl
  change Scoped (OwnKey names) (args.recipient.getD "{_sender}".toList)
  cases hrecipient : args.recipient with
  | none => exact scoped_sender
  | some text => exact h text hrecipient

theorem SetCodeArgs.scopedIn (args : SetCodeArgs)
    (hargs : ∀ text ∈ args.args, Scoped (OwnKey names) text)
    (hsigner : Scoped (OwnKey names) args.signerAddress)
    (hcontract : ∀ text ∈ args.contractAddress, Scoped (OwnKey names) text)
    (h : args.contractAddress = none → "SmartWallet".toList ∈ names) :
    ∀ call ∈ (args.toTestConfig code).ownCalls, call.ScopedIn (OwnKey names) := by
  intro call hcall
  obtain rfl := List.mem_singleton.mp hcall
  refine .of_parts hargs rfl hsigner fun auth hauth => ?_
  obtain rfl := Option.some.inj hauth
  cases haddress : args.contractAddress with
  | none =>
    have hbrace : BraceFree "SmartWallet".toList := by decide
    exact .placeholder hbrace (.inr (.inr (h haddress)))
  | some text => exact hcontract text haddress

/-- The default arguments mention the counter. -/
theorem scoped_defaultArgs_iff :
    Scoped (OwnKey names) defaultArgs ↔ "Counter".toList ∈ names := by
  have hkey : BraceFree "Counter".toList := by decide
  constructor
  · intro h
    have hin : placeholder "Counter".toList <:+: defaultArgs := by decide
    have hspecial : "Counter".toList ≠ senderKey ∧ "Counter".toList ≠ setcodeKey := by decide
    exact ((h.known_of_within hkey hin).resolve_left hspecial.1).resolve_left hspecial.2
  · intro h
    have hsplit : defaultArgs =
        "[(0x".toList ++ '{' :: ("Counter".toList ++ '}' :: ",0,0xd09de08a)]".toList) := by decide
    have hgap : BraceFree "[(0x".toList := by decide
    have hrest : '{' ∉ ",0,0xd09de08a)]".toList := by decide
    rw [hsplit]
    exact .group hgap hkey (.inr (.inr h)) (.plain hrest)

/-- With a contract of the user's, nothing deploys the counter of the default arguments. -/
theorem SetCodeArgs.not_wellScoped_fromCliArgs (address : Text) (signature : Option Text) :
    ¬((SetCodeArgs.fromCliArgs (some address) signature none).toTestConfig code).WellScoped := by
  intro h
  have hcall := h _ List.mem_cons_self defaultArgs
  rw [templates_setDefaultFromPool] at hcall
  have hscoped := scoped_defaultArgs_iff.mp (hcall List.mem_cons_self)
  exact absurd hscoped List.not_mem_nil

theorem CustomContractArgs.scopedIn (args : CustomContractArgs)
    (hargs : ∀ text ∈ (args.setup ++ args.spam).flatMap (·.args.getD []),
      Scoped (OwnKey names) text) (h : args.contract.name ∈ names) :
    ∀ call ∈ args.toTestConfig.ownCalls, call.ScopedIn (OwnKey names) := by
  intro call hcall
  have hmem : call ∈ args.setup ++ args.spam := by
    rcases List.mem_append.mp hcall with hsetup | hspam
    · exact List.mem_append_left _ hsetup
    · obtain ⟨step, hstep, hin⟩ := List.mem_flatMap.mp hspam
      obtain ⟨own, hown, rfl⟩ := List.mem_map.mp hstep
      obtain rfl := List.mem_singleton.mp hin
      exact List.mem_append_right _ hown
  have hown : Own names args.contract := ⟨args.braceFree_name, h⟩
  obtain ⟨parsed, signature, rfl⟩ := args.callsContract call hmem
  refine hown.scopedIn rfl rfl rfl fun arg harg => ?_
  exact hargs arg (List.mem_flatMap.mpr ⟨_, hmem, harg⟩)

theorem Erc20Args.scopedIn (args : Erc20Args) (testTokenHex : Text)
    (haddr : ∀ address, '{' ∉ addressToString address)
    (hrecipient : ∀ text ∈ args.tokenRecipient, Scoped (OwnKey names) text)
    (h : "testToken0".toList ∈ names) :
    ∀ call ∈ (args.toTestConfig testTokenHex addressToString).ownCalls,
      call.ScopedIn (OwnKey names) := by
  have hbrace : BraceFree "testToken0".toList := by decide
  have hown : Own names (token testTokenHex) := ⟨hbrace, h⟩
  intro call hcall
  rcases List.mem_append.mp hcall with hsetup | hspam
  · obtain ⟨recipient, -, rfl⟩ := List.mem_map.mp hsetup
    exact hown.scopedIn rfl rfl rfl (forall_mem_pair (.plain (haddr recipient)) (scoped_decimal _))
  · obtain rfl := List.mem_singleton.mp hspam
    refine hown.scopedIn rfl rfl rfl (forall_mem_pair ?_ (scoped_decimal _))
    cases hgiven : args.tokenRecipient with
    | none =>
      have hzero : BraceFree ("0x".toList ++ List.replicate 40 '0') := by decide
      exact .of_braceFree hzero
    | some text => exact hrecipient text hgiven

/-! ### Uniswap -/

/-- The contracts of the file are deployed. -/
structure UniV2Contracts.Owned (names : List Text) (c : UniV2Contracts) : Prop where
  weth : Own names c.weth
  univ2Factory : Own names c.univ2Factory
  uniRouterV2 : Own names c.uniRouterV2
  unicheat : Own names c.unicheat

variable {c : UniV2Contracts} {token tokenA tokenB : CompiledContract}

theorem Own.transfer (h : Own names token) {recipient : CompiledContract}
    (hrecipient : Own names recipient) (amount : U256) :
    (token.transfer recipient amount).ScopedIn (OwnKey names) :=
  h.scopedIn rfl rfl rfl (forall_mem_pair hrecipient.scoped (scoped_decimal _))

theorem Own.approveMax (h : Own names token) {spender : CompiledContract}
    (hspender : Own names spender) : (token.approveMax spender).ScopedIn (OwnKey names) :=
  h.scopedIn rfl rfl rfl (forall_mem_pair hspender.scoped (scoped_decimal _))

theorem Own.deposit (h : Own names token) (value : U256) :
    (token.deposit value).ScopedIn (OwnKey names) :=
  h.scopedIn rfl rfl rfl fun _ harg => absurd harg List.not_mem_nil

namespace UniV2Contracts.Owned

variable (h : c.Owned names) (ha : Own names tokenA) (hb : Own names tokenB)
include h ha hb

theorem openPool (now : Text → Text → ℕ) (amountA amountB : U256) :
    ∀ call ∈ UniV2Args.openPool c now tokenA tokenB amountA amountB,
      call.ScopedIn (OwnKey names) := by
  rw [UniV2Args.openPool]
  refine forall_mem_pair ?_ ?_
  · exact h.univ2Factory.scopedIn rfl rfl rfl (forall_mem_pair ha.scoped hb.scoped)
  · refine h.uniRouterV2.scopedIn rfl rfl rfl fun arg harg => ?_
    simp only [UniV2Contracts.addLiquidity, FunctionCallDefinition.withGasLimit,
      FunctionCallDefinition.withArgs, Option.getD_some, List.mem_cons, List.not_mem_nil,
      or_false] at harg
    rcases harg with rfl | rfl | rfl | rfl | rfl | rfl | rfl | rfl
    · exact ha.scoped
    · exact hb.scoped
    · exact scoped_decimal _
    · exact scoped_decimal _
    · exact scoped_decimal _
    · exact scoped_decimal _
    · exact scoped_sender
    · exact scoped_decimal _

theorem swap (amount : U256) : (c.swap tokenA tokenB amount).ScopedIn (OwnKey names) := by
  refine h.unicheat.scopedIn rfl rfl rfl fun arg harg => ?_
  rcases List.mem_cons.mp harg with rfl | htail
  · exact ha.scoped
  · exact forall_mem_pair hb.scoped (scoped_decimal _) arg htail

theorem swaps (amount : U256) :
    ∀ call ∈ UniV2Args.swaps c tokenA tokenB amount, call.ScopedIn (OwnKey names) := by
  rw [UniV2Args.swaps]
  exact forall_mem_pair (h.swap ha hb amount) (h.swap hb ha amount)

end UniV2Contracts.Owned

namespace UniV2Args

variable {args : UniV2Args} {rest tokens : List CompiledContract} {now : Text → Text → ℕ}

theorem scopedIn_fundingSteps (h : c.Owned names) (htokens : ∀ token ∈ tokens, Own names token) :
    ∀ call ∈ args.fundingSteps c tokens, call.ScopedIn (OwnKey names) := by
  intro call hcall
  simp only [fundingSteps, List.mem_append, List.mem_cons, List.not_mem_nil, or_false,
    List.mem_map] at hcall
  rcases hcall with ((rfl | rfl | rfl) | ⟨token, htoken, rfl⟩) | rfl
  · exact h.weth.deposit _
  · exact h.weth.approveMax h.uniRouterV2
  · exact h.weth.transfer h.unicheat _
  · exact (htokens token htoken).approveMax h.uniRouterV2
  · exact h.weth.approveMax h.uniRouterV2

theorem scopedIn_tokenSetup (h : c.Owned names) (htoken : Own names token)
    (hrest : ∀ other ∈ rest, Own names other) :
    ∀ call ∈ args.tokenSetup c now token rest, call.ScopedIn (OwnKey names) := by
  intro call hcall
  simp only [tokenSetup, List.mem_append, List.mem_flatMap, List.mem_singleton] at hcall
  rcases hcall with (hweth | ⟨other, hother, hpool⟩) | rfl
  · exact h.openPool h.weth htoken _ _ _ call hweth
  · exact h.openPool htoken (hrest other hother) _ _ _ call hpool
  · exact htoken.transfer h.unicheat _

theorem scopedIn_tokenSpam (h : c.Owned names) (htoken : Own names token)
    (hrest : ∀ other ∈ rest, Own names other) :
    ∀ call ∈ args.tokenSpam c token rest, call.ScopedIn (OwnKey names) := by
  intro call hcall
  simp only [tokenSpam, List.mem_append, List.mem_flatMap] at hcall
  rcases hcall with hweth | ⟨other, hother, hswap⟩
  · exact h.swaps h.weth htoken _ call hweth
  · exact h.swaps htoken (hrest other hother) _ call hswap

variable (args) (uniCode : UniV2Bytecode)

theorem own_token : ∀ token ∈ args.tokens uniCode,
    Own ((args.createSteps uniCode).map (·.contract.name)) token := by
  intro token htoken
  obtain ⟨i, hi, rfl⟩ := List.mem_map.mp htoken
  have hbrace : BraceFree "testToken".toList := by decide
  refine ⟨hbrace.append (braceFree_decimal _), List.mem_map.mpr ⟨args.deployment uniCode i, ?_, ?_⟩⟩
  · exact List.mem_append_left _ (List.mem_map_of_mem hi)
  · rfl

/-- The contracts of the file are kept, but for the test tokens. -/
theorem own_file (name : Text) {d : CreateDefinition} (hmem : d ∈ uniCode.fileSteps)
    (hd : d.contract.name = name) (hkept : ¬"testToken".toList <+: name)
    (hbrace : BraceFree name) :
    Own ((args.createSteps uniCode).map (·.contract.name)) d.contract := by
  subst hd
  exact ⟨hbrace, List.mem_map.mpr ⟨d, List.mem_append_right _
    (List.mem_filter.mpr ⟨hmem, decide_eq_true hkept⟩), rfl⟩⟩

theorem owned_contracts :
    uniCode.contracts.Owned ((args.createSteps uniCode).map (·.contract.name)) where
  weth := args.own_file uniCode "weth".toList (.head _) rfl (by decide) (by decide)
  univ2Factory := args.own_file uniCode "uniV2Factory".toList
    (.tail _ <| .tail _ <| .tail _ <| .head _) rfl (by decide) (by decide)
  uniRouterV2 := args.own_file uniCode "uniRouterV2".toList
    (.tail _ <| .tail _ <| .tail _ <| .tail _ <| .head _) rfl (by decide) (by decide)
  unicheat := args.own_file uniCode "unicheat".toList
    (.tail _ <| .tail _ <| .tail _ <| .tail _ <| .tail _ <| .head _) rfl (by decide) (by decide)

/-- The number of pools fits when there is a configuration. -/
theorem lt_of_toTestConfig {config : TestConfig}
    (hconfig : args.toTestConfig now uniCode = some config) : args.numTokens + 1 < 2 ^ 32 := by
  by_contra hlarge
  have hpools : addU32 args.numTokens 1 = none := if_neg hlarge
  rw [toTestConfig, findContracts_createSteps, hpools] at hconfig
  cases hconfig

theorem create_of_toTestConfig {config : TestConfig}
    (hconfig : args.toTestConfig now uniCode = some config) :
    config.create = some (args.createSteps uniCode) := by
  rw [args.toTestConfig_eq uniCode now (args.lt_of_toTestConfig uniCode hconfig)] at hconfig
  obtain rfl := Option.some.inj hconfig
  rfl

theorem scopedIn {config : TestConfig} (hconfig : args.toTestConfig now uniCode = some config) :
    ∀ call ∈ config.ownCalls,
      call.ScopedIn (OwnKey ((args.createSteps uniCode).map (·.contract.name))) := by
  rw [args.toTestConfig_eq uniCode now (args.lt_of_toTestConfig uniCode hconfig)] at hconfig
  obtain rfl := Option.some.inj hconfig
  have howned := args.owned_contracts uniCode
  have htokens := args.own_token uniCode
  intro call hcall
  rcases List.mem_append.mp hcall with hsetup | hspam
  · -- the funding steps come before those of the pools
    rcases List.mem_append.mp hsetup with hfunding | hpools
    · exact scopedIn_fundingSteps howned htokens call hfunding
    · obtain ⟨token, htoken, rest, hrest, hmem⟩ := List.exists_of_mem_flatMapRest hpools
      exact scopedIn_tokenSetup howned (htokens token htoken)
        (fun other hother => htokens other (hrest hother)) call hmem
  · obtain ⟨step, hstep, hmem⟩ := List.mem_flatMap.mp hspam
    obtain ⟨own, hown, rfl⟩ := List.mem_map.mp hstep
    obtain rfl := List.mem_singleton.mp hmem
    obtain ⟨token, htoken, rest, hrest, hmem⟩ := List.exists_of_mem_flatMapRest hown
    exact scopedIn_tokenSpam howned (htokens token htoken)
      (fun other hother => htokens other (hrest hother)) _ hmem

end UniV2Args

end Scenarios

/-! ### All of them -/

namespace BuiltinScenario

/-- The texts that come from the user. -/
def givenTexts : BuiltinScenario → List Text
  | .blobs args => args.recipient.toList
  | .contract args => (args.setup ++ args.spam).flatMap (·.args.getD [])
  | .erc20 args => args.tokenRecipient.toList
  | .setCode args => args.signerAddress :: (args.contractAddress.toList ++ args.args)
  | .transfers args => [args.recipient]
  | _ => []

variable {code : BuiltinCode} {addressToString : Address → Text} {now : Text → Text → ℕ}
  {config : TestConfig}

/-- A scenario refers to its own contracts only, if the user's texts do. -/
theorem wellScoped (scenario : BuiltinScenario) (haddr : ∀ address, '{' ∉ addressToString address)
    (hconfig : scenario.toTestConfig code addressToString now = some config)
    (hgiven : ∀ text ∈ scenario.givenTexts, Scoped (OwnKey config.contractNames) text) :
    config.WellScoped := by
  refine TestConfig.wellScoped_of_ownCalls ?_
  rw [TestConfig.contractNames_eq] at hgiven ⊢
  cases scenario with
  | blobs args =>
    obtain rfl := Option.some.inj hconfig
    exact args.scopedIn fun text htext => hgiven text (Option.mem_toList.mpr htext)
  | contract args =>
    obtain rfl := Option.some.inj hconfig
    exact args.scopedIn hgiven (List.mem_singleton_self _)
  | erc20 args =>
    obtain rfl := Option.some.inj hconfig
    exact args.scopedIn _ haddr (fun text htext => hgiven text (Option.mem_toList.mpr htext))
      (List.mem_singleton_self _)
  | ethFunctions args =>
    obtain rfl := Option.some.inj hconfig
    exact args.scopedIn (List.mem_singleton_self _)
  | fillBlock args =>
    -- all of its calls are the same
    obtain ⟨hcreate, hcalls⟩ := args.toTestConfig_eq_some hconfig
    rw [hcreate, hcalls]
    intro call hcall
    obtain rfl := List.eq_of_mem_replicate hcall
    exact args.scopedIn (List.mem_singleton_self _)
  | revert args =>
    rw [(args.toTestConfig_eq_some hconfig).1]
    exact args.scopedIn hconfig (List.mem_singleton_self _)
  | setCode args =>
    -- the wallet is deployed when the user has no contract
    obtain rfl := Option.some.inj hconfig
    obtain ⟨hsigner, hrest⟩ := List.forall_mem_cons.mp hgiven
    refine args.scopedIn (fun text htext => hrest text (List.mem_append_right _ htext)) hsigner
      (fun text htext => hrest text (List.mem_append_left _ (Option.mem_toList.mpr htext)))
      fun hnone => ?_
    rw [SetCodeArgs.toTestConfig, if_pos hnone]
    exact .tail _ (.head _)
  | storage args =>
    obtain rfl := Option.some.inj hconfig
    exact args.scopedIn (List.mem_singleton_self _)
  | transfers args =>
    obtain rfl := Option.some.inj hconfig
    exact args.scopedIn (hgiven _ (List.mem_singleton_self _))
  | stress args =>
    obtain rfl := Option.some.inj hconfig
    exact args.scopedIn haddr (List.mem_singleton_self _)
  | uniV2 args =>
    rw [args.create_of_toTestConfig _ hconfig]
    exact args.scopedIn _ hconfig

end BuiltinScenario

/-! ### After the deployment -/

namespace Deployer

variable (d : Deployer)

/-- Where placeholders are looked up, when the contracts have been deployed; the create steps
look them up in the same place (`sourceAt_createEnv`). The panic on a row without an address
counts as a failed query. -/
def sourceOf (s : DeployState) : PlaceholderSource where
  getNamedTx name :=
    match s.db.getNamedTx name d.rpcUrl d.genesisHash with
    | .ok namedTx => .ok (namedTx.map fun n => ⟨n.name, n.address⟩)
    | .error _ => .error "DB error".toList
  scenarioLabel := d.generator.source.scenarioLabel

theorem sourceAt_createEnv (extra : ExtraTxParams) (s : DeployState) :
    d.generator.sourceAt (d.createEnv extra) s = d.sourceOf s := rfl

variable {d} {s : DeployState} {t : CreateState DeployState} {steps : List CreateDefinition}
  {done rest : List NewContract} {x : NewContract} {hist : History}

/-- The last contract of a name is put in for it. -/
theorem sourceOf_deployed (hds : Deployed d s steps (done ++ x :: rest) t)
    (hhist : hist.Consistent) (hdb : hist.db = s.db) (hquote : Sql.quote ∉ d.rpcUrl)
    (hnul : Sql.nul ∉ d.rpcUrl) (hlast : ∀ y ∈ rest, y.name ≠ x.name)
    (haddress : x.receipt.contractAddress.isSome) :
    (d.sourceOf t.database).deployed x.name = some (encodeHexAddress x.address) ∧
      ∃ named, (d.sourceOf t.database).getNamedTx
        (scenarioDbKey x.name d.generator.source.scenarioLabel) = .ok (some named) := by
  have hfound := getNamedTx_of_deployed hds hhist hdb hquote hnul hlast haddress
  obtain ⟨address, hsome⟩ := Option.isSome_iff_exists.mp haddress
  have hnamed : (d.sourceOf t.database).getNamedTx
      (scenarioDbKey x.name d.generator.source.scenarioLabel) =
        .ok (some ⟨scenarioDbKey x.name d.generator.source.scenarioLabel, some address⟩) := by
    simp only [sourceOf, hfound, hsome, Option.map_some]
  have hlabel : (d.sourceOf t.database).scenarioLabel = d.generator.source.scenarioLabel := rfl
  refine ⟨?_, _, hnamed⟩
  rw [PlaceholderSource.deployed, hlabel, hnamed, NewContract.address, hsome]
  rfl

/-- Every key of the scenario is known. -/
theorem finds_of_ownKey {config : TestConfig} {ds : List NewContract}
    (hds : Deployed d s config.getCreateSteps ds t) (hhist : hist.Consistent)
    (hdb : hist.db = s.db) (hquote : Sql.quote ∉ d.rpcUrl) (hnul : Sql.nul ∉ d.rpcUrl)
    (haddress : ∀ x ∈ ds, x.receipt.contractAddress.isSome) (env : AssocMap Text Text) {key : Text}
    (hkey : OwnKey config.contractNames key) : (d.sourceOf t.database).Finds env key := by
  rcases hkey with rfl | rfl | hname
  · exact .inl rfl
  · exact .inr (.inl rfl)
  · rw [TestConfig.contractNames, ← hds.names] at hname
    obtain ⟨done, x, rest, rfl, rfl, hlast⟩ := exists_last_of_mem_map hname
    have hx := haddress x (List.mem_append_right _ List.mem_cons_self)
    exact .inr (.inr (.inr (sourceOf_deployed hds hhist hdb hquote hnul hlast hx).2))

end Deployer

/-- **Builtin placeholders.** When the contracts of a builtin scenario have been deployed, the
search finds the placeholders of all setup and spam steps, in any order and with any variables. A
placeholder that is no variable stands for the contract that was deployed last under its name. -/
theorem builtin_placeholders_found (code : BuiltinCode) (addressToString : Address → Text)
    (now : Text → Text → ℕ) (scenario : BuiltinScenario) (config : TestConfig)
    (haddr : ∀ address, '{' ∉ addressToString address)
    (hconfig : scenario.toTestConfig code addressToString now = some config)
    (hgiven : ∀ text ∈ scenario.givenTexts, Scoped (OwnKey config.contractNames) text)
    (d : Deployer) (s : DeployState) (t : CreateState DeployState) (hist : History)
    (hhist : hist.Consistent) (hdb : hist.db = s.db) (hquote : Sql.quote ∉ d.rpcUrl)
    (hnul : Sql.nul ∉ d.rpcUrl)
    (hreceipt : ∀ sent txHash receipt, d.node.getReceipt sent txHash = .ok receipt →
      receipt.contractAddress.isSome)
    (hrun : d.deployContracts config.getCreateSteps s = .ok t) :
    ∃ ds, Deployed d s config.getCreateSteps ds t ∧
      ∀ calls ⊆ config.calls, ∀ env : AssocMap Text Text, ∃ filled,
        calls.foldlM (d.sourceOf t.database).findFncallPlaceholders env = .ok filled ∧
        ∀ call ∈ calls, ∀ text ∈ call.templates, ∀ key, BraceFree key →
          placeholder key <:+: text → key ≠ senderKey → key ≠ setcodeKey → key ∉ env →
            ∃ done x rest, ds = done ++ x :: rest ∧ x.name = key ∧
              (∀ y ∈ rest, y.name ≠ key) ∧
                filled.lookup key = some (encodeHexAddress x.address) := by
  have hscoped := scenario.wellScoped haddr hconfig hgiven
  obtain ⟨extra, hload⟩ := Deployer.loadCreate_of_deployContracts hrun
  obtain ⟨ds, hds, -⟩ := Deployer.exists_deployed hload
  -- each deployment has its receipt from the node
  have haddress : ∀ x ∈ ds, x.receipt.contractAddress.isSome := by
    intro x hx
    obtain ⟨done, rest, rfl⟩ := List.append_of_mem hx
    exact hreceipt _ _ _ (hds.each done x rest rfl).receipt
  refine ⟨ds, hds, fun calls hcalls env => ?_⟩
  have hin : ∀ call ∈ calls, call.ScopedIn (OwnKey config.contractNames) :=
    fun call hcall => hscoped call (hcalls hcall)
  obtain ⟨filled, hfilled, -⟩ := PlaceholderSource.exists_findFncallPlaceholders hin
    fun key hkey => Deployer.finds_of_ownKey hds hhist hdb hquote hnul haddress env hkey
  refine ⟨filled, hfilled, fun call hcall text htext key hkey hplace hsender hsetcode hnew => ?_⟩
  -- what is no special account is the name of a create step
  have hname : key ∈ ds.map NewContract.name := by
    have hknown := (hin call hcall text htext).known_of_within hkey hplace
    rw [hds.names]
    exact (hknown.resolve_left hsender).resolve_left hsetcode
  obtain ⟨done, x, rest, rfl, rfl, hlast⟩ := exists_last_of_mem_map hname
  refine ⟨done, x, rest, rfl, rfl, hlast, ?_⟩
  have hlookup := (PlaceholderSource.fills_of_foldlM_calls hfilled).lookup_eq hkey hsender hsetcode
    ⟨text, List.mem_flatMap.mpr ⟨call, hcall, htext⟩, hplace⟩
  rw [hlookup, if_neg hnew]
  exact (Deployer.sourceOf_deployed hds hhist hdb hquote hnul hlast
    (haddress x (List.mem_append_right _ List.mem_cons_self))).1

/-! ### The default smart wallet -/

namespace DefaultWallet

def code : BuiltinCode where
  spamMe := "60".toList
  spamMe6 := "61".toList
  counter := "62".toList
  smartWallet := "63".toList
  testTokenHex := "64".toList
  uniV2 := ⟨[], [], [], [], [], []⟩

def args : SetCodeArgs := .fromCliArgs none none none

def deployer : Deployer :=
  { Deployer.TwoContracts.deployer with
    generator := { Generator.RedeployedToken.plan with
      agents := AList.insert "admin".toList ⟨[⟨1, 0xdead⟩], .deployer⟩ ∅ } }

def config : TestConfig := args.toTestConfig code

theorem exists_run :
    ∃ t, deployer.deployContracts config.getCreateSteps Deployer.TwoContracts.start = .ok t := by
  have hsome : (deployer.deployContracts config.getCreateSteps
      Deployer.TwoContracts.start).toOption.isSome := by decide +kernel
  cases hrun : deployer.deployContracts config.getCreateSteps Deployer.TwoContracts.start with
  | ok t => exact ⟨t, rfl⟩
  | error e =>
    rw [hrun] at hsome
    cases hsome

/-- The counter is found in the middle of the arguments. -/
theorem builtin_placeholders_found_wallet :
    ∃ (t : CreateState DeployState) (filled : AssocMap Text Text) (x : NewContract),
      config.calls.foldlM (deployer.sourceOf t.database).findFncallPlaceholders ∅ = .ok filled ∧
        x.name = "Counter".toList ∧
          filled.lookup "Counter".toList = some (encodeHexAddress x.address) := by
  obtain ⟨t, hrun⟩ := exists_run
  have hquote : Sql.quote ∉ deployer.rpcUrl := by decide
  have hnul : Sql.nul ∉ deployer.rpcUrl := by decide
  have hnames : config.contractNames = ["Counter".toList, "SmartWallet".toList] := rfl
  have hsigner : BraceFree setcodeKey := by decide
  have hgiven : ∀ text ∈ (BuiltinScenario.setCode args).givenTexts,
      Scoped (OwnKey config.contractNames) text := by
    rw [hnames]
    exact forall_mem_pair (.placeholder hsigner (.inr (.inl rfl)))
      (scoped_defaultArgs_iff.mpr List.mem_cons_self)
  obtain ⟨ds, -, hfound⟩ := builtin_placeholders_found code (fun _ => []) (fun _ _ => 0)
    (.setCode args) config (fun _ => List.not_mem_nil) rfl hgiven deployer
    Deployer.TwoContracts.start t (History.of []) (History.consistent_of []) rfl hquote hnul
    (fun sent txHash receipt h => by
      obtain rfl := Except.ok.inj h
      rfl) hrun
  obtain ⟨filled, hfilled, hkeys⟩ := hfound config.calls (fun _ h => h) ∅
  have hcounter : BraceFree "Counter".toList ∧ placeholder "Counter".toList <:+: defaultArgs ∧
      "Counter".toList ≠ senderKey ∧ "Counter".toList ≠ setcodeKey ∧
        "Counter".toList ∉ (∅ : AssocMap Text Text) := by decide
  obtain ⟨hbrace, hin, hsender, hsetcode, hnew⟩ := hcounter
  obtain ⟨done, x, rest, -, hx, -, hlookup⟩ := hkeys _ List.mem_cons_self defaultArgs
    List.mem_cons_self _ hbrace hin hsender hsetcode hnew
  exact ⟨t, filled, x, hfilled, hx, hlookup⟩

end DefaultWallet

end Contender
