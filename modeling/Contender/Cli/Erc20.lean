import Contender.Scenario.SenderOverride

/-!
# The ERC-20 scenario

`erc20.rs` deploys a token, gives an amount of it to each of the accounts that it finds in a pool of
its own making, and then lets the spammers send it on. The pool is derived from the seed that the
builtin scenarios get.
-/

namespace Contender

structure Erc20CliArgs where
  sendAmount : U256 := BitVec.ofNat 256 (10 ^ 13)
  fundAmount : U256 := BitVec.ofNat 256 (10 ^ 24)
  tokenRecipient : Option Address := none
  deriving DecidableEq, Repr

structure Erc20Args where
  sendAmount : U256
  fundAmount : U256
  fundRecipients : List Address
  tokenRecipient : Option Text
  deriving DecidableEq, Repr

/-- What all builtin scenarios get beside their own arguments. -/
structure BuiltinOptions where
  accountsPerAgent : Option ℕ
  seed : RandSeed
  deriving DecidableEq, Repr

/-- The name of the pool that sends the spam. -/
def spammersPool : Text := "spammers".toList

theorem dedupAdjacent_replicate (n : ℕ) (pool : Text) :
    (List.replicate (n + 1) pool).dedupAdjacent = [pool] := by
  induction n with
  | zero => rfl
  | succ n ih =>
    rw [List.replicate_succ, List.replicate_succ, List.dedupAdjacent, if_pos rfl,
      ← List.replicate_succ, ih]

/-- A pool that is named several times is one pool. -/
theorem uniquePools_replicate (n : ℕ) {pool : Text} (hle : stringLe pool pool = true) :
    uniquePools (List.replicate (n + 1) pool) = [pool] := by
  have hsorted : (List.replicate (n + 1) pool).Pairwise fun a b => stringLe a b = true :=
    List.pairwise_replicate.mpr (.inr hle)
  rw [uniquePools, List.mergeSort_of_pairwise hsorted, dedupAdjacent_replicate]

namespace Erc20Args

def fromCliArgs (addressToString : Address → Text) (args : Erc20CliArgs)
    (fundRecipients : List Address) : Erc20Args where
  sendAmount := args.sendAmount
  fundAmount := args.fundAmount
  fundRecipients
  tokenRecipient := args.tokenRecipient.map addressToString

/-- The arm of `to_builtin_scenario`. -/
def toBuiltinScenario (keccak256 : Bytes → U256) (addressOf : U256 → Address)
    (addressToString : Address → Text) (args : Erc20CliArgs) (options : BuiltinOptions) :
    Option Erc20Args :=
  (SignerStore.new keccak256 addressOf (options.accountsPerAgent.getD 10) options.seed spammersPool
    .spammer).map fun spammers =>
      fromCliArgs addressToString args (spammers.signers.map PrivateKeySigner.address)

/-- `test_token(0, U256::MAX)`. -/
def token (testTokenHex : Text) : CompiledContract where
  bytecode := testTokenHex ++ Nat.paddedHex 64 (2 ^ 256 - 1)
  name := "testToken0".toList

def transferSignature : Text := "transfer(address guy, uint256 wad)".toList

/-- The recipients of the spam are fuzzed, unless one is given. -/
def fuzzedRecipient : FuzzParam where
  param := some "guy".toList
  min := some 1
  max := some (BitVec.ofNat 256 (2 ^ 128 - 1))

variable (args : Erc20Args) (testTokenHex : Text) (addressToString : Address → Text)

/-- The setup step that gives tokens to an account. -/
def fundingStep (recipient : Address) : FunctionCallDefinition :=
  ({ toAddr := (token testTokenHex).templateName } : FunctionCallDefinition)
    |>.withSignature transferSignature
    |>.withArgs [addressToString recipient, args.fundAmount.toNat.decimal]

/-- The step that the spammers send. -/
def spamStep : FunctionCallDefinition where
  toAddr := (token testTokenHex).templateName
  fromPool := some spammersPool
  signature := some transferSignature
  args := some [args.tokenRecipient.getD ("0x".toList ++ List.replicate 40 '0'),
    args.sendAmount.toNat.decimal]
  gasLimit := some 55000
  fuzz := if args.tokenRecipient = none then some [fuzzedRecipient] else none

def toTestConfig : TestConfig where
  create := some [{ contract := token testTokenHex, fromPool := some "admin".toList }]
  setup := some (args.fundRecipients.map (args.fundingStep testTokenHex addressToString))
  spam := some [.tx (args.spamStep testTokenHex)]

/-- Only the spam step is sent by the spammers. -/
theorem accountsFor_spammers (spec : AgentSpec) :
    (args.toTestConfig testTokenHex addressToString).plan.accountsFor spec spammersPool =
      spec.spamAccounts := by
  have hadmin : ("admin".toList : Text) ≠ spammersPool := by decide
  have hcreate : some spammersPool ∉
      (args.toTestConfig testTokenHex addressToString).plan.createSteps.map
        CreateDefinition.fromPool := by
    intro h
    obtain ⟨create, hmem, hpool⟩ := List.mem_map.mp h
    obtain rfl := List.mem_singleton.mp hmem
    exact hadmin (Option.some.inj hpool)
  have hsetup : some spammersPool ∉
      (args.toTestConfig testTokenHex addressToString).plan.setupSteps.map
        FunctionCallDefinition.fromPool := by
    intro h
    obtain ⟨call, hmem, hpool⟩ := List.mem_map.mp h
    obtain ⟨own, hown, rfl⟩ := List.mem_map.mp hmem
    obtain ⟨recipient, -, rfl⟩ := List.mem_map.mp hown
    exact hadmin (Option.some.inj hpool)
  have hspam : some spammersPool ∈
      ((args.toTestConfig testTokenHex addressToString).plan.spamSteps.flatMap
        SpamRequest.calls).map FunctionCallDefinition.fromPool :=
    List.mem_cons_self
  rw [PlanConfig.accountsFor, PlanConfig.asksFor, PlanConfig.asksFor, PlanConfig.asksFor,
    if_neg hcreate, if_neg hsetup, if_pos hspam, Nat.zero_max, Nat.zero_max]

/-- The accounts of the scenario, when there are recipients. -/
theorem buildAgentStore_eq (keccak256 : Bytes → U256) (addressOf : U256 → Address)
    (iterate : PoolCounts → List (Sigma fun _ : Text => ℕ × AgentClass)) (seed : RandSeed)
    (spec : AgentSpec) (h : args.fundRecipients ≠ []) :
    (args.toTestConfig testTokenHex addressToString).plan.buildAgentStore keccak256 addressOf
        iterate seed spec =
      orError .panic (addNewAgents keccak256 addressOf seed (iterate
        ([(["admin".toList], spec.createAccounts, AgentClass.deployer),
          (["admin".toList], spec.setupAccounts, AgentClass.setupSender),
          ([spammersPool], spec.spamAccounts, AgentClass.spammer)].foldl PoolCounts.addPools
            ∅))) := by
  have hadmin : stringLe "admin".toList "admin".toList = true := by decide
  have hsetup : (args.toTestConfig testTokenHex addressToString).plan.getSetupPools =
      ["admin".toList] := by
    have hnamed : (args.toTestConfig testTokenHex addressToString).plan.setupSteps.filterMap
        FunctionCallDefinition.fromPool =
          List.replicate args.fundRecipients.length "admin".toList := by
      change ((args.fundRecipients.map _).map _).filterMap _ = _
      rw [List.map_map, List.filterMap_map, ← List.map_const', ← List.filterMap_eq_map']
      rfl
    obtain ⟨recipient, recipients, hrecipients⟩ := List.exists_cons_of_ne_nil h
    rw [PlanConfig.getSetupPools, hnamed, hrecipients, List.length_cons]
    exact uniquePools_replicate _ hadmin
  have hcreate : (args.toTestConfig testTokenHex addressToString).plan.getCreatePools =
      ["admin".toList] := uniquePools_replicate 0 hadmin
  have hspam : (args.toTestConfig testTokenHex addressToString).plan.getSpamPools =
      .ok [spammersPool] :=
    congrArg Except.ok (uniquePools_replicate 0 (by decide))
  rw [PlanConfig.buildAgentStore, PlanConfig.poolMaxSigners, hsetup, hcreate, hspam]
  rfl

end Erc20Args

end Contender
