import Contender.Server.TokenRecipients

/-!
# Reclaiming the funds of the accounts

`reclaim-eth` derives the accounts of some pools from the seed, asks the node for the balance of
each, and sends what is left after the gas to a recipient. With a scenario file it takes the pools
from there.

## Main results

* `handleReclaimEth_transfers` — every account is visited in order, up to the first error; one with
  more than the gas costs has sent all but this, and the total is what has been sent
* `handleReclaimEth_covers` — with a scenario file the accounts are among them that setup and spam
  use for it, if there are no more of them in a pool
-/

namespace Contender

open EStateM (Triple)

namespace TestConfig

variable (config : TestConfig)

/-- The pools that `handle_reclaim_eth` takes from a scenario: the default ones, and those that a
step names. -/
def reclaimPools : List Text :=
  ["admin".toList, "spammers".toList] ++
    (config.create.getD []).filterMap CreateDefinition.fromPool ++
    (config.setup.getD []).filterMap FunctionCallDefinition.fromPool ++
    ((config.spam.getD []).flatMap SpamRequest.calls).filterMap FunctionCallDefinition.fromPool

end TestConfig

namespace ReclaimEth

/-- What the node answers, by the number of questions it has been asked before. -/
structure Node where
  getBalance : ℕ → Address → Except Text U256
  getGasPrice : ℕ → Except Text (BitVec 128)
  getTransactionCount : ℕ → Address → Except Text ℕ
  getChainId : ℕ → Except Text ℕ
  sendTxEnvelope : ℕ → TransactionRequest → Except Text Unit

structure State where
  asked : ℕ := 0
  sent : List TransactionRequest := []
  totalReclaimed : U256 := 0
  totalAccounts : ℕ := 0

abbrev ReclaimM := EStateM Text State

/-- `?`. -/
def propagate {α : Type} : Except Text α → ReclaimM α
  | .ok a => return a
  | .error e => throw e

/-- `provider.f(..).await?`. -/
def ask {α : Type} (answer : ℕ → Except Text α) : ReclaimM α := do
  let s ← get
  set { s with asked := s.asked + 1 }
  propagate (answer s.asked)

/-- What a transfer costs. -/
def gasCost (gasPrice : BitVec 128) : U256 := gasPrice.setWidth 256 * 21000

def transfer (address recipient : Address) (value : U256) (nonce : ℕ) (gasPrice : BitVec 128)
    (chainId : ℕ) : TransactionRequest where
  fromAddr := some address
  toKind := some (.call recipient)
  value := some value
  nonce := some nonce
  gas := some 21000
  gasPrice := some gasPrice.toNat
  chainId := some chainId

section Handle

variable (build : TransactionRequest → PrivateKeySigner → Except Text Unit) (node : Node)
  (recipient : Address)

/-- The turn of one account. -/
def reclaimAccount (signer : PrivateKeySigner) : ReclaimM Unit := do
  let address := signer.address
  let balance ← ask (node.getBalance · address)
  if balance = 0 then
    return ()
  let gasPrice ← ask node.getGasPrice
  if balance ≤ gasCost gasPrice then
    return ()
  let transferAmount := balance - gasCost gasPrice
  let nonce ← ask (node.getTransactionCount · address)
  let chainId ← ask node.getChainId
  let tx := transfer address recipient transferAmount nonce gasPrice chainId
  propagate (build tx signer)
  ask (node.sendTxEnvelope · tx)
  modify fun s => { s with
    sent := s.sent ++ [tx]
    totalReclaimed := s.totalReclaimed + transferAmount
    totalAccounts := s.totalAccounts + 1 }

/-- The accounts of a pool; a name or a value that gives no key panics. -/
def reclaimPool (keccak256 : Bytes → U256) (addressOf : U256 → Address) (seed : RandSeed)
    (numAccounts : ℕ) (poolName : Text) : ReclaimM Unit :=
  match SignerStore.new keccak256 addressOf numAccounts seed poolName .spammer with
  | some store => store.signers.forM (reclaimAccount build node recipient)
  | none => throw "panic".toList

/-- The pools of the arguments, or of the scenario in the order of a hash set. -/
def agentPools (iterate : List Text → List Text) (scenario : Option TestConfig)
    (fromPool : List Text) : List Text :=
  if fromPool = [] then
    match scenario with
    | some config => iterate config.reclaimPools
    | none => ["spammers".toList]
  else fromPool

/-- `handle_reclaim_eth`, with the seed file and the scenario read. -/
def handleReclaimEth (keccak256 : Bytes → U256) (addressOf : U256 → Address)
    (iterate : List Text → List Text) (fromPool : List Text) (numAccounts : ℕ)
    (scenario : Option TestConfig) (seed : RandSeed) : ReclaimM Unit :=
  (agentPools iterate scenario fromPool).forM
    (reclaimPool build node recipient keccak256 addressOf seed numAccounts)

end Handle

/-! ### The turn of one account -/

/-- How an account is left: with no more than a transfer costs, or with a transfer of all but
this. -/
inductive Settled (node : Node) (recipient address : Address) : Option TransactionRequest → Prop
  | empty (k : ℕ) (hbalance : node.getBalance k address = .ok 0) :
    Settled node recipient address none
  | poor (k : ℕ) (balance : U256) (gasPrice : BitVec 128)
      (hbalance : node.getBalance k address = .ok balance)
      (hprice : node.getGasPrice (k + 1) = .ok gasPrice)
      (hle : balance.toNat ≤ gasPrice.toNat * 21000) :
    Settled node recipient address none
  | swept (k : ℕ) (balance value : U256) (gasPrice : BitVec 128) (nonce chainId : ℕ)
      (hbalance : node.getBalance k address = .ok balance)
      (hprice : node.getGasPrice (k + 1) = .ok gasPrice)
      (hnonce : node.getTransactionCount (k + 2) address = .ok nonce)
      (hvalue : value.toNat + gasPrice.toNat * 21000 = balance.toNat) (hpos : 0 < value.toNat) :
    Settled node recipient address
      (some (transfer address recipient value nonce gasPrice chainId))

/-- What an account adds to the counts. -/
structure Adds (s : State) (tx : Option TransactionRequest) (t : State) : Prop where
  sent : t.sent = s.sent ++ tx.toList
  total : t.totalReclaimed = s.totalReclaimed + (tx.bind TransactionRequest.value).getD 0
  accounts : t.totalAccounts = s.totalAccounts + tx.toList.length

section Account

variable {build : TransactionRequest → PrivateKeySigner → Except Text Unit} {node : Node}
  {recipient : Address} {s : State} {Q E : State → Prop}

def State.next (s : State) : State := { s with asked := s.asked + 1 }

theorem triple_propagate_bind {α β : Type} {x : Except Text α} {f : α → ReclaimM β}
    (herror : E s) (hok : ∀ a, x = .ok a → Triple (· = s) (f a) Q E) :
    Triple (· = s) (propagate x >>= f) Q E := by
  cases x with
  | ok a => exact hok a rfl
  | error e => exact fun t ht => ht ▸ herror

theorem triple_ask_bind {α β : Type} {answer : ℕ → Except Text α} {f : α → ReclaimM β}
    (herror : E s.next) (hok : ∀ a, answer s.asked = .ok a → Triple (· = s.next) (f a) Q E) :
    Triple (· = s) (ask answer >>= f) Q E := by
  have hrest := triple_propagate_bind herror hok
  intro t ht
  rw [ht]
  exact hrest s.next rfl

theorem toNat_gasCost (gasPrice : BitVec 128) :
    (gasCost gasPrice).toNat = gasPrice.toNat * 21000 := by
  have hlt : gasPrice.toNat < 2 ^ 128 := gasPrice.isLt
  have hwidth : gasPrice.toNat % 2 ^ 256 = gasPrice.toNat := Nat.mod_eq_of_lt (by omega)
  have hgas : (21000 : U256).toNat = 21000 := by decide
  rw [gasCost, BitVec.toNat_mul, BitVec.toNat_setWidth, hwidth, hgas]
  exact Nat.mod_eq_of_lt (by omega)

theorem adds_none (k : ℕ) : Adds s none { s with asked := k } :=
  ⟨(List.append_nil _).symm, (BitVec.add_zero _).symm, rfl⟩

theorem triple_reclaimAccount (signer : PrivateKeySigner) :
    Triple (· = s) (reclaimAccount build node recipient signer)
      (fun t => ∃ tx, Settled node recipient signer.address tx ∧ Adds s tx t) (Adds s none) := by
  refine triple_ask_bind (adds_none _) fun balance hbalance => ?_
  by_cases hempty : balance = 0
  · rw [if_pos hempty]
    refine Triple.pure (fun t ht => ?_) _
    exact ⟨none, .empty s.asked (hempty ▸ hbalance), ht ▸ adds_none _⟩
  rw [if_neg hempty]
  refine triple_ask_bind (adds_none _) fun gasPrice hprice => ?_
  have hcost := toNat_gasCost gasPrice
  by_cases hpoor : balance ≤ gasCost gasPrice
  · rw [if_pos hpoor]
    refine Triple.pure (fun t ht => ?_) _
    have hle : balance.toNat ≤ gasPrice.toNat * 21000 := hcost ▸ hpoor
    exact ⟨none, .poor s.asked balance gasPrice hbalance hprice hle, ht ▸ adds_none _⟩
  rw [if_neg hpoor]
  refine triple_ask_bind (adds_none _) fun nonce hnonce => ?_
  refine triple_ask_bind (adds_none _) fun chainId _ => ?_
  refine triple_propagate_bind (adds_none _) fun _ _ => ?_
  refine triple_ask_bind (adds_none _) fun _ _ => ?_
  intro t ht
  have hlt : gasPrice.toNat * 21000 < balance.toNat := by
    rw [← hcost]
    exact Nat.lt_of_not_le hpoor
  have hvalue : (balance - gasCost gasPrice).toNat = balance.toNat - gasPrice.toNat * 21000 := by
    rw [BitVec.toNat_sub_of_le (BitVec.le_def.mpr (hcost ▸ hlt.le)), hcost]
  refine ⟨_, .swept s.asked balance (balance - gasCost gasPrice) gasPrice nonce chainId hbalance
    hprice hnonce (by omega) (by omega), ?_⟩
  rw [ht]
  exact ⟨rfl, rfl, rfl⟩

end Account

/-! ### A whole run -/

/-- What has been sent in all. -/
def totalValue (txs : List TransactionRequest) : U256 :=
  BitVec.ofNat 256 (txs.map fun tx => (tx.value.getD 0).toNat).sum

/-- These accounts have been visited, and each is left as it should be. -/
structure Visited (node : Node) (recipient : Address)
    (visits : List (PrivateKeySigner × Option TransactionRequest)) (s : State) : Prop where
  settled : ∀ visit ∈ visits, Settled node recipient visit.1.address visit.2
  sent : s.sent = visits.filterMap Prod.snd
  total : s.totalReclaimed = totalValue s.sent
  accounts : s.totalAccounts = s.sent.length

/-- The accounts `signers` have been visited in their order. -/
def HasVisited (node : Node) (recipient : Address) (signers : List PrivateKeySigner) (s : State) :
    Prop :=
  ∃ visits, visits.map Prod.fst = signers ∧ Visited node recipient visits s

section Run

variable {build : TransactionRequest → PrivateKeySigner → Except Text Unit} {node : Node}
  {recipient : Address} {s t : State} {signers : List PrivateKeySigner}

theorem totalValue_append_toList (txs : List TransactionRequest) (tx : Option TransactionRequest) :
    totalValue (txs ++ tx.toList) =
      totalValue txs + (tx.bind TransactionRequest.value).getD 0 := by
  cases tx with
  | none => simp [totalValue]
  | some tx =>
    rw [totalValue, Option.toList_some, List.map_append, List.sum_append, BitVec.ofNat_add]
    simp [totalValue]

theorem HasVisited.none (h : HasVisited node recipient signers s) (hadds : Adds s none t) :
    HasVisited node recipient signers t := by
  obtain ⟨visits, hmap, hvisited⟩ := h
  have hsent : t.sent = s.sent := hadds.sent.trans (List.append_nil _)
  refine ⟨visits, hmap, hvisited.settled, hsent.trans hvisited.sent, ?_, ?_⟩
  · rw [hsent, ← hvisited.total]
    exact hadds.total.trans (BitVec.add_zero _)
  · rw [hsent, ← hvisited.accounts]
    exact hadds.accounts

theorem HasVisited.concat (h : HasVisited node recipient signers s) {signer : PrivateKeySigner}
    {tx : Option TransactionRequest} (hsettled : Settled node recipient signer.address tx)
    (hadds : Adds s tx t) : HasVisited node recipient (signers ++ [signer]) t := by
  obtain ⟨visits, hmap, hvisited⟩ := h
  refine ⟨visits ++ [(signer, tx)], by rw [List.map_append, hmap]; rfl, ?_, ?_, ?_, ?_⟩
  · intro visit hvisit
    rcases List.mem_append.mp hvisit with hbefore | hlast
    · exact hvisited.settled visit hbefore
    · obtain rfl := List.mem_singleton.mp hlast
      exact hsettled
  · rw [hadds.sent, hvisited.sent, List.filterMap_append]
    cases tx <;> rfl
  · rw [hadds.sent, totalValue_append_toList, ← hvisited.total]
    exact hadds.total
  · rw [hadds.sent, List.length_append, ← hvisited.accounts]
    exact hadds.accounts

/-- Some of the accounts have been visited, in their order. -/
def Stopped (node : Node) (recipient : Address) (signers : List PrivateKeySigner) (s : State) :
    Prop :=
  ∃ visited, visited <+: signers ∧ HasVisited node recipient visited s

theorem triple_forM_reclaimAccount (before : List PrivateKeySigner) :
    Triple (HasVisited node recipient before)
      (signers.forM (reclaimAccount build node recipient))
      (HasVisited node recipient (before ++ signers))
      (Stopped node recipient (before ++ signers)) := by
  have hloop := Triple.forM (I := fun done => HasVisited node recipient (before ++ done))
    (E := Stopped node recipient (before ++ signers)) (l := signers)
    (f := reclaimAccount build node recipient) fun done signer rest hsplit s hs => by
      have hturn : Triple (· = s) (reclaimAccount build node recipient signer) _ _ :=
        triple_reclaimAccount signer
      refine hturn.mono (fun t ht => ?_) (fun t ht => ?_) s rfl
      · obtain ⟨tx, hsettled, hadds⟩ := ht
        rw [← List.append_assoc]
        exact hs.concat hsettled hadds
      · refine ⟨before ++ done, ?_, hs.none ht⟩
        rw [hsplit]
        exact List.prefix_append_right_inj _ |>.mpr (List.prefix_append _ _)
  simpa using hloop

variable {keccak256 : Bytes → U256} {addressOf : U256 → Address} {seed : RandSeed}
  {numAccounts : ℕ}

variable (keccak256 addressOf seed numAccounts) in
/-- The accounts that are derived for a pool. -/
def accountsOf (poolName : Text) : List PrivateKeySigner :=
  ((SignerStore.new keccak256 addressOf numAccounts seed poolName .spammer).map
    SignerStore.signers).getD []

theorem Stopped.of_prefix {more : List PrivateKeySigner} (h : Stopped node recipient signers s)
    (hmore : signers <+: more) : Stopped node recipient more s := by
  obtain ⟨visited, hvisited, hs⟩ := h
  exact ⟨visited, hvisited.trans hmore, hs⟩

theorem triple_reclaimPool (before : List PrivateKeySigner) (poolName : Text) :
    Triple (HasVisited node recipient before)
      (reclaimPool build node recipient keccak256 addressOf seed numAccounts poolName)
      (fun t => (SignerStore.new keccak256 addressOf numAccounts seed poolName .spammer).isSome ∧
        HasVisited node recipient
          (before ++ accountsOf keccak256 addressOf seed numAccounts poolName) t)
      (Stopped node recipient
        (before ++ accountsOf keccak256 addressOf seed numAccounts poolName)) := by
  unfold reclaimPool accountsOf
  cases SignerStore.new keccak256 addressOf numAccounts seed poolName .spammer with
  | none => exact Triple.throw (fun s hs => ⟨before, List.prefix_append _ _, hs⟩) _
  | some store =>
    exact (triple_forM_reclaimAccount before).mono (fun t ht => ⟨rfl, ht⟩) fun t ht => ht

/-- The accounts of all pools are visited, up to the first error. -/
theorem triple_forM_reclaimPool (pools : List Text) :
    Triple (· = {}) (pools.forM (reclaimPool build node recipient keccak256 addressOf seed
        numAccounts))
      (fun t => HasVisited node recipient
          (pools.flatMap (accountsOf keccak256 addressOf seed numAccounts)) t ∧
        ∀ pool ∈ pools,
          (SignerStore.new keccak256 addressOf numAccounts seed pool .spammer).isSome)
      (Stopped node recipient
        (pools.flatMap (accountsOf keccak256 addressOf seed numAccounts))) := by
  have hloop := Triple.forM (l := pools)
    (f := reclaimPool build node recipient keccak256 addressOf seed numAccounts)
    (E := Stopped node recipient
      (pools.flatMap (accountsOf keccak256 addressOf seed numAccounts)))
    (I := fun done t =>
      HasVisited node recipient
        (done.flatMap (accountsOf keccak256 addressOf seed numAccounts)) t ∧
      ∀ pool ∈ done, (SignerStore.new keccak256 addressOf numAccounts seed pool .spammer).isSome)
    fun done pool rest hsplit s hs => by
      refine (triple_reclaimPool _ pool).mono (fun t ht => ?_) (fun t ht => ?_) s hs.1
      · rw [List.flatMap_append, List.flatMap_singleton]
        refine ⟨ht.2, fun other hother => ?_⟩
        rcases List.mem_append.mp hother with hbefore | hlast
        · exact hs.2 other hbefore
        · rw [List.mem_singleton.mp hlast]
          exact ht.1
      · refine ht.of_prefix ?_
        rw [hsplit, List.flatMap_append, List.flatMap_cons]
        exact (List.prefix_append_right_inj _).mpr (List.prefix_append _ _)
  rintro s rfl
  refine hloop {} ⟨?_, fun _ h => absurd h List.not_mem_nil⟩
  exact ⟨[], rfl, fun _ h => absurd h List.not_mem_nil, rfl, rfl, rfl⟩

/-- **Transfers.** Every account is visited in order, up to the first error. One with more than a
transfer costs has sent all but this, and the total is what has been sent. -/
theorem handleReclaimEth_transfers
    (build : TransactionRequest → PrivateKeySigner → Except Text Unit) (node : Node)
    (recipient : Address) (keccak256 : Bytes → U256) (addressOf : U256 → Address)
    (iterate : List Text → List Text) (fromPool : List Text) (numAccounts : ℕ)
    (scenario : Option TestConfig) (seed : RandSeed) :
    let accounts := (agentPools iterate scenario fromPool).flatMap
      (accountsOf keccak256 addressOf seed numAccounts)
    let run := handleReclaimEth build node recipient keccak256 addressOf iterate fromPool
      numAccounts scenario seed {}
    (∀ t, run = .ok ⟨⟩ t → HasVisited node recipient accounts t ∧
      ∀ pool ∈ agentPools iterate scenario fromPool,
        (SignerStore.new keccak256 addressOf numAccounts seed pool .spammer).isSome) ∧
    ∀ e t, run = .error e t → Stopped node recipient accounts t := by
  intro accounts run
  constructor
  · intro t hrun
    exact (triple_forM_reclaimPool (agentPools iterate scenario fromPool)).of_ok rfl hrun
  · intro e t hrun
    exact (triple_forM_reclaimPool (agentPools iterate scenario fromPool)).of_error rfl hrun

end Run

/-! ### The accounts of a scenario -/

section Scenario

variable {config : TestConfig} {spec : AgentSpec} {pool : Text} {numAccounts : ℕ}

/-- A pool of steps with a default is the default one or is named by a step. -/
theorem mem_pools_of_default {α : Type} {steps : List α} {fromPool : α → Option Text} {g : α → α}
    {name : Text} (hg : ∀ a, fromPool (g a) = some name ∨ fromPool (g a) = fromPool a)
    (h : some pool ∈ (steps.map g).map fromPool) :
    pool = name ∨ pool ∈ steps.filterMap fromPool := by
  rw [List.map_map, List.mem_map] at h
  obtain ⟨a, ha, hpool⟩ := h
  rcases hg a with hdefault | hown
  · exact .inl (Option.some.inj (hpool.symm.trans hdefault))
  · exact .inr (List.mem_filterMap.mpr ⟨a, ha, hown.symm.trans hpool⟩)

theorem fromPool_setDefault_call (name : Text) (call : FunctionCallDefinition) :
    (call.setDefaultFromPool name).fromPool = some name ∨
      (call.setDefaultFromPool name).fromPool = call.fromPool := by
  unfold FunctionCallDefinition.setDefaultFromPool
  split_ifs
  · exact .inl rfl
  · exact .inr rfl

theorem fromPool_setDefault_create (name : Text) (create : CreateDefinition) :
    (create.setDefaultFromPool name).fromPool = some name ∨
      (create.setDefaultFromPool name).fromPool = create.fromPool := by
  unfold CreateDefinition.setDefaultFromPool
  split_ifs
  · exact .inl rfl
  · exact .inr rfl

theorem flatMap_calls_getSpamSteps (config : TestConfig) :
    config.getSpamSteps.flatMap SpamRequest.calls =
      ((config.spam.getD []).flatMap SpamRequest.calls).map
        (·.setDefaultFromPool "spammers".toList) := by
  rw [TestConfig.getSpamSteps, List.flatMap_map, List.map_flatMap]
  exact List.flatMap_congr fun step _ => SpamRequest.calls_mapCalls _ step

theorem named_of_asksFor {named : List (Option Text)} {n : ℕ}
    (h : 0 < PlanConfig.asksFor named n pool) : some pool ∈ named := by
  unfold PlanConfig.asksFor at h
  split_ifs at h with hmem
  · exact hmem
  · exact absurd h (lt_irrefl 0)

/-- A pool that a plan needs accounts of is one that the command looks at. -/
theorem mem_reclaimPools (h : 0 < config.plan.accountsFor spec pool) :
    pool ∈ config.reclaimPools := by
  unfold PlanConfig.accountsFor at h
  simp only [TestConfig.reclaimPools, List.mem_append, List.mem_cons, List.not_mem_nil, or_false]
  rcases lt_max_iff.mp h with hcreate | hrest
  · rcases mem_pools_of_default (fromPool_setDefault_create _) (named_of_asksFor hcreate) with
      rfl | hmem
    · exact .inl (.inl (.inl (.inl rfl)))
    · exact .inl (.inl (.inr hmem))
  rcases lt_max_iff.mp hrest with hsetup | hspam
  · rcases mem_pools_of_default (fromPool_setDefault_call _) (named_of_asksFor hsetup) with
      rfl | hmem
    · exact .inl (.inl (.inl (.inl rfl)))
    · exact .inl (.inr hmem)
  · have hnamed : some pool ∈ (config.getSpamSteps.flatMap SpamRequest.calls).map
        FunctionCallDefinition.fromPool := named_of_asksFor hspam
    rw [flatMap_calls_getSpamSteps] at hnamed
    rcases mem_pools_of_default (fromPool_setDefault_call _) hnamed with rfl | hmem
    · exact .inl (.inl (.inl (.inr rfl)))
    · exact .inr hmem

theorem asksFor_le {named : List (Option Text)} {n : ℕ} (h : n ≤ numAccounts) :
    PlanConfig.asksFor named n pool ≤ numAccounts := by
  unfold PlanConfig.asksFor
  split_ifs
  · exact h
  · exact Nat.zero_le _

/-- **The accounts of a scenario.** With a scenario file a run that ends well has visited all
accounts that setup and spam use for it, if no category has more of them than the command asks
for. -/
theorem handleReclaimEth_covers
    (build : TransactionRequest → PrivateKeySigner → Except Text Unit) (node : Node)
    (recipient : Address) (keccak256 : Bytes → U256) (addressOf : U256 → Address)
    (iterate : List Text → List Text) (numAccounts : ℕ) (config : TestConfig) (seed : RandSeed)
    (t : State) (iterateCounts : PoolCounts → List (Sigma fun _ : Text => Nat × AgentClass))
    (spec : AgentSpec) (agents : AssocMap Text SignerStore)
    (hiterate : ∀ names name, name ∈ iterate names ↔ name ∈ names)
    (hcounts : ∀ counts, (iterateCounts counts).Perm counts.entries)
    (hcreate : spec.createAccounts ≤ numAccounts) (hsetup : spec.setupAccounts ≤ numAccounts)
    (hspam : spec.spamAccounts ≤ numAccounts)
    (hagents : config.plan.buildAgentStore keccak256 addressOf iterateCounts seed spec = .ok agents)
    (hrun : handleReclaimEth build node recipient keccak256 addressOf iterate [] numAccounts
      (some config) seed {} = .ok ⟨⟩ t) :
    ∃ visits, Visited node recipient visits t ∧
      ∀ pool store, agents.lookup pool = some store →
        ∀ signer ∈ store.signers, ∃ tx, (signer, tx) ∈ visits := by
  obtain ⟨⟨visits, hmap, hvisited⟩, hsome⟩ :=
    (triple_forM_reclaimPool (agentPools iterate (some config) [])).of_ok rfl hrun
  refine ⟨visits, hvisited, fun pool store hlookup signer hsigner => ?_⟩
  obtain ⟨hmem, hnew⟩ := PlanConfig.buildAgentStore_ok hcounts hagents pool
  have hneeded : 0 < config.plan.accountsFor spec pool :=
    hmem.mp (AList.lookup_isSome.mp (by rw [hlookup]; rfl))
  have hpool : pool ∈ agentPools iterate (some config) [] :=
    (hiterate _ _).mpr (mem_reclaimPools hneeded)
  have hle : config.plan.accountsFor spec pool ≤ numAccounts :=
    max_le (asksFor_le hcreate) (max_le (asksFor_le hsetup) (asksFor_le hspam))
  obtain ⟨larger, hlarger⟩ := Option.isSome_iff_exists.mp (hsome pool hpool)
  have htake : store.signers = larger.signers.take (config.plan.accountsFor spec pool) := by
    have hsmaller := (hnew store hlookup).symm.trans (SignerStore.new_of_le hle hlarger)
    exact congrArg SignerStore.signers (Option.some.inj hsmaller)
  have haccounts : signer ∈ accountsOf keccak256 addressOf seed numAccounts pool := by
    rw [accountsOf, hlarger]
    exact List.mem_of_mem_take (htake ▸ hsigner)
  have hall : signer ∈ visits.map Prod.fst := by
    rw [hmap]
    exact List.mem_flatMap.mpr ⟨pool, hpool, haccounts⟩
  obtain ⟨⟨_, tx⟩, hvisit, rfl⟩ := List.mem_map.mp hall
  exact ⟨tx, hvisit⟩

end Scenario

namespace OneSpammer

open FirstSession (keccak256 addressOf spec)

/-- One step, sent by the default pool. -/
def config : TestConfig := { spam := some [.tx { toAddr := "{_sender}".toList }] }

/-- The spammer has some ether left, and the admin has none. -/
def node : Node where
  getBalance _ address :=
    .ok (if address = 0x8a7e36e0873b81fd41505b54037eab65b0ee7ecd then 10 ^ 18 else 0)
  getGasPrice _ := .ok 1000000000
  getTransactionCount _ _ := .ok 3
  getChainId _ := .ok 1
  sendTxEnvelope _ _ := .ok ()

theorem buildAgentStore_config (keccak256 : Bytes → U256) (addressOf : U256 → Address)
    (seed : RandSeed) (spec : AgentSpec) :
    config.plan.buildAgentStore keccak256 addressOf AList.entries seed spec =
      orError .panic (addNewAgents keccak256 addressOf seed
        ([(([] : List Text), spec.createAccounts, AgentClass.deployer),
          ([], spec.setupAccounts, AgentClass.setupSender),
          ([spammersPool], spec.spamAccounts, AgentClass.spammer)].foldl PoolCounts.addPools
            ∅).entries) := by
  have hnone : uniquePools [] = [] := by
    rw [uniquePools, List.mergeSort_nil]
    rfl
  have hcreate : config.plan.getCreatePools = [] := hnone
  have hsetup : config.plan.getSetupPools = [] := hnone
  have hspam : config.plan.getSpamPools = .ok [spammersPool] :=
    congrArg Except.ok (uniquePools_replicate 0 (by decide))
  rw [PlanConfig.buildAgentStore, PlanConfig.poolMaxSigners, hsetup, hcreate, hspam]
  rfl

/-- The one spammer is visited, and sends what it has left. -/
theorem handleReclaimEth_covers_spammer : ∃ t agents store,
    config.plan.buildAgentStore keccak256 addressOf AList.entries (contenderSeed 5) spec =
        .ok agents ∧
      agents.lookup spammersPool = some store ∧ store.signers.length = 1 ∧ t.sent.length = 1 ∧
        ∃ visits, Visited node 0x7 visits t ∧
          ∀ signer ∈ store.signers, ∃ tx, (signer, tx) ∈ visits := by
  have hspammer : ((addNewAgents keccak256 addressOf (contenderSeed 5)
      ([(([] : List Text), spec.createAccounts, AgentClass.deployer),
        ([], spec.setupAccounts, AgentClass.setupSender),
        ([spammersPool], spec.spamAccounts, AgentClass.spammer)].foldl PoolCounts.addPools
          ∅).entries).bind fun agents => agents.lookup spammersPool).map (·.signers.length) =
      some 1 := by
    decide +kernel
  obtain ⟨store, hfound, hlength⟩ := Option.map_eq_some_iff.mp hspammer
  obtain ⟨agents, hagents, hstore⟩ := Option.bind_eq_some_iff.mp hfound
  have hbuilt := buildAgentStore_config keccak256 addressOf (contenderSeed 5) spec
  rw [hagents] at hbuilt
  have hok : (handleReclaimEth (fun _ _ => .ok ()) node 0x7 keccak256 addressOf id [] 1
      (some config) (contenderSeed 5) {}).isOk = true := by decide +kernel
  have hsent : (handleReclaimEth (fun _ _ => .ok ()) node 0x7 keccak256 addressOf id [] 1
      (some config) (contenderSeed 5) {}).state.sent.length = 1 := by decide +kernel
  obtain ⟨⟨⟩, t, hrun⟩ := EStateM.Result.exists_of_isOk hok
  rw [hrun] at hsent
  obtain ⟨visits, hvisited, hcovers⟩ := handleReclaimEth_covers (fun _ _ => .ok ()) node 0x7
    keccak256 addressOf id 1 config (contenderSeed 5) t AList.entries spec agents
    (fun _ _ => Iff.rfl) (fun _ => .refl _) (by decide) (by decide) (by decide) hbuilt hrun
  exact ⟨t, agents, store, hbuilt, hstore, hlength, hsent, visits, hvisited, hcovers _ _ hstore⟩

end OneSpammer

end ReclaimEth

end Contender
