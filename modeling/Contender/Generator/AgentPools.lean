import Contender.Generator.CreateDef

/-!
# The pools of a plan

A step names the pool that sends its transactions. `build_agent_store` collects the
pools of the create, setup and spam steps, and derives for each pool the largest
number of accounts that one of these categories asks for. Setup and spam run as
separate commands, each with a store of its own and with numbers of its own: they
meet on the same accounts because the keys of a pool depend on the seed and its name
only, and a larger pool begins with the keys of a smaller one.
-/

namespace List

variable {α : Type*} [DecidableEq α]

/-- `Vec::dedup`: of equal neighbours the first one is kept. -/
def dedupAdjacent : List α → List α
  | a :: b :: l => if a = b then dedupAdjacent (b :: l) else a :: dedupAdjacent (b :: l)
  | l => l

theorem mem_dedupAdjacent {a : α} {l : List α} : a ∈ l.dedupAdjacent ↔ a ∈ l := by
  fun_induction dedupAdjacent l with
  | case1 b l ih =>
    rw [ih]
    simp
  | case2 b c l hne ih => rw [mem_cons, ih, ← mem_cons]
  | case3 l => rfl

end List

namespace Contender

/-- The steps of a plan. -/
structure PlanConfig where
  getCreateSteps : Except GeneratorError (List CreateDefinition)
  getSetupSteps : Except GeneratorError (List FunctionCallDefinition)
  getSpamSteps : Except GeneratorError (List SpamRequest)

/-- The numbers of accounts for each pool of a category. -/
structure AgentSpec where
  createAccounts : Nat := 1
  setupAccounts : Nat := 1
  spamAccounts : Nat := 10
  deriving DecidableEq, Repr

/-- The order of strings: byte by byte. -/
def stringLe (a b : Text) : Bool := !(utf8 b).lex (utf8 a) fun x y => x < y

/-- The names in order, each once. -/
def uniquePools (pools : List Text) : List Text := (pools.mergeSort stringLe).dedupAdjacent

@[simp] theorem mem_uniquePools {pools : List Text} {pool : Text} :
    pool ∈ uniquePools pools ↔ pool ∈ pools := by
  rw [uniquePools, List.mem_dedupAdjacent]
  exact (List.mergeSort_perm pools _).mem_iff

namespace PlanConfig

variable (config : PlanConfig)

def createSteps : List CreateDefinition := config.getCreateSteps.toOption.getD []

def setupSteps : List FunctionCallDefinition := config.getSetupSteps.toOption.getD []

def getCreatePools : List Text :=
  uniquePools (config.createSteps.filterMap CreateDefinition.fromPool)

def getSetupPools : List Text :=
  uniquePools (config.setupSteps.filterMap FunctionCallDefinition.fromPool)

/-- A plan without spam steps panics. -/
def getSpamPools : Except GeneratorError (List Text) :=
  match config.getSpamSteps with
  | .ok steps =>
    .ok (uniquePools ((steps.flatMap SpamRequest.calls).filterMap FunctionCallDefinition.fromPool))
  | .error _ => .error .panic

end PlanConfig

/-- The largest number of accounts asked for, and the category that named the pool
first. -/
abbrev PoolCounts := AssocMap Text (Nat × AgentClass)

namespace PoolCounts

/-- `and_modify(max)` or `or_insert`. -/
def addPool (count : Nat) (agentClass : AgentClass) (counts : PoolCounts) (pool : Text) :
    PoolCounts :=
  match counts.lookup pool with
  | some (c, first) => counts.insert pool (max c count, first)
  | none => counts.insert pool (count, agentClass)

/-- The pools of one category. -/
def addPools (counts : PoolCounts) (category : List Text × Nat × AgentClass) : PoolCounts :=
  category.1.foldl (addPool category.2.1 category.2.2) counts

end PoolCounts

/-- `AgentStore::add_new_agent` for each pool that needs accounts, in the order of the
entries. -/
def addNewAgents (keccak256 : Bytes → U256) (addressOf : U256 → Address) (seed : RandSeed)
    (entries : List (Sigma fun _ : Text => Nat × AgentClass)) :
    Option (AssocMap Text SignerStore) :=
  entries.foldlM (fun agents entry =>
    if 0 < entry.2.1 then
      (SignerStore.new keccak256 addressOf entry.2.1 seed entry.1 entry.2.2).map
        (agents.insert entry.1 ·)
    else some agents) ∅

namespace PlanConfig

variable (config : PlanConfig)

/-- `pool_max_signers`. -/
def poolMaxSigners (spec : AgentSpec) : Except GeneratorError PoolCounts := do
  let spamPools ← config.getSpamPools
  return [(config.getCreatePools, spec.createAccounts, AgentClass.deployer),
    (config.getSetupPools, spec.setupAccounts, AgentClass.setupSender),
    (spamPools, spec.spamAccounts, AgentClass.spammer)].foldl PoolCounts.addPools ∅

/-- `build_agent_store`. The order in which the map of the pools is gone through is
open: `iterate` puts its entries into some order. -/
def buildAgentStore (keccak256 : Bytes → U256) (addressOf : U256 → Address)
    (iterate : PoolCounts → List (Sigma fun _ : Text => Nat × AgentClass)) (seed : RandSeed)
    (spec : AgentSpec) : Except GeneratorError (AssocMap Text SignerStore) := do
  let counts ← config.poolMaxSigners spec
  orError .panic (addNewAgents keccak256 addressOf seed (iterate counts))

end PlanConfig

/-! ### The accounts of a pool -/

namespace SignerStore

variable {keccak256 : Bytes → U256} {addressOf : U256 → Address} {seed : RandSeed} {name : Text}

/-- The account of a pool at an index. The number of accounts has no part in it. -/
def account (keccak256 : Bytes → U256) (addressOf : U256 → Address) (seed : RandSeed)
    (name : Text) (i : Nat) : Option PrivateKeySigner :=
  (poolSeed seed name).bind fun pool =>
    signerFromBytes addressOf (pool.seedValue keccak256 none none i)

theorem fromBeBytes_lt (bytes : Bytes) : fromBeBytes bytes < 256 ^ bytes.length := by
  induction bytes using List.reverseRecOn with
  | nil => decide
  | append_singleton bytes byte ih =>
    have hfold : fromBeBytes (bytes ++ [byte]) = 256 * fromBeBytes bytes + byte.toNat := by
      simp [fromBeBytes]
    have hbyte := byte.toNat_lt
    rw [hfold, List.length_append, List.length_singleton, Nat.pow_succ]
    omega

/-- A name of at most 32 bytes has a seed. -/
theorem isSome_poolSeed (hname : (utf8 name).length ≤ 32) : (poolSeed seed name).isSome := by
  have hlt : fromBeBytes (utf8 name) < 2 ^ 256 := by
    calc fromBeBytes (utf8 name) < 256 ^ (utf8 name).length := fromBeBytes_lt _
      _ ≤ 256 ^ 32 := Nat.pow_le_pow_right (by decide) hname
      _ = 2 ^ 256 := by decide
  rw [poolSeed, u256FromBeSlice, if_pos hlt]
  rfl

/-- A pool consists of the accounts at its first indices. -/
theorem new_eq_mapM (hseed : (poolSeed seed name).isSome) (n : Nat) (agentClass : AgentClass) :
    new keccak256 addressOf n seed name agentClass =
      ((List.range n).mapM (account keccak256 addressOf seed name)).map (⟨·, agentClass⟩) := by
  obtain ⟨pool, hpool⟩ := Option.isSome_iff_exists.mp hseed
  have hvalues : pool.seedValues keccak256 n none none =
      some ((List.range n).map (pool.seedValue keccak256 none none)) := if_pos (by decide)
  have haccount : account keccak256 addressOf seed name =
      signerFromBytes addressOf ∘ pool.seedValue keccak256 none none := by
    funext i
    rw [account, hpool, Option.bind_some, Function.comp_apply]
  rw [new, hpool, haccount]
  simp only [Option.bind_eq_bind, Option.bind_some, hvalues, List.mapM_map]
  cases (List.range n).mapM (signerFromBytes addressOf ∘ pool.seedValue keccak256 none none) <;> rfl

theorem isSome_poolSeed_of_new {n : Nat} {agentClass : AgentClass} {store : SignerStore}
    (h : new keccak256 addressOf n seed name agentClass = some store) :
    (poolSeed seed name).isSome := by
  simp only [new, Option.bind_eq_bind, Option.bind_eq_some_iff] at h
  obtain ⟨pool, hpool, -⟩ := h
  rw [hpool]
  rfl

theorem new_eq_some_iff {n : Nat} {agentClass : AgentClass} {store : SignerStore}
    (hseed : (poolSeed seed name).isSome) :
    new keccak256 addressOf n seed name agentClass = some store ↔
      store.agentClass = agentClass ∧
        List.Forall₂ (fun i signer => account keccak256 addressOf seed name i = some signer)
          (List.range n) store.signers := by
  rw [new_eq_mapM hseed, Option.map_eq_some_iff]
  constructor
  · rintro ⟨signers, hsigners, rfl⟩
    exact ⟨rfl, List.mapM_eq_some_iff.mp hsigners⟩
  · rintro ⟨rfl, hsigners⟩
    exact ⟨store.signers, List.mapM_eq_some_iff.mpr hsigners, rfl⟩

/-- A larger pool begins with the accounts of a smaller one. -/
theorem new_of_le {n m : Nat} {class₁ class₂ : AgentClass} {store : SignerStore} (hle : n ≤ m)
    (h : new keccak256 addressOf m seed name class₁ = some store) :
    new keccak256 addressOf n seed name class₂ = some ⟨store.signers.take n, class₂⟩ := by
  have hseed := isSome_poolSeed_of_new h
  obtain ⟨-, hsigners⟩ := (new_eq_some_iff hseed).mp h
  refine (new_eq_some_iff hseed).mpr ⟨rfl, ?_⟩
  have hrange : (List.range m).take n = List.range n := by
    rw [List.take_range, Nat.min_eq_left hle]
  rw [← hrange]
  exact List.forall₂_take n hsigners

theorem length_of_new {n : Nat} {agentClass : AgentClass} {store : SignerStore}
    (h : new keccak256 addressOf n seed name agentClass = some store) :
    store.signers.length = n := by
  obtain ⟨-, hsigners⟩ := (new_eq_some_iff (isSome_poolSeed_of_new h)).mp h
  rw [← hsigners.length_eq, List.length_range]

/-- The signer at an index of a pool is the account at that index. -/
theorem account_of_new {n i : Nat} {agentClass : AgentClass} {store : SignerStore}
    {signer : PrivateKeySigner} (h : new keccak256 addressOf n seed name agentClass = some store)
    (hi : store.signers[i]? = some signer) :
    account keccak256 addressOf seed name i = some signer := by
  obtain ⟨-, hsigners⟩ := (new_eq_some_iff (isSome_poolSeed_of_new h)).mp h
  obtain ⟨j, hj, haccount⟩ := hsigners.getElem?_right hi
  obtain ⟨hlt, hget⟩ := List.getElem?_eq_some_iff.mp hj
  rw [List.getElem_range] at hget
  exact hget ▸ haccount

end SignerStore

/-! ### How many accounts a pool gets -/

namespace PoolCounts

/-- The number counted for a pool. -/
def count (counts : PoolCounts) (pool : Text) : Option Nat := (counts.lookup pool).map Prod.fst

/-- A number with what was counted before. -/
def raise (before : Option Nat) (count : Nat) : Nat := before.elim count (max · count)

theorem count_addPool (n : Nat) (agentClass : AgentClass) (counts : PoolCounts)
    (added pool : Text) :
    (addPool n agentClass counts added).count pool =
      if pool = added then some (raise (counts.count added) n) else counts.count pool := by
  unfold addPool count raise
  split_ifs with heq
  · subst heq
    cases counts.lookup pool <;> simp
  · cases counts.lookup added <;> simp [AList.lookup_insert_ne heq]

/-- Naming a pool twice in a category makes no difference. -/
theorem count_addPools (counts : PoolCounts) (pools : List Text) (n : Nat)
    (agentClass : AgentClass) (pool : Text) :
    (counts.addPools (pools, n, agentClass)).count pool =
      if pool ∈ pools then some (raise (counts.count pool) n) else counts.count pool := by
  unfold addPools
  induction pools generalizing counts with
  | nil => simp
  | cons added pools ih =>
    rw [List.foldl_cons, ih, count_addPool]
    by_cases heq : pool = added
    · subst heq
      have htwice : raise (some (raise (counts.count pool) n)) n = raise (counts.count pool) n := by
        cases counts.count pool <;> simp [raise]
      simp [htwice]
    · simp [heq]

end PoolCounts

namespace PlanConfig

variable (config : PlanConfig)

def spamSteps : List SpamRequest := config.getSpamSteps.toOption.getD []

/-- The steps of a category that name the pool, if there are any, ask for its number
of accounts. -/
def asksFor (named : List (Option Text)) (accounts : Nat) (pool : Text) : Nat :=
  if some pool ∈ named then accounts else 0

/-- The largest number of accounts that a category asks for. -/
def accountsFor (spec : AgentSpec) (pool : Text) : Nat :=
  max (asksFor (config.createSteps.map CreateDefinition.fromPool) spec.createAccounts pool)
    (max (asksFor (config.setupSteps.map FunctionCallDefinition.fromPool) spec.setupAccounts pool)
      (asksFor ((config.spamSteps.flatMap SpamRequest.calls).map FunctionCallDefinition.fromPool)
        spec.spamAccounts pool))

theorem mem_uniquePools_filterMap {α : Type} {steps : List α} {fromPool : α → Option Text}
    {pool : Text} :
    pool ∈ uniquePools (steps.filterMap fromPool) ↔ some pool ∈ steps.map fromPool := by
  rw [mem_uniquePools, List.mem_filterMap, List.mem_map]

theorem poolMaxSigners_ok {spec : AgentSpec} {counts : PoolCounts}
    (h : config.poolMaxSigners spec = .ok counts) (pool : Text) :
    (counts.count pool).getD 0 = config.accountsFor spec pool := by
  simp only [poolMaxSigners, Except.bind_eq_ok_iff, Except.pure_eq_ok_iff] at h
  obtain ⟨spamPools, hspam, rfl⟩ := h
  obtain ⟨steps, hsteps, rfl⟩ : ∃ steps, config.getSpamSteps = .ok steps ∧
      uniquePools ((steps.flatMap SpamRequest.calls).filterMap FunctionCallDefinition.fromPool) =
        spamPools := by
    unfold getSpamPools at hspam
    split at hspam
    · rename_i steps hsteps
      exact ⟨steps, hsteps, Except.ok.inj hspam⟩
    · cases hspam
  have hspamSteps : config.spamSteps = steps := by
    rw [spamSteps, hsteps]
    rfl
  have hempty : (∅ : PoolCounts).count pool = none := rfl
  simp only [List.foldl_cons, List.foldl_nil, PoolCounts.count_addPools, hempty, getCreatePools,
    getSetupPools, mem_uniquePools_filterMap, accountsFor, asksFor, hspamSteps, PoolCounts.raise]
  split_ifs <;> simp

end PlanConfig

/-! ### The stores of a seed -/

section Stores

variable {keccak256 : Bytes → U256} {addressOf : U256 → Address} {seed : RandSeed}

/-- What the store has under a name when it had `before`: the derived pool, if the name
needs accounts. -/
def Derives (keccak256 : Bytes → U256) (addressOf : U256 → Address) (seed : RandSeed) (name : Text)
    (entry : Option (Nat × AgentClass)) (before after : Option SignerStore) : Prop :=
  match entry with
  | some (n, agentClass) =>
    if 0 < n then
      ∃ store, SignerStore.new keccak256 addressOf n seed name agentClass = some store ∧
        after = some store
    else after = before
  | none => after = before

theorem foldlM_addNewAgents {entries : List (Sigma fun _ : Text => Nat × AgentClass)}
    (hnodup : entries.NodupKeys) {agents result : AssocMap Text SignerStore}
    (h : entries.foldlM (fun agents entry =>
      if 0 < entry.2.1 then
        (SignerStore.new keccak256 addressOf entry.2.1 seed entry.1 entry.2.2).map
          (AList.insert entry.1 · agents)
      else some agents) agents = some result) (name : Text) :
    Derives keccak256 addressOf seed name (entries.dlookup name) (agents.lookup name)
      (result.lookup name) := by
  induction entries generalizing agents with
  | nil =>
    obtain rfl := Option.some.inj h
    rfl
  | cons entry entries ih =>
    obtain ⟨added, n, agentClass⟩ := entry
    rw [List.nodupKeys_cons] at hnodup
    rw [List.foldlM_cons, Option.bind_eq_bind, Option.bind_eq_some_iff] at h
    obtain ⟨next, hnext, hrest⟩ := h
    have hderives := ih hnodup.2 hrest
    dsimp only at hnext
    by_cases heq : name = added
    · subst heq
      have hnone : entries.dlookup name = none := List.dlookup_eq_none.mpr hnodup.1
      rw [hnone] at hderives
      rw [List.dlookup_cons_eq]
      have hafter : result.lookup name = next.lookup name := hderives
      unfold Derives
      dsimp only
      rw [hafter]
      split_ifs at hnext ⊢
      · obtain ⟨store, hstore, rfl⟩ := Option.map_eq_some_iff.mp hnext
        exact ⟨store, hstore, AList.lookup_insert _⟩
      · rw [Option.some.inj hnext]
    · have hkept : next.lookup name = agents.lookup name := by
        split_ifs at hnext
        · obtain ⟨store, -, rfl⟩ := Option.map_eq_some_iff.mp hnext
          exact AList.lookup_insert_ne heq
        · rw [Option.some.inj hnext]
      have hother : List.dlookup name (⟨added, n, agentClass⟩ :: entries) = entries.dlookup name :=
        List.dlookup_cons_ne entries ⟨added, n, agentClass⟩ heq
      rwa [hother, ← hkept]

namespace PlanConfig

variable {config : PlanConfig}
  {iterate : PoolCounts → List (Sigma fun _ : Text => Nat × AgentClass)} {spec : AgentSpec}
  {agents : AssocMap Text SignerStore}

/-- The store has the pools that some category asks accounts for, with as many as the
largest of these numbers, and no other pool. -/
theorem buildAgentStore_ok (hiterate : ∀ counts, (iterate counts).Perm counts.entries)
    (h : config.buildAgentStore keccak256 addressOf iterate seed spec = .ok agents)
    (pool : Text) :
    (pool ∈ agents ↔ 0 < config.accountsFor spec pool) ∧
      ∀ store, agents.lookup pool = some store →
        SignerStore.new keccak256 addressOf (config.accountsFor spec pool) seed pool
          store.agentClass = some store := by
  simp only [buildAgentStore, Except.bind_eq_ok_iff, orError_eq_ok] at h
  obtain ⟨counts, hcounts, hagents⟩ := h
  have hnodup : (iterate counts).NodupKeys :=
    (List.perm_nodupKeys (hiterate counts)).mpr counts.nodupKeys
  have hderives := foldlM_addNewAgents hnodup hagents pool
  have hentries : (iterate counts).dlookup pool = counts.lookup pool :=
    List.perm_dlookup pool hnodup (hiterate counts)
  have haccounts := poolMaxSigners_ok config hcounts pool
  rw [hentries] at hderives
  rw [PoolCounts.count] at haccounts
  rw [← AList.lookup_isSome]
  cases hcount : counts.lookup pool with
  | none =>
    rw [hcount] at hderives haccounts
    have hnone : agents.lookup pool = none := hderives
    rw [hnone, ← haccounts]
    exact ⟨by simp, fun store hstore => absurd hstore (by simp)⟩
  | some entry =>
    obtain ⟨n, agentClass⟩ := entry
    rw [hcount] at hderives haccounts
    dsimp only [Option.map_some, Option.getD_some, Derives] at hderives haccounts
    subst haccounts
    split_ifs at hderives with hpos
    · obtain ⟨store, hstore, hlookup⟩ := hderives
      rw [hlookup]
      refine ⟨by simp [hpos], fun other hother => ?_⟩
      obtain rfl := Option.some.inj hother
      obtain ⟨hclass, -⟩ :=
        (SignerStore.new_eq_some_iff (SignerStore.isSome_poolSeed_of_new hstore)).mp hstore
      rw [hclass]
      exact hstore
    · have hnone : agents.lookup pool = none := hderives
      rw [hnone]
      exact ⟨by simp [hpos], fun store hstore => absurd hstore (by simp)⟩

end PlanConfig

/-- **The accounts of a seed.** A larger pool begins with the accounts of a smaller one; a
store has the pools that its plan names, with the largest number of accounts asked for;
and an index that two stores have in a pool is the same account in both. -/
theorem sameAccounts (keccak256 : Bytes → U256) (addressOf : U256 → Address) (seed : RandSeed) :
    (∀ name, (utf8 name).length ≤ 32 →
      (∀ n agentClass, SignerStore.new keccak256 addressOf n seed name agentClass =
        ((List.range n).mapM (SignerStore.account keccak256 addressOf seed name)).map
          (⟨·, agentClass⟩)) ∧
      ∀ n m class₁ class₂ larger, n ≤ m →
        SignerStore.new keccak256 addressOf m seed name class₁ = some larger →
          ∃ smaller, SignerStore.new keccak256 addressOf n seed name class₂ = some smaller ∧
            smaller.signers = larger.signers.take n) ∧
    (∀ (config : PlanConfig) iterate spec agents, (∀ counts, (iterate counts).Perm counts.entries) →
      config.buildAgentStore keccak256 addressOf iterate seed spec = .ok agents →
        ∀ pool, (pool ∈ agents ↔ 0 < config.accountsFor spec pool) ∧
          ∀ store, agents.lookup pool = some store →
            store.signers.length = config.accountsFor spec pool) ∧
    (∀ (config config' : PlanConfig) iterate iterate' spec spec' agents agents',
      (∀ counts, (iterate counts).Perm counts.entries) →
      (∀ counts, (iterate' counts).Perm counts.entries) →
      config.buildAgentStore keccak256 addressOf iterate seed spec = .ok agents →
      config'.buildAgentStore keccak256 addressOf iterate' seed spec' = .ok agents' →
        ∀ pool store store', agents.lookup pool = some store →
          agents'.lookup pool = some store' → ∀ (i : Nat) signer signer',
            store.signers[i]? = some signer → store'.signers[i]? = some signer' →
              signer = signer') := by
  refine ⟨?_, ?_, ?_⟩
  · intro name hname
    refine ⟨SignerStore.new_eq_mapM (SignerStore.isSome_poolSeed hname), ?_⟩
    intro n m class₁ class₂ larger hle h
    exact ⟨_, SignerStore.new_of_le hle h, rfl⟩
  · intro config iterate spec agents hiterate h pool
    obtain ⟨hmem, hstore⟩ := PlanConfig.buildAgentStore_ok hiterate h pool
    exact ⟨hmem, fun store hlookup => SignerStore.length_of_new (hstore store hlookup)⟩
  · intro config config' iterate iterate' spec spec' agents agents' hiterate hiterate' h h' pool
      store store' hlookup hlookup' i signer signer' hi hi'
    have hnew := (PlanConfig.buildAgentStore_ok hiterate h pool).2 store hlookup
    have hnew' := (PlanConfig.buildAgentStore_ok hiterate' h' pool).2 store' hlookup'
    exact Option.some.inj ((SignerStore.account_of_new hnew hi).symm.trans
      (SignerStore.account_of_new hnew' hi'))

end Stores

/-! ### Setup and spam -/

namespace SetupAndSpam

open SignerStore.Letters

/-- The pool of a creation also sends the spam. -/
def config : PlanConfig where
  getCreateSteps := .ok [{ contract := ⟨[], ['c']⟩, fromPool := some ['a'] }]
  getSetupSteps := .ok []
  getSpamSteps := .ok [.tx { toAddr := [], fromPool := some ['a'] }]

def setupSpec : AgentSpec := { spamAccounts := 0 }

def spamSpec : AgentSpec := { spamAccounts := 2 }

def store (signers : List PrivateKeySigner) : AssocMap Text SignerStore :=
  AList.insert ['a'] ⟨signers, .deployer⟩ ∅

def build (spec : AgentSpec) : Except GeneratorError (AssocMap Text SignerStore) :=
  config.buildAgentStore keccak256 addressOf AList.entries ⟨0⟩ spec

theorem build_eq {spec : AgentSpec} {signers : List PrivateKeySigner}
    (h : (build spec).map AList.entries = .ok (store signers).entries) :
    build spec = .ok (store signers) := by
  obtain ⟨agents, hagents, hentries⟩ := Except.map_eq_ok_iff.mp h
  rw [hagents, AList.ext hentries]

/-- Setup derives one account for the pool, and spam begins with the same one. -/
theorem sameAccounts_pool :
    build setupSpec = .ok (store [signer 97]) ∧
      build spamSpec = .ok (store [signer 97, signer 98]) ∧
      ∀ a b, [signer 97][0]? = some a → [signer 97, signer 98][0]? = some b → a = b := by
  have hsetup : build setupSpec = .ok (store [signer 97]) := build_eq (by decide +kernel)
  have hspam : build spamSpec = .ok (store [signer 97, signer 98]) := build_eq (by decide +kernel)
  obtain ⟨-, -, hsame⟩ := sameAccounts keccak256 addressOf ⟨0⟩
  exact ⟨hsetup, hspam, hsame config config AList.entries AList.entries setupSpec spamSpec _ _
    (fun _ => .refl _) (fun _ => .refl _) hsetup hspam ['a'] _ _ (AList.lookup_insert _)
    (AList.lookup_insert _) 0⟩

end SetupAndSpam

end Contender
