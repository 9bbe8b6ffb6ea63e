import Contender.Cli.UniV2
import Contender.Generator.AgentPools
import Contender.Generator.CreatePlan
import Contender.Generator.SetupNonces
import Contender.Generator.SetupSchedule
import Contender.Generator.SpamLayout

/-!
# One sender for all steps

The steps of a scenario file name an account pool, or an address, or neither: then they get the
default pool of their category. `override_senders` puts one address in the place of all of them.

## Main results

* `overrideSenders_senders` — no pool is left, and every transaction that is generated from the
  steps comes from the address
* `overrideSenders_setup` — a setup step for all accounts of its pool cannot be loaded any more
-/

namespace Contender

open EStateM (Triple Keeps)

namespace FunctionCallDefinition

/-- `set_default_from_pool!`. -/
def setDefaultFromPool (call : FunctionCallDefinition) (fromPool : Text) :
    FunctionCallDefinition :=
  if call.fromAddr = none ∧ call.fromPool = none then { call with fromPool := some fromPool }
  else call

def overrideSender (call : FunctionCallDefinition) (fromAddress : Text) :
    FunctionCallDefinition :=
  { call with fromAddr := some fromAddress, fromPool := none }

end FunctionCallDefinition

namespace CreateDefinition

/-- `set_default_from_pool!`. -/
def setDefaultFromPool (create : CreateDefinition) (fromPool : Text) : CreateDefinition :=
  if create.fromAddr = none ∧ create.fromPool = none then
    { create with fromPool := some fromPool }
  else create

def overrideSender (create : CreateDefinition) (fromAddress : Text) : CreateDefinition :=
  { create with fromAddr := some fromAddress, fromPool := none }

end CreateDefinition

/-- A change of every call of a step. -/
def SpamRequest.mapCalls (f : FunctionCallDefinition → FunctionCallDefinition) :
    SpamRequest → SpamRequest
  | .tx call => .tx (f call)
  | .bundle txs => .bundle (txs.map f)

namespace TestConfig

variable (config : TestConfig)

def getSpamSteps : List SpamRequest :=
  (config.spam.getD []).map (·.mapCalls (·.setDefaultFromPool "spammers".toList))

def getSetupSteps : List FunctionCallDefinition :=
  (config.setup.getD []).map (·.setDefaultFromPool "admin".toList)

def getCreateSteps : List CreateDefinition :=
  (config.create.getD []).map (·.setDefaultFromPool "admin".toList)

/-- The plan of a scenario file. -/
def plan : PlanConfig where
  getCreateSteps := .ok config.getCreateSteps
  getSetupSteps := .ok config.getSetupSteps
  getSpamSteps := .ok config.getSpamSteps

def overrideSenders (fromAddress : Text) : TestConfig where
  env := config.env
  create := config.create.map fun steps => steps.map (·.overrideSender fromAddress)
  setup := config.setup.map fun steps => steps.map (·.overrideSender fromAddress)
  spam := config.spam.map fun steps => steps.map (·.mapCalls (·.overrideSender fromAddress))

end TestConfig

/-! ### The steps after the override -/

section Steps

variable {config : TestConfig} {fromAddress : Text}

theorem mem_getD_map {α β : Type} {steps : Option (List α)} {f : α → β} {b : β}
    (h : b ∈ (steps.map (List.map f)).getD []) : ∃ a ∈ steps.getD [], f a = b := by
  cases steps with
  | none => exact absurd h List.not_mem_nil
  | some steps => exact List.mem_map.mp h

theorem FunctionCallDefinition.setDefaultFromPool_overrideSender (call : FunctionCallDefinition)
    (fromPool : Text) :
    (call.overrideSender fromAddress).setDefaultFromPool fromPool =
      call.overrideSender fromAddress := if_neg fun h => Option.some_ne_none _ h.1

theorem CreateDefinition.setDefaultFromPool_overrideSender (create : CreateDefinition)
    (fromPool : Text) :
    (create.overrideSender fromAddress).setDefaultFromPool fromPool =
      create.overrideSender fromAddress := if_neg fun h => Option.some_ne_none _ h.1

theorem SpamRequest.calls_mapCalls (f : FunctionCallDefinition → FunctionCallDefinition)
    (step : SpamRequest) : (step.mapCalls f).calls = step.calls.map f := by
  cases step <;> rfl

/-- The override leaves the steps as they are up to their sender. -/
theorem TestConfig.exists_of_mem_setupSteps {call : FunctionCallDefinition}
    (h : call ∈ (config.overrideSenders fromAddress).getSetupSteps) :
    ∃ own ∈ config.setup.getD [], own.overrideSender fromAddress = call := by
  obtain ⟨own, hown, rfl⟩ := List.mem_map.mp h
  obtain ⟨call, hcall, rfl⟩ := mem_getD_map hown
  exact ⟨call, hcall, (call.setDefaultFromPool_overrideSender _).symm⟩

theorem TestConfig.mem_setupSteps_overrideSenders {call : FunctionCallDefinition}
    (h : call ∈ config.setup.getD []) :
    call.overrideSender fromAddress ∈ (config.overrideSenders fromAddress).getSetupSteps := by
  cases hsteps : config.setup with
  | none =>
    rw [hsteps] at h
    exact absurd h List.not_mem_nil
  | some steps =>
    rw [hsteps] at h
    rw [getSetupSteps, overrideSenders, hsteps]
    refine List.mem_map.mpr ⟨_, List.mem_map_of_mem h, ?_⟩
    exact call.setDefaultFromPool_overrideSender _

theorem TestConfig.exists_of_mem_createSteps {create : CreateDefinition}
    (h : create ∈ (config.overrideSenders fromAddress).getCreateSteps) :
    ∃ own ∈ config.create.getD [], own.overrideSender fromAddress = create := by
  obtain ⟨own, hown, rfl⟩ := List.mem_map.mp h
  obtain ⟨create, hcreate, rfl⟩ := mem_getD_map hown
  exact ⟨create, hcreate, (create.setDefaultFromPool_overrideSender _).symm⟩

theorem TestConfig.exists_of_mem_spamSteps {step : SpamRequest} {call : FunctionCallDefinition}
    (hstep : step ∈ (config.overrideSenders fromAddress).getSpamSteps) (hcall : call ∈ step.calls) :
    ∃ own : FunctionCallDefinition, own.overrideSender fromAddress = call := by
  obtain ⟨overridden, hoverridden, rfl⟩ := List.mem_map.mp hstep
  obtain ⟨step, -, rfl⟩ := mem_getD_map hoverridden
  rw [SpamRequest.calls_mapCalls, SpamRequest.calls_mapCalls, List.map_map] at hcall
  obtain ⟨own, -, rfl⟩ := List.mem_map.mp hcall
  exact ⟨own, (own.setDefaultFromPool_overrideSender _).symm⟩

/-- No category asks for accounts. -/
theorem TestConfig.accountsFor_overrideSenders (spec : AgentSpec) (pool : Text) :
    (config.overrideSenders fromAddress).plan.accountsFor spec pool = 0 := by
  have hcreate : some pool ∉ (config.overrideSenders fromAddress).plan.createSteps.map
      CreateDefinition.fromPool := by
    rw [List.mem_map]
    rintro ⟨create, hmem, hpool⟩
    obtain ⟨own, -, rfl⟩ := exists_of_mem_createSteps hmem
    cases hpool
  have hsetup : some pool ∉ (config.overrideSenders fromAddress).plan.setupSteps.map
      FunctionCallDefinition.fromPool := by
    rw [List.mem_map]
    rintro ⟨call, hmem, hpool⟩
    obtain ⟨own, -, rfl⟩ := exists_of_mem_setupSteps hmem
    cases hpool
  have hspam : some pool ∉ ((config.overrideSenders fromAddress).plan.spamSteps.flatMap
      SpamRequest.calls).map FunctionCallDefinition.fromPool := by
    rw [List.mem_map]
    rintro ⟨call, hmem, hpool⟩
    obtain ⟨step, hstep, hcall⟩ := List.mem_flatMap.mp hmem
    obtain ⟨own, rfl⟩ := exists_of_mem_spamSteps hstep hcall
    cases hpool
  rw [PlanConfig.accountsFor, PlanConfig.asksFor, PlanConfig.asksFor, PlanConfig.asksFor,
    if_neg hcreate, if_neg hsetup, if_neg hspam]
  rfl

end Steps

namespace Generator

open SetupM

variable {g : Generator} {a : Address} {call : FunctionCallDefinition}

/-! ### The sender of a generated transaction -/

/-- A step whose address was given reads it back. -/
theorem fromAddress_overrideSender (hbrace : '{' ∉ g.foreign.addressToString a)
    (hparse : g.foreign.parseAddress (g.foreign.addressToString a) = some a) (i : Nat) :
    g.fromAddress (call.overrideSender (g.foreign.addressToString a)) i = .ok a := by
  have hread : g.foreign.parseAddress (replacePlaceholders g.env (g.foreign.addressToString a)) =
      some a := by
    rw [replacePlaceholders_of_notMem hbrace, hparse]
  exact orError_eq_ok.mpr hread

theorem fromAddr_of_prepareTx {placeholderMap : AssocMap Text Text} {fuzzMap : FuzzMap} {i : Nat}
    {r : NamedTxRequest} (hfrom : g.fromAddress call i = .ok a)
    (h : g.prepareTx placeholderMap fuzzMap i call = .ok r) : r.tx.fromAddr = some a := by
  simp only [prepareTx, Except.bind_eq_ok_iff, Except.pure_eq_ok_iff] at h
  obtain ⟨filled, hfilled, strict, hstrict, tx, htx, rfl⟩ := h
  obtain ⟨_, _, _, _, -, -, -, -, rfl⟩ := fillFuzzed_ok hfilled
  simp only [makeStrictCall, Except.bind_eq_ok_iff, Except.pure_eq_ok_iff] at hstrict
  obtain ⟨sender, hsender, auth, -, value, -, sidecar, -, rfl⟩ := hstrict
  obtain rfl : a = sender := Except.ok.inj (hfrom.symm.trans hsender)
  exact (Foreign.templateFunctionCall_ok htx).2.1

/-- All transactions of the requests come from the address. -/
def AllFrom (a : Address) (requests : List ExecutionRequest) : Prop :=
  ∀ request ∈ requests, ∀ req ∈ request.txs, req.tx.fromAddr = some a

theorem allFrom_concat {requests : List ExecutionRequest} {req : NamedTxRequest}
    (h : AllFrom a requests) (hreq : req.tx.fromAddr = some a) :
    AllFrom a (requests ++ [.tx req]) := by
  intro request hrequest r hr
  rcases List.mem_append.mp hrequest with hbefore | hlast
  · exact h request hbefore r hr
  · obtain rfl := List.mem_singleton.mp hlast
    obtain rfl := List.mem_singleton.mp hr
    exact hreq

/-- The calls of the spam steps are sent by the address. -/
theorem allFrom_loadTxs {numTxs : Nat} {requests : List ExecutionRequest}
    (hfrom : ∀ step ∈ g.spamSteps, ∀ call ∈ step.calls, ∀ i, g.fromAddress call i = .ok a)
    (h : g.loadTxs numTxs = .ok requests) : AllFrom a requests := by
  obtain ⟨generated, hload, rfl⟩ := Except.map_eq_ok_iff.mp h
  obtain ⟨total, placeholderMap, fuzzMap, -, -, hplan⟩ := loadSpam_ok hload
  intro request hrequest req hreq
  obtain ⟨e, he, rfl⟩ := List.mem_map.mp hrequest
  obtain ⟨n, hn⟩ := List.getElem?_of_mem he
  obtain ⟨entry, -, step, hstep, hrequestOf⟩ := hplan.getElem?_right hn
  obtain ⟨m, hm⟩ := List.getElem?_of_mem hreq
  obtain ⟨call, hcall, hprepared⟩ := (prepareStep_ok hrequestOf.prepared).getElem?_right hm
  have hsender := hfrom step (List.mem_of_getElem? hstep) call (List.mem_of_getElem? hcall) entry.2
  exact fromAddr_of_prepareTx hsender hprepared

/-! ### Setup -/

/-- The transactions and the tasks of the loop come from the address. -/
def SetupFrom (a : Address) (s : SetupState) : Prop :=
  AllFrom a s.txs ∧ ∀ link ∈ s.chains.links, link.value.tx.fromAddr = some a

/-- A fallible call leaves the loop in the state it found. -/
theorem triple_ofExcept_bind {ε α β : Type} {wrap : ε → SetupError} {x : Except ε α}
    {f : α → SetupM β} {P Q : SetupState → Prop} (h : ∀ v, x = .ok v → Triple P (f v) Q P) :
    Triple P (ofExcept wrap x >>= f) Q P := by
  cases x with
  | ok v => exact h v rfl
  | error e => exact fun s hs => hs

theorem keepsPart_ofExcept {ε α γ : Type} {wrap : ε → SetupError} {x : Except ε α}
    {part : SetupState → γ} : Keeps part (ofExcept wrap x) := by
  cases x with
  | ok v => exact Keeps.pure v
  | error e => exact Keeps.throw (wrap e)

/-- Taking a nonce touches neither the transactions nor the tasks. -/
theorem keepsTxs_takeNonce {env : SetupEnv} {sender : Address} :
    Keeps (fun s => (s.txs, s.chains)) (takeNonce env sender) := by
  have hinsert (n : ℕ) : Keeps (ε := SetupError) (fun s : SetupState => (s.txs, s.chains))
      (modify fun s => { s with nextNonce := s.nextNonce.insert sender n }) :=
    Keeps.update fun _ => rfl
  have hcount : Keeps (fun s : SetupState => (s.txs, s.chains)) (do
      let nonce ← ofGenerator (orError .panic ((← get).nextNonce.lookup sender))
      let next ← ofGenerator (orError .panic (addU64 nonce 1))
      modify fun s => { s with nextNonce := s.nextNonce.insert sender next }
      return nonce : SetupM Nat) :=
    Keeps.get.bind fun _ => keepsPart_ofExcept.bind fun _ => keepsPart_ofExcept.bind fun _ =>
      (hinsert _).bind fun _ => Keeps.pure _
  unfold takeNonce
  refine Keeps.get.bind fun s => ?_
  split_ifs
  · exact hcount
  · exact keepsPart_ofExcept.bind fun _ => (hinsert _).bind fun _ => hcount

theorem SetupFrom.push {s : SetupState} {req : NamedTxRequest} (h : SetupFrom a s)
    (hreq : req.tx.fromAddr = some a) :
    SetupFrom a { s with chains := s.chains.push a req } := by
  refine ⟨h.1, fun link hlink => ?_⟩
  rcases List.mem_append.mp hlink with hbefore | hlast
  · exact h.2 link hbefore
  · obtain rfl := List.mem_singleton.mp hlast
    exact hreq

theorem triple_setupTx {env : SetupEnv} {k idx : Nat} (hfrom : g.fromAddress call idx = .ok a) :
    Triple (SetupFrom a) (g.setupTx env k call idx) (SetupFrom a) (SetupFrom a) := by
  unfold setupTx
  refine triple_ofExcept_bind fun strict hstrict => ?_
  simp only [makeStrictCall, Except.bind_eq_ok_iff, Except.pure_eq_ok_iff] at hstrict
  obtain ⟨sender, hsender, auth, -, value, -, sidecar, -, rfl⟩ := hstrict
  obtain rfl : a = sender := Except.ok.inj (hfrom.symm.trans hsender)
  refine (Triple.get fun _ hs => hs).bind fun _ => triple_ofExcept_bind fun tx htx => ?_
  have htxFrom : tx.fromAddr = some a := (Foreign.templateFunctionCall_ok htx).2.1
  refine triple_ofExcept_bind fun sender hsender => ?_
  obtain rfl : a = sender := Option.some.inj (htxFrom.symm.trans (orError_eq_ok.mp hsender))
  refine (Triple.of_keeps (p := fun part => AllFrom a part.1 ∧ ∀ link ∈ part.2.links,
    link.value.tx.fromAddr = some a) keepsTxs_takeNonce).bind fun nonce => ?_
  refine triple_ofExcept_bind fun started _ => ?_
  have hpush : Triple (SetupFrom a) (modify fun s : SetupState => { s with txs := s.txs ++ [.tx
      { tx := { tx with nonce := some nonce }, kind := call.kind }] } : SetupM PUnit)
      (SetupFrom a) (SetupFrom a) := Triple.update fun s hs => ⟨allFrom_concat hs.1 htxFrom, hs.2⟩
  split_ifs
  · exact (Triple.update fun s hs => SetupFrom.push (s := s) hs htxFrom).bind fun _ => hpush
  · exact hpush

theorem triple_setupStep {env : SetupEnv} {k : Nat} (hfrom : ∀ i, g.fromAddress call i = .ok a) :
    Triple (SetupFrom a) (g.setupStep env k call) (SetupFrom a) (SetupFrom a) := by
  unfold setupStep
  refine (Triple.get fun _ hs => hs).bind fun _ => triple_ofExcept_bind fun placeholderMap _ => ?_
  have hmap : Triple (SetupFrom a) (modify fun s => { s with placeholderMap } : SetupM PUnit)
      (SetupFrom a) (SetupFrom a) := Triple.update fun _ hs => hs
  refine hmap.bind fun _ => triple_ofExcept_bind fun indices _ => ?_
  exact Triple.forM (I := fun _ => SetupFrom a) fun _ idx _ _ => triple_setupTx (hfrom idx)

theorem triple_loadSetup {env : SetupEnv}
    (hfrom : ∀ call ∈ g.setupSteps, ∀ i, g.fromAddress call i = .ok a) :
    Triple (SetupFrom a) (g.loadSetup env) (SetupFrom a) (SetupFrom a) := by
  refine Triple.forM (I := fun _ => SetupFrom a) fun done entry rest hsplit => ?_
  have hmem : entry ∈ g.setupSteps.zipIdx := by
    rw [hsplit]
    exact List.mem_append_right _ List.mem_cons_self
  exact triple_setupStep (hfrom entry.1 (List.fst_mem_of_mem_zipIdx hmem))

/-- However the loop over the setup steps ends, what it has generated comes from the address. -/
theorem setupFrom_runLoadSetup {env : SetupEnv}
    (hfrom : ∀ call ∈ g.setupSteps, ∀ i, g.fromAddress call i = .ok a) :
    SetupFrom a (g.runLoadSetup env).state :=
  (triple_loadSetup hfrom).state (fun _ hs => hs) (fun _ hs => hs)
    ⟨fun _ h => absurd h List.not_mem_nil, fun _ h => absurd h List.not_mem_nil⟩

/-- A successful loop has loaded every step. -/
theorem exists_ok_of_forM {α : Type} {f : α → SetupM PUnit} {l : List α} {s t : SetupState}
    (h : l.forM f s = .ok ⟨⟩ t) {b : α} (hb : b ∈ l) : ∃ u v, f b u = .ok ⟨⟩ v := by
  induction l generalizing s with
  | nil => exact absurd hb List.not_mem_nil
  | cons c l ih =>
    obtain ⟨⟨⟩, u, hc, hl⟩ := EStateM.bind_eq_ok.mp h
    rcases List.mem_cons.mp hb with rfl | hb
    · exact ⟨s, u, hc⟩
    · exact ih hl hb

/-- A step for all accounts needs a pool. -/
theorem not_forAllAccounts_of_loadSetup {env : SetupEnv} {s : SetupState}
    (h : g.runLoadSetup env = .ok () s) (hcall : call ∈ g.setupSteps)
    (hpool : call.fromPool = none) : call.forAllAccounts = false := by
  obtain ⟨k, hk⟩ := List.getElem?_of_mem hcall
  have hmem : (call, k) ∈ g.setupSteps.zipIdx := List.mk_mem_zipIdx_iff_getElem?.mpr hk
  obtain ⟨u, v, hstep⟩ := exists_ok_of_forM h hmem
  simp only [setupStep, EStateM.bind_eq_ok, EStateM.get_eq_ok, EStateM.modify_eq_ok,
    ofGenerator_eq_ok] at hstep
  obtain ⟨_, _, -, placeholderMap, _, -, _, _, -, indices, _, ⟨hindices, -⟩, -⟩ := hstep
  rw [← Bool.not_eq_true]
  intro hall
  rw [accountIndices, if_pos hall, hpool] at hindices
  cases hindices

/-! ### Creations -/

theorem fromAddr_of_templateContractDeploy {foreign : Foreign}
    {placeholderMap : AssocMap Text Text} {strict : CreateDefinitionStrict}
    {tx : TransactionRequest}
    (h : foreign.templateContractDeploy placeholderMap strict = .ok tx) :
    tx.fromAddr = some strict.fromAddr := by
  unfold Foreign.templateContractDeploy at h
  split at h <;>
  · simp only [Except.bind_eq_ok_iff, Except.pure_eq_ok_iff] at h
    obtain ⟨calldata, -, input, -, rfl⟩ := h
    rfl

theorem allFrom_createStep {σ : Type} {env : CreateEnv σ} {s t : CreateState σ}
    {create : CreateDefinition} (hfrom : g.fromAddress create.asCall 0 = .ok a)
    (hs : AllFrom a s.txs) (h : g.createStep env s create = .ok t) : AllFrom a t.txs := by
  simp only [createStep, Except.bind_eq_ok_iff, Except.pure_eq_ok_iff, createGenerator_eq_ok] at h
  obtain ⟨placeholderMap, -, strict, hstrict, tx, htx, sender, -, nonces, -, database, -, rfl⟩ := h
  simp only [makeStrictCreate, Except.bind_eq_ok_iff, Except.pure_eq_ok_iff] at hstrict
  obtain ⟨own, hown, rfl⟩ := hstrict
  obtain rfl : a = own := Except.ok.inj (hfrom.symm.trans hown)
  exact allFrom_concat hs (fromAddr_of_templateContractDeploy htx)

theorem allFrom_loadCreate {σ : Type} {env : CreateEnv σ} {steps : List CreateDefinition}
    (hfrom : ∀ create ∈ steps, g.fromAddress create.asCall 0 = .ok a) {s t : CreateState σ}
    (hs : AllFrom a s.txs) (h : steps.foldlM (g.createStep env) s = .ok t) :
    AllFrom a t.txs := by
  induction steps generalizing s with
  | nil =>
    obtain rfl := Except.ok.inj h
    exact hs
  | cons create steps ih =>
    rw [List.foldlM_cons, Except.bind_eq_ok_iff] at h
    obtain ⟨u, hu, hrest⟩ := h
    obtain ⟨hcreate, hsteps⟩ := List.forall_mem_cons.mp hfrom
    exact ih hsteps (allFrom_createStep hcreate hs hu) hrest

end Generator

/-- **One sender.** After the override no pool gets accounts, and every transaction that is
generated from the spam, setup and create steps comes from the address, also when the setup stops
at an error. -/
theorem overrideSenders_senders (config : TestConfig) (g : Generator) (a : Address)
    (hbrace : '{' ∉ g.foreign.addressToString a)
    (hparse : g.foreign.parseAddress (g.foreign.addressToString a) = some a)
    (hspam : g.spamSteps = (config.overrideSenders (g.foreign.addressToString a)).getSpamSteps)
    (hsetup : g.setupSteps =
      (config.overrideSenders (g.foreign.addressToString a)).getSetupSteps) :
    let overridden := config.overrideSenders (g.foreign.addressToString a)
    (∀ keccak256 addressOf iterate seed spec agents,
      (∀ counts : PoolCounts, (iterate counts).Perm counts.entries) →
        overridden.plan.buildAgentStore keccak256 addressOf iterate seed spec = .ok agents →
          ∀ pool, pool ∉ agents) ∧
    (∀ numTxs requests, g.loadTxs numTxs = .ok requests → Generator.AllFrom a requests) ∧
    (∀ env, Generator.SetupFrom a (g.runLoadSetup env).state) ∧
    ∀ (env : CreateEnv SqliteDb.Database) database s,
      g.loadCreate env overridden.getCreateSteps database = .ok s → Generator.AllFrom a s.txs := by
  intro overridden
  have hread (call : FunctionCallDefinition) (i : ℕ) :
      g.fromAddress (call.overrideSender (g.foreign.addressToString a)) i = .ok a :=
    Generator.fromAddress_overrideSender hbrace hparse i
  refine ⟨?_, fun numTxs requests h => ?_, fun env => ?_, fun env database s h => ?_⟩
  · intro keccak256 addressOf iterate seed spec agents hiterate h pool hpool
    have hpos := (PlanConfig.buildAgentStore_ok hiterate h pool).1.mp hpool
    rw [TestConfig.accountsFor_overrideSenders] at hpos
    exact hpos.false
  · refine Generator.allFrom_loadTxs (fun step hstep call hcall i => ?_) h
    obtain ⟨own, rfl⟩ := TestConfig.exists_of_mem_spamSteps (hspam ▸ hstep) hcall
    exact hread own i
  · refine Generator.setupFrom_runLoadSetup fun call hcall i => ?_
    obtain ⟨own, -, rfl⟩ := TestConfig.exists_of_mem_setupSteps (hsetup ▸ hcall)
    exact hread own i
  · refine Generator.allFrom_loadCreate (fun create hcreate => ?_)
      (fun _ hmem => absurd hmem List.not_mem_nil) h
    obtain ⟨own, -, rfl⟩ := TestConfig.exists_of_mem_createSteps hcreate
    exact hread { toAddr := [] } 0

namespace PoolSenders

open Generator

/-- A scenario whose steps are all sent by accounts of pools. -/
def config : TestConfig where
  create := some
    [{ RedeployedToken.create "token" "6000" with
      fromAddr := none
      fromPool := some "admin".toList }]
  setup := some [{ toAddr := OneSender.account, fromPool := some "funders".toList }]
  spam := some
    [.tx { SharedName.setCall SharedName.smallFuzz with
      fromAddr := none
      fromPool := some "spammers".toList }]

/-- The generator of the scenario after the override. -/
def overridden : Generator :=
  { RedeployedToken.plan with
    setupSteps := (config.overrideSenders OneSender.account).getSetupSteps
    spamSteps := (config.overrideSenders OneSender.account).getSpamSteps }

/-- One transaction of each kind is generated, and comes from the address. -/
theorem overrideSenders_senders_pool : ∃ requests s t,
    overridden.loadTxs 1 = .ok requests ∧ requests.length = 1 ∧ AllFrom 0xdead requests ∧
      overridden.runLoadSetup OneSender.env = .ok () s ∧ s.txs.length = 1 ∧ SetupFrom 0xdead s ∧
      overridden.loadCreate RedeployedToken.env
        (config.overrideSenders OneSender.account).getCreateSteps RedeployedToken.database = .ok t ∧
      t.txs.length = 1 ∧ AllFrom 0xdead t.txs := by
  have hlength : (overridden.loadTxs 1).map List.length = .ok 1 := by decide +kernel
  obtain ⟨requests, hload, hone⟩ := Except.map_eq_ok_iff.mp hlength
  have hok : (overridden.runLoadSetup OneSender.env).isOk = true := by decide +kernel
  obtain ⟨⟨⟩, s, hs⟩ := EStateM.Result.exists_of_isOk hok
  have hcreated : (overridden.loadCreate RedeployedToken.env
      (config.overrideSenders OneSender.account).getCreateSteps RedeployedToken.database).map
        (fun t => t.txs.length) = .ok 1 := by decide +kernel
  obtain ⟨t, ht, htxs⟩ := Except.map_eq_ok_iff.mp hcreated
  obtain ⟨-, hspam, hsetup, hcreate⟩ :=
    overrideSenders_senders config overridden 0xdead (by decide) (by decide) rfl rfl
  have hfrom := hsetup OneSender.env
  rw [hs] at hfrom
  have hsent : (overridden.runLoadSetup OneSender.env).state.txs.length = 1 := by decide +kernel
  rw [hs] at hsent
  exact ⟨requests, s, t, hload, hone, hspam 1 requests hload, hs, hsent, hfrom, ht, htxs,
    hcreate RedeployedToken.env _ t ht⟩

end PoolSenders

/-- **A setup that cannot run.** The override takes the pool from a setup step that was for all
accounts of its pool: the steps then load only if there was none. -/
theorem overrideSenders_setup (config : TestConfig) (g : Generator) (fromAddress : Text)
    (env : SetupEnv) (s : SetupState)
    (hsetup : g.setupSteps = (config.overrideSenders fromAddress).getSetupSteps)
    (h : g.runLoadSetup env = .ok () s) :
    ∀ call ∈ config.setup.getD [], call.forAllAccounts = false := by
  intro call hcall
  have hmem : call.overrideSender fromAddress ∈ g.setupSteps := by
    rw [hsetup]
    exact TestConfig.mem_setupSteps_overrideSenders hcall
  have hnone := Generator.not_forAllAccounts_of_loadSetup h hmem rfl
  exact hnone

namespace PoolSenders

open Generator

theorem overrideSenders_setup_pool : ∃ s, overridden.runLoadSetup OneSender.env = .ok () s ∧
    ∀ call ∈ config.setup.getD [], call.forAllAccounts = false := by
  have hok : (overridden.runLoadSetup OneSender.env).isOk = true := by decide +kernel
  obtain ⟨⟨⟩, s, hs⟩ := EStateM.Result.exists_of_isOk hok
  exact ⟨s, hs, overrideSenders_setup config overridden OneSender.account OneSender.env s rfl hs⟩

end PoolSenders

end Contender
