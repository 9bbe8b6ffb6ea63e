import Contender.Campaign.Config
import Contender.Generator.Templater
import Contender.Semantics.Effect
import Contender.Sqlite.NamedTxs

/-!
# Running a campaign

A campaign first sets up the scenario files of all its stages, each with a seed of its own:
their contracts are deployed and stored under their names. Then it goes through the stages
and spams; builtin scenarios are set up when their stage begins. All setups store under the
same names, and the spammers look names up and find what was stored last.

`CampaignEnv` holds what a run takes from outside: the receipts of the deployments, and
which of the steps fail.

## Main results

* `usesOwnSetup_iff` — every contract that a scenario file spams is one of its own setup
  exactly when no other setup has stored the name since
* `ownValues_of_spamsOwnSetup` — then the placeholder map of its spam has no other addresses
-/

namespace Contender

open SqliteDb (InsertCall History lastStored)

/-! ## Builtin scenarios -/

inductive BuiltinScenarioCli
  | erc20
  | revert
  | stress
  | uniV2
  deriving DecidableEq, Repr

/-- `str::trim_start_matches`, with a bound on the number of matches. -/
def trimStartMatches (pattern : Text) : Nat → Text → Text
  | 0, text => text
  | bound + 1, text =>
    if pattern <+: text then trimStartMatches pattern bound (text.drop pattern.length) else text

def stripBuiltinName (name : Text) : Text :=
  trimStartMatches "builtin:".toList name.length (trim name)

/-- `parse_builtin_reference`. No letter outside ASCII has one of these letters as its
lowercase. -/
def parseBuiltinReference (name : Text) : Option BuiltinScenarioCli :=
  let norm := (stripBuiltinName name).map Char.toLower
  if norm = "erc20".toList then some .erc20
  else if norm = "revert".toList ∨ norm = "reverts".toList then some .revert
  else if norm = "stress".toList then some .stress
  else if norm = "uni_v2".toList ∨ norm = "univ2".toList ∨ norm = "uni-v2".toList then some .uniV2
  else none

/-! ## Scenario files -/

/-- What spamming reads of a scenario file. `env` has the variables of the command line in
it. -/
structure Testfile where
  env : AssocMap Text Text
  spam : List SpamRequest

/-- The keys that the loop of `find_placeholder_values` comes to. -/
def scannedKeys : Nat → Text → List Text
  | 0, _ => []
  | rounds + 1, input =>
    match findKey input with
    | .ok (some (key, stop)) => key :: scannedKeys rounds (input.drop (stop + 1))
    | _ => []

/-- The placeholders of a call. -/
def FunctionCallDefinition.placeholderKeys (call : FunctionCallDefinition) : List Text :=
  call.templates.flatMap fun arg => scannedKeys (numPlaceholders arg) arg

def Testfile.calls (testfile : Testfile) : List FunctionCallDefinition :=
  testfile.spam.flatMap SpamRequest.calls

/-- The placeholders that stand for contracts: the environment does not have them. -/
def Testfile.contractKeys (testfile : Testfile) : List Text :=
  (testfile.calls.flatMap FunctionCallDefinition.placeholderKeys).filter fun key =>
    key ≠ senderKey ∧ key ≠ setcodeKey ∧ key ∉ testfile.env

/-! ## The run -/

/-- A contract that a create step has deployed: the name of the step, and its receipt. -/
structure Deployment where
  name : Text
  transactionHash : TxHash
  contractAddress : Option Address
  deriving DecidableEq, Repr

/-- What setting a scenario up does: it simulates the setup on a fork of the chain, deploys
the contracts and runs the setup steps. Setup transactions have no names, so that only
deployments are stored. -/
structure SetupOutcome where
  forkUrl : Text
  forkGenesis : BitVec 256
  simulated : List Deployment
  deployments : List Deployment
  result : Except Text Unit

/-- What a campaign is run with. `rounds` is one, or any number with `--forever`. -/
structure CampaignEnv where
  rpcUrl : Text
  genesisHash : BitVec 256
  scenarioLabel : Option Text
  skipSetup : Bool
  overrideSenders : Bool
  rounds : Nat
  testfile : (scenario : Text) → Testfile
  setup : (stageIdx mixIdx : Nat) → SetupOutcome
  builtinSetup : (round stageIdx mixIdx : Nat) → SetupOutcome
  initResult : (round stageIdx mixIdx : Nat) → Except Text Unit
  spamResult : (round stageIdx mixIdx : Nat) → Except Text Unit
  dbErrorText : SqliteDb.Error → Text

/-- An entry of a mix, with its place in the campaign. -/
structure CampaignEntry (F : Type) where
  stageIdx : Nat
  mixIdx : Nat
  mix : ResolvedMixEntry F
  deriving DecidableEq

/-- An entry that spams, and the database it finds. Nothing is stored under a name while a
stage spams. -/
structure Spammed (F : Type) where
  round : Nat
  entry : CampaignEntry F
  database : SqliteDb.Database

structure CampaignState (F : Type) where
  history : History
  spams : List (Spammed F)

inductive CampaignRunError
  | db (e : SqliteDb.Error)
  | scenario (message : Text)
  | invalidArgs (message : Text)
  deriving DecidableEq, Repr

abbrev CampaignM (F : Type) := EStateM CampaignRunError (CampaignState F)

variable {F : Type}

namespace CampaignM

/-- `?` on a result. -/
def propagate : Except Text Unit → CampaignM F Unit
  | .ok () => pure ()
  | .error message => throw (.scenario message)

def insertNamedTxs (c : InsertCall) : CampaignM F Unit := do
  let history := (← get).history
  modify fun s => { s with history := history.call c }
  match (history.db.insertNamedTxs c.namedTxs c.rpcUrl c.genesisHash).2 with
  | .ok () => pure ()
  | .error e => throw (.db e)

/-- An entry begins to spam. -/
def startSpam (round : Nat) (entry : CampaignEntry F) : CampaignM F Unit :=
  modify fun s => { s with spams := s.spams ++ [⟨round, entry, s.history.db⟩] }

end CampaignM

/-- The entries of a stage. -/
def ResolvedStage.entries (stage : ResolvedStage F) (stageIdx : Nat) : List (CampaignEntry F) :=
  stage.mix.zipIdx.map fun (mix, mixIdx) => ⟨stageIdx, mixIdx, mix⟩

/-- The entries of all stages, in the order of their setups. -/
def campaignEntries (stages : List (ResolvedStage F)) : List (CampaignEntry F) :=
  stages.zipIdx.flatMap fun p => p.1.entries p.2

def ResolvedStage.activeScenarios (stage : ResolvedStage F) (stageIdx : Nat) :
    List (CampaignEntry F) :=
  (stage.entries stageIdx).filter fun entry => 0 < entry.mix.rate

def CampaignEntry.isBuiltin (entry : CampaignEntry F) : Bool :=
  (parseBuiltinReference entry.mix.scenario).isSome

namespace CampaignEnv

open CampaignM

variable (env : CampaignEnv)

/-- The call of `insert_named_txs` in `deploy_contract`. -/
def insertCall (rpcUrl : Text) (genesisHash : BitVec 256) (deployment : Deployment) : InsertCall :=
  ⟨[⟨scenarioDbKey deployment.name env.scenarioLabel, deployment.transactionHash,
    deployment.contractAddress⟩], rpcUrl, genesisHash⟩

/-- The calls of `insert_named_txs` that a setup makes. -/
def insertCalls (outcome : SetupOutcome) : List InsertCall :=
  outcome.simulated.map (env.insertCall outcome.forkUrl outcome.forkGenesis) ++
    outcome.deployments.map (env.insertCall env.rpcUrl env.genesisHash)

/-- `estimate_setup_cost`, `deploy_contracts` and `run_setup`. -/
def setupScenario (outcome : SetupOutcome) : CampaignM F Unit := do
  (env.insertCalls outcome).forM insertNamedTxs
  propagate outcome.result

/-- One round of the inner loop of the setup phase. -/
def setupEntry (entry : CampaignEntry F) : CampaignM F Unit :=
  if entry.mix.rate = 0 then pure ()
  -- builtins do their own setup during spam
  else if entry.isBuiltin then pure ()
  else env.setupScenario (env.setup entry.stageIdx entry.mixIdx)

/-- The setup phase of `run_campaign`. -/
def setupPhase (stages : List (ResolvedStage F)) : CampaignM F Unit :=
  if env.skipSetup then pure ()
  else stages.zipIdx.forM fun (stage, stageIdx) => (stage.entries stageIdx).forM env.setupEntry

/-- `prepare_scenario` and `init_scenario`: a scenario file skips its setup here. -/
def initScenario (round : Nat) (entry : CampaignEntry F) : CampaignM F Unit := do
  if entry.isBuiltin && !env.skipSetup then
    env.setupScenario (env.builtinSetup round entry.stageIdx entry.mixIdx)
  propagate (env.initResult round entry.stageIdx entry.mixIdx)

/-- `spam_inner`, once it has begun. -/
def finishSpam (round : Nat) (entry : CampaignEntry F) : CampaignM F Unit :=
  propagate (env.spamResult round entry.stageIdx entry.mixIdx)

def executeStage (round stageIdx : Nat) (stage : ResolvedStage F) : CampaignM F Unit :=
  match stage.activeScenarios stageIdx with
  | [] =>
    throw (.invalidArgs ("Stage \x27".toList ++ stage.name ++
      "\x27 has no scenarios with non-zero rate after resolution".toList))
  | [entry] => do
    env.initScenario round entry
    startSpam round entry
    env.finishSpam round entry
  | activeScenarios => do
    activeScenarios.forM (env.initScenario round)
    -- the spammers wait at a barrier until all scenarios are initialized
    activeScenarios.forM (startSpam round)
    activeScenarios.forM (env.finishSpam round)

/-- One round of the loop over the stages. -/
def runStage (round stageIdx : Nat) (stage : ResolvedStage F) : CampaignM F Unit :=
  if env.overrideSenders ∧ 1 < stage.mix.length then
    throw (.invalidArgs ("override-senders cannot be used when a stage has multiple mix " ++
      "entries; it would share one sender across mixes and cause nonce conflicts").toList)
  else env.executeStage round stageIdx stage

/-- `run_campaign`, for the stages it has resolved. -/
def runCampaign (stages : List (ResolvedStage F)) : CampaignM F Unit := do
  env.setupPhase stages
  (List.range env.rounds).forM fun round =>
    stages.zipIdx.forM fun (stage, stageIdx) => env.runStage round stageIdx stage

/-- The spammers of a run that starts after the given insertions. -/
def spams (before : List InsertCall) (stages : List (ResolvedStage F)) : List (Spammed F) :=
  (env.runCampaign stages ⟨History.of before, []⟩).state.spams

/-- Where a spammer looks placeholders up. The panic on a row without an address counts as a
failed query. -/
def source (database : SqliteDb.Database) : PlaceholderSource where
  getNamedTx := fun name =>
    match database.getNamedTx name env.rpcUrl env.genesisHash with
    | .ok namedTx => .ok (namedTx.map fun namedTx => ⟨namedTx.name, namedTx.address⟩)
    | .error e => .error (env.dbErrorText e)
  scenarioLabel := env.scenarioLabel

/-! ## The contracts that are spammed -/

/-- The setup of the entry deploys a contract of that name at the address. -/
def Deploys (entry : CampaignEntry F) (name : Text) (address : Address) : Prop :=
  ∃ deployment ∈ (env.setup entry.stageIdx entry.mixIdx).deployments,
    deployment.name = name ∧ deployment.contractAddress = some address

/-- Every contract placeholder that the spammer resolves yields an address that the setup of
the same entry has deployed under that name. -/
def SpamsOwnSetup (s : Spammed F) : Prop :=
  ∀ key ∈ (env.testfile s.entry.mix.scenario).contractKeys,
    ∃ address, env.Deploys s.entry key address ∧
      ∀ placeholderMap, key ∉ placeholderMap →
        (env.source s.database).lookupKey key placeholderMap =
          .ok (placeholderMap.insert key (encodeHexAddress address))

/-- All scenario files of the campaign spam the contracts of their own setups. -/
def UsesOwnSetup (before : List InsertCall) (stages : List (ResolvedStage F)) : Prop :=
  ∀ s ∈ env.spams before stages, s.entry.isBuiltin = false → env.SpamsOwnSetup s

/-! ### The order of the insertions -/

/-- What the setup phase inserts for an entry. -/
def entryCalls (entry : CampaignEntry F) : List InsertCall :=
  if entry.mix.rate = 0 ∨ entry.isBuiltin then []
  else env.insertCalls (env.setup entry.stageIdx entry.mixIdx)

/-- What initializing an entry inserts. -/
def initCalls (round : Nat) (entry : CampaignEntry F) : List InsertCall :=
  if entry.isBuiltin then
    env.insertCalls (env.builtinSetup round entry.stageIdx entry.mixIdx)
  else []

/-- What is inserted in a stage. -/
def stageCalls (round : Nat) (p : ResolvedStage F × Nat) : List InsertCall :=
  (p.1.activeScenarios p.2).flatMap (env.initCalls round)

/-- What is inserted between the setup phase and the spam of a stage: in the rounds before, and
in the stages of the round up to this one. -/
def callsInStages (stages : List (ResolvedStage F)) (round stageIdx : Nat) : List InsertCall :=
  ((List.range round).flatMap fun r => stages.zipIdx.flatMap (env.stageCalls r)) ++
    (stages.zipIdx.take (stageIdx + 1)).flatMap (env.stageCalls round)

/-- The entries that come to their setup from this one on. -/
def entriesFrom (stages : List (ResolvedStage F)) (entry : CampaignEntry F) :
    List (CampaignEntry F) :=
  (campaignEntries stages).dropWhile fun e =>
    ¬(e.stageIdx = entry.stageIdx ∧ e.mixIdx = entry.mixIdx)

/-- What is inserted from the setup of an entry to its spam. -/
def callsSince (stages : List (ResolvedStage F)) (round : Nat) (entry : CampaignEntry F) :
    List InsertCall :=
  (entriesFrom stages entry).flatMap env.entryCalls ++
    env.callsInStages stages round entry.stageIdx

/-- From the setup of the entry to its spam, the last contract that is stored under each name
it looks up is at an address that the setup of the entry itself has deployed under that
name. -/
def Undisturbed (stages : List (ResolvedStage F)) (round : Nat) (entry : CampaignEntry F) : Prop :=
  ∀ key ∈ (env.testfile entry.mix.scenario).contractKeys,
    ∃ address, env.Deploys entry key address ∧
      (lastStored (env.callsSince stages round entry) (scenarioDbKey key env.scenarioLabel)
        env.rpcUrl env.genesisHash).bind SqliteDb.NamedTx.address = some address

/-! ### What is stored when -/

section Stored

variable {env}

/-- The spammers so far satisfy `good`. -/
def Spamming (good : Spammed F → Prop) (s : CampaignState F) : Prop := ∀ spam ∈ s.spams, good spam

/-- The calls answered so far are those of `log`, and the spammers satisfy `good`. -/
structure Logged (good : Spammed F → Prop) (log : List InsertCall) (s : CampaignState F) :
    Prop where
  consistent : s.history.Consistent
  inserted : s.history.inserted = log
  spamming : Spamming good s

variable {good : Spammed F → Prop} {log : List InsertCall}

theorem triple_propagate (result : Except Text Unit) :
    EStateM.Triple (Logged good log) (propagate result) (Logged good log) (Spamming good) := by
  cases result with
  | ok => exact .pure (fun _ hs => hs) _
  | error message => exact .throw (fun _ hs => hs.spamming) _

/-- A call that is answered is the last one of the log. -/
theorem triple_insertNamedTxs (c : InsertCall) :
    EStateM.Triple (Logged good log) (insertNamedTxs c) (Logged good (log ++ [c]))
      (Spamming good) := by
  intro s hs
  have hconsistent := hs.consistent.call c
  unfold insertNamedTxs
  rw [EStateM.run_get_bind]
  cases hresult : (s.history.db.insertNamedTxs c.namedTxs c.rpcUrl c.genesisHash) with
  | mk db answer =>
    cases answer with
    | error e => exact hs.spamming
    | ok =>
      have hcall : (s.history.call c).inserted = log ++ [c] := by
        simp [History.call, hresult, hs.inserted]
      exact ⟨hconsistent, hcall, hs.spamming⟩

/-- A loop whose steps insert one after the other. -/
theorem triple_forM {α : Type} {f : α → CampaignM F Unit} {calls : α → List InsertCall}
    {l : List α}
    (hf : ∀ done a rest, l = done ++ a :: rest →
      EStateM.Triple (Logged good (log ++ done.flatMap calls)) (f a)
        (Logged good (log ++ done.flatMap calls ++ calls a)) (Spamming good)) :
    EStateM.Triple (Logged good log) (l.forM f) (Logged good (log ++ l.flatMap calls))
      (Spamming good) := by
  have hloop := EStateM.Triple.forM (l := l) (f := f) (E := Spamming good)
    (I := fun done => Logged good (log ++ done.flatMap calls)) fun done a rest hl => by
      rw [List.flatMap_append, List.flatMap_singleton, ← List.append_assoc]
      exact hf done a rest hl
  simpa only [List.flatMap_nil, List.append_nil] using hloop

theorem triple_setupScenario (outcome : SetupOutcome) :
    EStateM.Triple (Logged good log) (env.setupScenario outcome)
      (Logged good (log ++ env.insertCalls outcome)) (Spamming good) := by
  refine .bind ?_ fun _ => triple_propagate outcome.result
  have hloop : EStateM.Triple (Logged good log) ((env.insertCalls outcome).forM insertNamedTxs)
      (Logged good (log ++ (env.insertCalls outcome).flatMap fun c => [c])) (Spamming good) :=
    triple_forM fun _ c _ _ => triple_insertNamedTxs c
  rwa [List.flatMap_singleton'] at hloop

theorem triple_setupEntry (entry : CampaignEntry F) :
    EStateM.Triple (Logged good log) (env.setupEntry entry)
      (Logged good (log ++ env.entryCalls entry)) (Spamming good) := by
  unfold setupEntry entryCalls
  by_cases hrate : entry.mix.rate = 0
  · simp only [hrate, if_true, true_or, List.append_nil]
    exact .pure (fun _ hs => hs) _
  · by_cases hbuiltin : entry.isBuiltin
    · simp only [hrate, hbuiltin, if_false, if_true, or_true, List.append_nil]
      exact .pure (fun _ hs => hs) _
    · simp only [hrate, hbuiltin, if_false]
      exact triple_setupScenario _

theorem triple_setupPhase (hskip : env.skipSetup = false) (stages : List (ResolvedStage F)) :
    EStateM.Triple (Logged good log) (env.setupPhase stages)
      (Logged good (log ++ (campaignEntries stages).flatMap env.entryCalls)) (Spamming good) := by
  rw [setupPhase, hskip, campaignEntries, List.flatMap_assoc]
  exact triple_forM fun _ _ _ _ => triple_forM fun _ entry _ _ => triple_setupEntry entry

theorem triple_initScenario (hskip : env.skipSetup = false) (round : Nat)
    (entry : CampaignEntry F) :
    EStateM.Triple (Logged good log) (env.initScenario round entry)
      (Logged good (log ++ env.initCalls round entry)) (Spamming good) := by
  unfold initScenario initCalls
  rw [hskip]
  cases entry.isBuiltin with
  | true => exact .bind (triple_setupScenario _) fun _ => triple_propagate _
  | false =>
    simp only [Bool.false_and, Bool.false_eq_true, if_false, List.append_nil]
    exact triple_propagate _

/-- What a spammer that starts after the insertions of `log` may find in the database. -/
theorem triple_startSpam {round : Nat} {entry : CampaignEntry F}
    (hgood : ∀ history : History, history.Consistent → history.inserted = log →
      good ⟨round, entry, history.db⟩) :
    EStateM.Triple (Logged good log) (startSpam round entry) (Logged good log)
      (Spamming good) := by
  refine .update fun s hs => ⟨hs.consistent, hs.inserted, ?_⟩
  intro spam hspam
  rcases List.mem_append.mp hspam with hold | hnew
  · exact hs.spamming spam hold
  · rw [List.mem_singleton.mp hnew]
    exact hgood s.history hs.consistent hs.inserted

theorem triple_forM_of_keeps {f : CampaignEntry F → CampaignM F Unit}
    {entries : List (CampaignEntry F)}
    (hf : ∀ entry ∈ entries,
      EStateM.Triple (Logged good log) (f entry) (Logged good log) (Spamming good)) :
    EStateM.Triple (Logged good log) (entries.forM f) (Logged good log) (Spamming good) := by
  refine EStateM.Triple.forM (I := fun _ => Logged good log) fun done entry rest hl => ?_
  exact hf entry (hl ▸ List.mem_append_right done List.mem_cons_self)

/-- In a stage, all scenarios are initialized before the first of them spams. -/
theorem triple_executeStage (hskip : env.skipSetup = false) {round stageIdx : Nat}
    {stage : ResolvedStage F}
    (hgood : ∀ entry ∈ stage.activeScenarios stageIdx, ∀ history : History, history.Consistent →
      history.inserted = log ++ env.stageCalls round (stage, stageIdx) →
      good ⟨round, entry, history.db⟩) :
    EStateM.Triple (Logged good log) (env.executeStage round stageIdx stage)
      (Logged good (log ++ env.stageCalls round (stage, stageIdx))) (Spamming good) := by
  unfold executeStage
  unfold stageCalls at hgood ⊢
  dsimp only at hgood ⊢
  cases hactive : stage.activeScenarios stageIdx with
  | nil => exact .throw (fun _ hs => hs.spamming) _
  | cons entry rest =>
    rw [hactive] at hgood
    cases rest with
    | nil =>
      rw [List.flatMap_singleton] at hgood ⊢
      refine .bind (triple_initScenario hskip round entry) fun _ => ?_
      exact .bind (triple_startSpam (hgood entry List.mem_cons_self)) fun _ => triple_propagate _
    | cons other rest =>
      refine .bind (triple_forM fun _ e _ _ => triple_initScenario hskip round e) fun _ => ?_
      refine .bind (triple_forM_of_keeps fun e he => triple_startSpam (hgood e he)) fun _ => ?_
      exact triple_forM_of_keeps fun e _ => triple_propagate _

end Stored

section Run

variable {env} {before : List InsertCall} {stages : List (ResolvedStage F)}

/-- The spammer has a rate, and the database it finds holds what the campaign has inserted
before. -/
structure Informed (env : CampaignEnv) (before : List InsertCall)
    (stages : List (ResolvedStage F)) (spam : Spammed F) : Prop where
  mem : spam.entry ∈ campaignEntries stages
  active : 0 < spam.entry.mix.rate
  stored : ∃ history : History, history.Consistent ∧ history.db = spam.database ∧
    history.inserted = (History.of before).inserted ++
      ((campaignEntries stages).flatMap env.entryCalls ++
        env.callsInStages stages spam.round spam.entry.stageIdx)

theorem stageIdx_of_mem_activeScenarios {stage : ResolvedStage F} {stageIdx : Nat}
    {entry : CampaignEntry F} (h : entry ∈ stage.activeScenarios stageIdx) :
    entry.stageIdx = stageIdx := by
  obtain ⟨p, -, rfl⟩ := List.mem_map.mp (List.mem_of_mem_filter h)
  rfl

/-- The spammers of a stage find what was inserted up to it. -/
theorem triple_runStage (hskip : env.skipSetup = false) {round : Nat}
    {done rest : List (ResolvedStage F × Nat)} {p : ResolvedStage F × Nat}
    (hsplit : stages.zipIdx = done ++ p :: rest) {log : List InsertCall}
    (hlog : log = (History.of before).inserted ++ (campaignEntries stages).flatMap env.entryCalls ++
      (List.range round).flatMap fun r => stages.zipIdx.flatMap (env.stageCalls r)) :
    EStateM.Triple
      (Logged (Informed env before stages) (log ++ done.flatMap (env.stageCalls round)))
      (env.runStage round p.2 p.1)
      (Logged (Informed env before stages)
        (log ++ done.flatMap (env.stageCalls round) ++ env.stageCalls round p))
      (Spamming (Informed env before stages)) := by
  unfold runStage
  split_ifs
  · exact .throw (fun _ hs => hs.spamming) _
  · refine triple_executeStage hskip fun entry hentry history hconsistent hinserted => ?_
    have hmem : p ∈ stages.zipIdx := hsplit ▸ List.mem_append_right done List.mem_cons_self
    have hlength := List.length_of_zipIdx_eq_append hsplit
    have htake : stages.zipIdx.take (p.2 + 1) = done ++ [p] := by
      rw [hsplit, List.append_cons]
      exact List.take_left' (by simp [hlength])
    refine ⟨List.mem_flatMap.mpr ⟨p, hmem, List.mem_of_mem_filter hentry⟩,
      of_decide_eq_true (List.mem_filter.mp hentry).2, history, hconsistent, rfl, ?_⟩
    rw [hinserted, callsInStages, stageIdx_of_mem_activeScenarios hentry, htake, hlog,
      List.flatMap_append, List.flatMap_singleton]
    simp only [List.append_assoc]

/-- Every spammer of a run finds what the campaign has inserted before. -/
theorem informed_of_mem_spams (hskip : env.skipSetup = false) {spam : Spammed F}
    (hspam : spam ∈ env.spams before stages) : Informed env before stages spam := by
  have hrun : EStateM.Triple (Logged (Informed env before stages) (History.of before).inserted)
      (env.runCampaign stages)
      (Logged (Informed env before stages) ((History.of before).inserted ++
        (campaignEntries stages).flatMap env.entryCalls ++
          (List.range env.rounds).flatMap fun r => stages.zipIdx.flatMap (env.stageCalls r)))
      (Spamming (Informed env before stages)) := by
    refine .bind (triple_setupPhase hskip stages) fun _ => triple_forM fun done round rest hl => ?_
    have hdone := List.eq_range_of_range_eq_append hl
    refine triple_forM fun doneStages p restStages hsplit => ?_
    exact triple_runStage hskip hsplit (by rw [hdone])
  have hstart : Logged (Informed env before stages) (History.of before).inserted
      ⟨History.of before, []⟩ :=
    ⟨History.consistent_of before, rfl, by simp [Spamming]⟩
  exact hrun.state (R := Spamming (Informed env before stages)) (fun _ hs => hs.spamming)
    (fun _ hs => hs) hstart spam hspam

/-! ### What a spammer resolves -/

theorem encodeHexAddress_injective : Function.Injective encodeHexAddress := by
  intro a b h
  have hread : ∀ address, SqliteDb.fromHex 40 160 (encodeHexAddress address) = some address :=
    SqliteDb.fromHex_encodeHex (by decide) (by decide)
  have hsome : some a = some b := by rw [← hread a, h, hread b]
  exact Option.some.inj hsome

theorem lookupKey_of_getNamedTx {database : SqliteDb.Database} {key : Text}
    (hsender : key ≠ senderKey) (hsetcode : key ≠ setcodeKey) {placeholderMap : AssocMap Text Text}
    (hkey : key ∉ placeholderMap) {namedTx : SqliteDb.NamedTx}
    (hfound : database.getNamedTx (scenarioDbKey key env.scenarioLabel) env.rpcUrl
      env.genesisHash = .ok (some namedTx)) :
    (env.source database).lookupKey key placeholderMap =
      .ok (placeholderMap.insert key ((namedTx.address.map encodeHexAddress).getD [])) := by
  simp [PlaceholderSource.lookupKey, source, hsender, hsetcode, hkey, hfound]

/-- A placeholder yields the address that is stored last under its name. -/
theorem lookupKey_eq_ok_iff {history : History} (hh : history.Consistent) {key : Text}
    (hsender : key ≠ senderKey) (hsetcode : key ≠ setcodeKey) {placeholderMap : AssocMap Text Text}
    (hkey : key ∉ placeholderMap) {address : Address} :
    (env.source history.db).lookupKey key placeholderMap =
        .ok (placeholderMap.insert key (encodeHexAddress address)) ↔
      (lastStored history.inserted (scenarioDbKey key env.scenarioLabel) env.rpcUrl
        env.genesisHash).bind SqliteDb.NamedTx.address = some address := by
  unfold PlaceholderSource.lookupKey source
  simp only [hsender, hsetcode, hkey, or_self, if_false,
    SqliteDb.getNamedTx_of_consistent hh]
  cases lastStored history.inserted (scenarioDbKey key env.scenarioLabel) env.rpcUrl
      env.genesisHash with
  | none => exact iff_of_false (fun h => by cases h) fun h => by cases h
  | some namedTx =>
    cases haddress : namedTx.address with
    | none =>
      simp only [Option.elim_some, haddress, Option.isSome_none, Bool.false_eq_true, if_false]
      rw [Option.bind_some, haddress]
      exact iff_of_false (fun h => by cases h) fun h => by cases h
    | some stored =>
      simp only [Option.elim_some, haddress, Option.isSome_some, if_true, Option.map_some,
        Option.getD_some, Option.bind_some, Except.ok.injEq, Option.some.injEq]
      constructor
      · intro h
        have hvalue := congrArg (AList.lookup key) h
        rw [AList.lookup_insert, AList.lookup_insert] at hvalue
        exact encodeHexAddress_injective (Option.some.inj hvalue)
      · rintro rfl
        rfl

/-- The values of the map are those of the scenario file, and addresses of the entry's own
setup. -/
structure OwnValues (env : CampaignEnv) (entry : CampaignEntry F)
    (placeholderMap : AssocMap Text Text) : Prop where
  subset : ∀ key ∈ (env.testfile entry.mix.scenario).env, key ∈ placeholderMap
  own : ∀ key value, placeholderMap.lookup key = some value →
    (env.testfile entry.mix.scenario).env.lookup key = some value ∨
      ∃ address, env.Deploys entry key address ∧ value = encodeHexAddress address

variable {s : Spammed F} {placeholderMap resolved : AssocMap Text Text}

theorem ownValues_of_lookupKey (hown : env.SpamsOwnSetup s) {key : Text}
    (hkey : key ∈ (env.testfile s.entry.mix.scenario).calls.flatMap
      FunctionCallDefinition.placeholderKeys)
    (hvalues : OwnValues env s.entry placeholderMap)
    (h : (env.source s.database).lookupKey key placeholderMap = .ok resolved) :
    OwnValues env s.entry resolved := by
  by_cases hspecial : key = senderKey ∨ key = setcodeKey
  · rw [PlaceholderSource.lookupKey, if_pos hspecial] at h
    exact Except.ok.inj h ▸ hvalues
  · by_cases hmem : key ∈ placeholderMap
    · rw [PlaceholderSource.lookupKey, if_neg hspecial, if_pos hmem] at h
      exact Except.ok.inj h ▸ hvalues
    · obtain ⟨hsender, hsetcode⟩ := not_or.mp hspecial
      have hcontract : key ∈ (env.testfile s.entry.mix.scenario).contractKeys :=
        List.mem_filter.mpr ⟨hkey, decide_eq_true
          ⟨hsender, hsetcode, fun henv => hmem (hvalues.subset key henv)⟩⟩
      obtain ⟨address, hdeploys, hlookup⟩ := hown key hcontract
      rw [hlookup placeholderMap hmem] at h
      obtain rfl := Except.ok.inj h
      refine ⟨fun k hk => (AList.mem_insert _).mpr (.inr (hvalues.subset k hk)),
        fun k value hk => ?_⟩
      by_cases heq : k = key
      · subst heq
        rw [AList.lookup_insert] at hk
        exact .inr ⟨address, hdeploys, (Option.some.inj hk).symm⟩
      · rw [AList.lookup_insert_ne heq] at hk
        exact hvalues.own k value hk

/-- One text: the values that are found are addresses of the entry's own setup. -/
theorem ownValues_of_scanPlaceholders (hown : env.SpamsOwnSetup s) (arg : Text) {rounds : Nat}
    {input : Text}
    (hkeys : scannedKeys rounds input ⊆
      (env.testfile s.entry.mix.scenario).calls.flatMap FunctionCallDefinition.placeholderKeys)
    (hvalues : OwnValues env s.entry placeholderMap)
    (h : (env.source s.database).scanPlaceholders arg rounds input placeholderMap = .ok resolved) :
    OwnValues env s.entry resolved := by
  induction rounds generalizing input placeholderMap with
  | zero => exact Except.ok.inj h ▸ hvalues
  | succ rounds ih =>
    unfold scannedKeys at hkeys
    obtain ⟨found, hfound, h⟩ := Except.bind_eq_ok_iff.mp h
    cases found with
    | none => exact nomatch h
    | some found =>
      obtain ⟨key, stop⟩ := found
      rw [hfound] at hkeys
      obtain ⟨hkey, hrest⟩ := List.cons_subset.mp hkeys
      obtain ⟨next, hnext, h⟩ := Except.bind_eq_ok_iff.mp h
      exact ih hrest (ownValues_of_lookupKey hown hkey hvalues hnext) h

/-- A spammer that resolves its contracts to its own setup has nothing else in its placeholder
map than the values of the file and the addresses of that setup. -/
theorem ownValues_of_spamsOwnSetup (hown : env.SpamsOwnSetup s)
    (h : (env.testfile s.entry.mix.scenario).calls.foldlM
      (env.source s.database).findFncallPlaceholders (env.testfile s.entry.mix.scenario).env =
        .ok resolved) : OwnValues env s.entry resolved := by
  have hstart : OwnValues env s.entry (env.testfile s.entry.mix.scenario).env :=
    ⟨fun _ hk => hk, fun _ _ hk => .inl hk⟩
  refine List.foldlM_ok_of_forall_mem (fun call hcall map next hmap hnext => ?_) hstart h
  refine List.foldlM_ok_of_forall_mem (fun arg harg map next hmap hnext => ?_) hmap hnext
  refine ownValues_of_scanPlaceholders hown arg (fun key hkey => ?_) hmap hnext
  exact List.mem_flatMap.mpr ⟨call, hcall, List.mem_flatMap.mpr ⟨arg, harg, hkey⟩⟩

end Run

/-! ### Since the setup of an entry -/

section Since

variable {env} {stages : List (ResolvedStage F)} {entry : CampaignEntry F}

theorem lastStored_append (earlier later : List InsertCall) (name rpcUrl : Text)
    (genesisHash : BitVec 256) :
    lastStored (earlier ++ later) name rpcUrl genesisHash =
      (lastStored later name rpcUrl genesisHash).or
        (lastStored earlier name rpcUrl genesisHash) := by
  unfold lastStored
  rw [List.filter_append, List.flatMap_append, List.getLast?_append]

theorem isSome_lastStored {inserted : List InsertCall} {c : InsertCall} (hc : c ∈ inserted)
    {rpcUrl : Text} {genesisHash : BitVec 256}
    (hchain : c.chain = some (rpcUrl, SqliteDb.genesisText genesisHash))
    {namedTx : SqliteDb.NamedTx} (hnamedTx : namedTx ∈ c.namedTxs) :
    (lastStored inserted namedTx.name rpcUrl genesisHash).isSome := by
  unfold lastStored
  rw [List.getLast?_isSome]
  exact List.ne_nil_of_mem (List.mem_flatMap.mpr
    ⟨c, List.mem_filter.mpr ⟨hc, decide_eq_true hchain⟩,
      List.mem_filter.mpr ⟨hnamedTx, decide_eq_true rfl⟩⟩)

/-- The entries are those before an entry, which are others, and those from it on. -/
theorem campaignEntries_eq_append (stages : List (ResolvedStage F)) (entry : CampaignEntry F) :
    ∃ earlier, campaignEntries stages = earlier ++ entriesFrom stages entry ∧ entry ∉ earlier := by
  refine ⟨_, (List.takeWhile_append_dropWhile (l := campaignEntries stages)).symm,
    fun hbefore => ?_⟩
  have hother := List.mem_takeWhile_imp hbefore
  simp at hother

theorem mem_entriesFrom (hmem : entry ∈ campaignEntries stages) :
    entry ∈ entriesFrom stages entry := by
  obtain ⟨earlier, heq, hnot⟩ := campaignEntries_eq_append stages entry
  rw [heq, List.mem_append] at hmem
  exact hmem.resolve_left hnot

/-- The setup of a scenario file with a rate inserts its deployments. -/
theorem insertCall_mem_callsSince (hmem : entry ∈ campaignEntries stages)
    (hrate : 0 < entry.mix.rate) (hfile : entry.isBuiltin = false) {deployment : Deployment}
    (hdeployment : deployment ∈ (env.setup entry.stageIdx entry.mixIdx).deployments)
    (round : Nat) :
    env.insertCall env.rpcUrl env.genesisHash deployment ∈ env.callsSince stages round entry := by
  have hcalls : env.entryCalls entry = env.insertCalls (env.setup entry.stageIdx entry.mixIdx) := by
    rw [entryCalls, if_neg]
    rw [hfile]
    simpa using hrate.ne'
  have hown : env.insertCall env.rpcUrl env.genesisHash deployment ∈ env.entryCalls entry := by
    rw [hcalls]
    exact List.mem_append_right _ (List.mem_map_of_mem hdeployment)
  exact List.mem_append_left _ (List.mem_flatMap.mpr ⟨entry, mem_entriesFrom hmem, hown⟩)

end Since

/-- In every run, the scenario files spam the contracts of their own setups exactly when, for
each of them that spams, nothing has been stored at another address under the names it looks
up since its own setup. -/
theorem usesOwnSetup_iff (hskip : env.skipSetup = false) (hquote : Sql.quote ∉ env.rpcUrl)
    (before : List InsertCall) (stages : List (ResolvedStage F)) :
    env.UsesOwnSetup before stages ↔
      ∀ s ∈ env.spams before stages, s.entry.isBuiltin = false →
        env.Undisturbed stages s.round s.entry := by
  refine forall₃_congr fun s hs hfile => ?_
  obtain ⟨hmem, hactive, history, hconsistent, hdatabase, hinserted⟩ :=
    informed_of_mem_spams hskip hs
  obtain ⟨earlier, hearlier, -⟩ := campaignEntries_eq_append stages s.entry
  have hlog : history.inserted =
      (History.of before).inserted ++ earlier.flatMap env.entryCalls ++
        env.callsSince stages s.round s.entry := by
    rw [hinserted, hearlier, callsSince, List.flatMap_append]
    simp only [List.append_assoc]
  refine forall₂_congr fun key hkey => exists_congr fun address => and_congr_right fun hown => ?_
  obtain ⟨hsender, hsetcode, -⟩ := of_decide_eq_true (List.mem_filter.mp hkey).2
  -- the deployment of the entry itself is stored, so that what came before it is not found
  have hlast : lastStored history.inserted (scenarioDbKey key env.scenarioLabel) env.rpcUrl
      env.genesisHash = lastStored (env.callsSince stages s.round s.entry)
        (scenarioDbKey key env.scenarioLabel) env.rpcUrl env.genesisHash := by
    obtain ⟨deployment, hdeployment, rfl, -⟩ := hown
    have hc := insertCall_mem_callsSince hmem hactive hfile hdeployment s.round
    have hinserted : env.insertCall env.rpcUrl env.genesisHash deployment ∈ history.inserted := by
      rw [hlog]
      exact List.mem_append_right _ hc
    have hchain := hconsistent.chain_eq hinserted hquote
    have hsome := isSome_lastStored hc hchain List.mem_cons_self
    rw [hlog, lastStored_append]
    exact Option.or_of_isSome hsome
  rw [← hlast, ← hdatabase]
  constructor
  · intro h
    exact (lookupKey_eq_ok_iff hconsistent hsender hsetcode (AList.notMem_empty key)).mp
      (h ∅ (AList.notMem_empty key))
  · intro h placeholderMap hmap
    exact (lookupKey_eq_ok_iff hconsistent hsender hsetcode hmap).mpr h

end CampaignEnv

namespace TwoStages

def url : Text := "http://localhost:8545".toList

def token : Text := "token".toList

def pool : Text := "pool".toList

def tokenFile : Text := "token.toml".toList

def poolFile : Text := "pool.toml".toList

def erc20 : Text := "builtin:erc20".toList

/-- The setup of a scenario deploys one contract. -/
def deploy (name : Text) (txHash : TxHash) (address : Address) : SetupOutcome where
  forkUrl := "http://localhost:40001".toList
  forkGenesis := 0x5
  simulated := [⟨name, 0x1, some 0xcc⟩]
  deployments := [⟨name, txHash, some address⟩]
  result := .ok ()

/-- Each of the files calls the contract it is named after. The setup of the first stage
deploys the token, that of the second one the given contract. -/
def env (second : Text) : CampaignEnv where
  rpcUrl := url
  genesisHash := 0x5
  scenarioLabel := none
  skipSetup := false
  overrideSenders := false
  rounds := 1
  testfile := fun scenario =>
    ⟨∅, [.tx { toAddr := placeholder (if scenario = tokenFile then token else pool) }]⟩
  setup := fun stageIdx _ =>
    if stageIdx = 0 then deploy token 0x2 0xaa else deploy second 0x3 0xbb
  builtinSetup := fun _ _ _ => deploy "testToken".toList 0x4 0xdd
  initResult := fun _ _ _ => .ok ()
  spamResult := fun _ _ _ => .ok ()
  dbErrorText := fun _ => []

def stage (name : String) (mix : List (ResolvedMixEntry ℚ)) : ResolvedStage ℚ :=
  ⟨name.toList, 2, 10, none, mix⟩

/-- The same file in two stages. -/
def repeated : List (ResolvedStage ℚ) :=
  [stage "warmup" [⟨tokenFile, 100, 2⟩], stage "peak" [⟨tokenFile, 100, 2⟩]]

/-- A file for each stage, and a builtin scenario next to the second one. -/
def distinct : List (ResolvedStage ℚ) :=
  [stage "warmup" [⟨tokenFile, 100, 2⟩],
    stage "peak" [⟨poolFile, 50, 1⟩, ⟨erc20, 50, 1⟩]]

def config : CampaignConfig ℚ where
  name := "campaign".toList
  spam := {
    rate := some 2
    duration := some 10
    stageTimeout := none
    stage := [⟨"warmup".toList, none, none, [⟨tokenFile, 100⟩]⟩,
      ⟨"peak".toList, none, none, [⟨tokenFile, 100⟩]⟩]
    mix := none }

theorem contractKeys_tokenFile (second : Text) :
    ((env second).testfile tokenFile).contractKeys = [token] := by
  change ((env token).testfile tokenFile).contractKeys = [token]
  decide +kernel

/-- The first stage spams the token of the second one. -/
theorem not_usesOwnSetup_repeated :
    config.resolve .exact = .ok repeated ∧ ¬(env token).UsesOwnSetup [] repeated := by
  refine ⟨by decide +kernel, fun h => ?_⟩
  have hspams : ((env token).spams [] repeated).map (fun s =>
      (s.entry.stageIdx, s.entry.mixIdx, s.entry.mix.scenario,
        s.database.getNamedTx token url 0x5)) =
        [(0, 0, tokenFile, .ok (some ⟨token, 0x3, some 0xbb⟩)),
          (1, 0, tokenFile, .ok (some ⟨token, 0x3, some 0xbb⟩))] := by decide +kernel
  obtain ⟨s, hs, hread⟩ := List.mem_map.mp (hspams ▸ List.mem_cons_self)
  simp only [Prod.mk.injEq] at hread
  obtain ⟨hstage, hmix, hscenario, hfound⟩ := hread
  have hfile : s.entry.isBuiltin = false := by
    rw [CampaignEntry.isBuiltin, hscenario]
    decide +kernel
  have hkey : token ∈ ((env token).testfile s.entry.mix.scenario).contractKeys := by
    rw [hscenario, contractKeys_tokenFile]
    exact List.mem_cons_self
  obtain ⟨address, ⟨deployment, hmem, -, haddress⟩, hown⟩ := h s hs hfile token hkey
  rw [hstage, hmix] at hmem
  obtain rfl : deployment = ⟨token, 0x2, some 0xaa⟩ := List.mem_singleton.mp hmem
  obtain rfl := Option.some.inj haddress
  have hother : ((env token).source s.database).lookupKey token ∅ = _ :=
    CampaignEnv.lookupKey_of_getNamedTx (by decide) (by decide) (AList.notMem_empty token) hfound
  rw [hown ∅ (AList.notMem_empty token), Except.ok.injEq] at hother
  have hvalue := congrArg (AList.lookup token) hother
  rw [AList.lookup_insert, AList.lookup_insert] at hvalue
  exact absurd (Option.some.inj hvalue) (by decide +kernel)

/-- With names of their own, all stages spam what they have set up. -/
theorem usesOwnSetup_distinct :
    (env pool).UsesOwnSetup [] distinct ∧
      ((env pool).spams [] distinct).map (fun s => s.entry.mix.scenario) =
        [tokenFile, poolFile, erc20] := by
  have hspams : ((env pool).spams [] distinct).map (fun s =>
      (s.round, s.entry.stageIdx, s.entry.mixIdx, s.entry.mix.scenario)) =
        [(0, 0, 0, tokenFile), (0, 1, 0, poolFile), (0, 1, 1, erc20)] := by decide +kernel
  refine ⟨((env pool).usesOwnSetup_iff rfl (by decide +kernel) [] distinct).mpr
    fun s hs hfile => ?_, by decide +kernel⟩
  have hread : (s.round, s.entry.stageIdx, s.entry.mixIdx, s.entry.mix.scenario) ∈
      [(0, 0, 0, tokenFile), (0, 1, 0, poolFile), (0, 1, 1, erc20)] := by
    rw [← hspams]
    exact List.mem_map.mpr ⟨s, hs, rfl⟩
  simp only [List.mem_cons, List.not_mem_nil, or_false, Prod.mk.injEq] at hread
  -- share and rate of an entry do not matter
  change (env pool).Undisturbed distinct s.round
    ⟨s.entry.stageIdx, s.entry.mixIdx, ⟨s.entry.mix.scenario, 0, 0⟩⟩
  rcases hread with ⟨hround, hstage, hmix, hscenario⟩ | ⟨hround, hstage, hmix, hscenario⟩ |
    ⟨-, -, -, hscenario⟩
  · rw [hround, hstage, hmix, hscenario]
    intro key hkey
    rw [contractKeys_tokenFile] at hkey
    obtain rfl := List.mem_singleton.mp hkey
    exact ⟨0xaa, ⟨_, List.mem_cons_self, rfl, rfl⟩, by decide +kernel⟩
  · rw [hround, hstage, hmix, hscenario]
    intro key hkey
    have hkeys : ((env pool).testfile poolFile).contractKeys = [pool] := by decide +kernel
    rw [hkeys] at hkey
    obtain rfl := List.mem_singleton.mp hkey
    exact ⟨0xbb, ⟨_, List.mem_cons_self, rfl, rfl⟩, by decide +kernel⟩
  · have hbuiltin : s.entry.isBuiltin = true := by
      rw [CampaignEntry.isBuiltin, hscenario]
      decide +kernel
    exact absurd hfile (by rw [hbuiltin]; decide)

end TwoStages

end Contender
