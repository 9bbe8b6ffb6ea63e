import Contender.Generator.CreateDef
import Contender.Generator.FuzzBounds
import Contender.Generator.PlaceholderScan
import Contender.Generator.SetupPlan
import Contender.Sqlite.NamedTxs

/-!
# Loading the contract creations

`load_txs(PlanType::Create)` goes through the create steps. It looks up the placeholders
of a step, makes its request, and hands the request to the callback, which deploys the
contract and stores it under its name before the next step is looked at. One map of
placeholders is kept for the whole plan, and a key that is in it is not looked up again.
-/

namespace Contender

/-- What the loop uses from outside: the named transactions of the database, the node's
transaction counts, and the callback, which answers with the database after it. -/
structure CreateEnv (σ : Type) where
  getNamedTx : σ → Text → Except Text (Option NamedTx)
  transactionCount : Address → Except Text Nat
  onCreateStep : σ → NamedTxRequest → Except SetupError σ

/-- The local variables of the loop, and the database. -/
structure CreateState (σ : Type) where
  placeholderMap : AssocMap Text Text
  nextNonce : AssocMap Address Nat
  database : σ
  txs : List ExecutionRequest

/-- `?` on an error of the generator. -/
def SetupError.ofGenerator {α : Type} : Except GeneratorError α → Except SetupError α :=
  Except.mapError .generator

namespace Generator

section Plan

variable {σ : Type} (g : Generator) (env : CreateEnv σ)

/-- Where placeholders are looked up, with the database as it is at one moment. -/
def sourceAt (database : σ) : PlaceholderSource :=
  (g.withDatabase (env.getNamedTx database)).source

/-- The next nonce of the sender, fetched from the node the first time, and the nonces
after it. -/
def createNonce (sender : Address) (nextNonce : AssocMap Address Nat) :
    Except SetupError (Nat × AssocMap Address Nat) := do
  let nonce ←
    match nextNonce.lookup sender with
    | some nonce => .ok nonce
    | none => (env.transactionCount sender).mapError .rpc
  let next ← SetupError.ofGenerator (orError .panic (addU64 nonce 1))
  return (nonce, nextNonce.insert sender next)

/-- One round of the loop. -/
def createStep (s : CreateState σ) (step : CreateDefinition) :
    Except SetupError (CreateState σ) := do
  let placeholderMap ← SetupError.ofGenerator
    ((g.sourceAt env s.database).findCreatePlaceholders s.placeholderMap step)
  let strict ← SetupError.ofGenerator (g.makeStrictCreate step 0)
  let tx ← SetupError.ofGenerator (g.foreign.templateContractDeploy placeholderMap strict)
  let sender ← SetupError.ofGenerator (orError .panic tx.fromAddr)
  let (nonce, nextNonce) ← createNonce env sender s.nextNonce
  let req : NamedTxRequest := { tx := { tx with nonce := some nonce }, name := some strict.name }
  -- the task of the callback is awaited before the next step
  let database ← env.onCreateStep s.database req
  return { placeholderMap, nextNonce, database, txs := s.txs ++ [.tx req] }

/-- The state the loop begins with. -/
def createInit (database : σ) : CreateState σ where
  placeholderMap := g.env
  nextNonce := g.nonces
  database
  txs := []

/-- `load_txs(PlanType::Create)`. -/
def loadCreate (steps : List CreateDefinition) (database : σ) :
    Except SetupError (CreateState σ) :=
  steps.foldlM (g.createStep env) (g.createInit database)

/-! ### The placeholders of a step -/

/-- The step has a placeholder that stands for a contract: its key is not special and not
in the environment. -/
def RefersTo (step : CreateDefinition) (key : Text) : Prop :=
  BraceFree key ∧ key ≠ senderKey ∧ key ≠ setcodeKey ∧ key ∉ g.env ∧
    ∃ text ∈ step.templates, placeholder key <:+: text

/-- The loop has come to the `k`-th step and has filled in the map for it: `s` is the
state before the step, and `filled` the map that the step is templated with. -/
structure ComesTo (steps : List CreateDefinition) (database : σ) (k : Nat) (s : CreateState σ)
    (step : CreateDefinition) (filled : AssocMap Text Text) : Prop where
  before : (steps.take k).foldlM (g.createStep env) (g.createInit database) = .ok s
  current : steps[k]? = some step
  filled : (g.sourceAt env s.database).findCreatePlaceholders s.placeholderMap step = .ok filled

/-- Every step is templated with the addresses that the database has before it. -/
def SeesLatest (steps : List CreateDefinition) (database : σ) : Prop :=
  ∀ k s step filled, g.ComesTo env steps database k s step filled →
    ∀ key, g.RefersTo step key →
      filled.lookup key = (g.sourceAt env s.database).deployed key

/-- Between two steps that refer to a name, its address in the database stays the same. -/
def Settled (steps : List CreateDefinition) (database : σ) : Prop :=
  ∀ j k s t step later filled filled', j < k → g.ComesTo env steps database j s step filled →
    g.ComesTo env steps database k t later filled' →
      ∀ key, g.RefersTo step key → g.RefersTo later key →
        (g.sourceAt env s.database).deployed key = (g.sourceAt env t.database).deployed key

variable {g env} {steps : List CreateDefinition} {database : σ} {s t : CreateState σ}
  {step : CreateDefinition} {filled : AssocMap Text Text} {k : Nat} {key : Text}

theorem createGenerator_eq_ok {α : Type} {x : Except GeneratorError α} {a : α} :
    SetupError.ofGenerator x = .ok a ↔ x = .ok a := Except.mapError_eq_ok_iff

/-- A step leaves the map it was templated with. -/
theorem createStep_ok (h : g.createStep env s step = .ok t) :
    (g.sourceAt env s.database).findCreatePlaceholders s.placeholderMap step =
      .ok t.placeholderMap := by
  simp only [createStep, Except.bind_eq_ok_iff, createGenerator_eq_ok, Except.pure_eq_ok_iff] at h
  obtain ⟨filled, hfilled, strict, -, tx, -, sender, -, ⟨nonce, nextNonce⟩, -, db, -, rfl⟩ := h
  exact hfilled

theorem ComesTo.fills (h : g.ComesTo env steps database k s step filled) :
    (g.sourceAt env s.database).Fills step.templates s.placeholderMap filled :=
  PlaceholderSource.fills_of_foldlM h.filled

/-- The state after a step. -/
theorem comesTo_of_take_succ (hk : k < steps.length)
    (h : (steps.take (k + 1)).foldlM (g.createStep env) (g.createInit database) = .ok t) :
    ∃ s step, g.ComesTo env steps database k s step t.placeholderMap := by
  rw [List.take_succ_eq_append_getElem hk, List.foldlM_append, Except.bind_eq_ok_iff] at h
  obtain ⟨s, hs, hstep⟩ := h
  rw [List.foldlM_cons, Except.bind_eq_ok_iff] at hstep
  obtain ⟨t', hstep, ht⟩ := hstep
  obtain rfl := Except.ok.inj ht
  exact ⟨s, steps[k], hs, List.getElem?_eq_getElem hk, createStep_ok hstep⟩

theorem ComesTo.eq {step' : CreateDefinition} {filled' : AssocMap Text Text}
    (h : g.ComesTo env steps database k s step filled)
    (h' : g.ComesTo env steps database k t step' filled') : filled = filled' := by
  obtain rfl := Except.ok.inj (h.before.symm.trans h'.before)
  obtain rfl := Option.some.inj (h.current.symm.trans h'.current)
  exact Except.ok.inj (h.filled.symm.trans h'.filled)

/-- The plan keeps the values of its map. -/
theorem ComesTo.kept {j : Nat} (h : g.ComesTo env steps database j s step filled) (hjk : j < k)
    (hk : k ≤ steps.length)
    (ht : (steps.take k).foldlM (g.createStep env) (g.createInit database) = .ok t)
    (hkey : key ∈ filled) : t.placeholderMap.lookup key = filled.lookup key := by
  induction k generalizing t with
  | zero => exact absurd hjk (Nat.not_lt_zero j)
  | succ k ih =>
    obtain ⟨u, current, hcomes⟩ := comesTo_of_take_succ hk ht
    rcases Nat.lt_succ_iff_lt_or_eq.mp hjk with hlt | rfl
    · have hu := ih hlt (Nat.le_of_succ_le hk) hcomes.before
      have hmem : key ∈ u.placeholderMap := by
        rw [AList.mem_iff_lookup] at hkey ⊢
        rwa [hu]
      exact (hcomes.fills.kept key hmem).trans hu
    · rw [h.eq hcomes]

/-- Where a value of the map comes from: the environment, or the database at an earlier
step that refers to the key. -/
theorem exists_reference (hk : k ≤ steps.length)
    (hs : (steps.take k).foldlM (g.createStep env) (g.createInit database) = .ok s)
    (hkey : key ∈ s.placeholderMap) (henv : key ∉ g.env) :
    ∃ j t step filled, j < k ∧ g.ComesTo env steps database j t step filled ∧
      g.RefersTo step key ∧
      s.placeholderMap.lookup key = (g.sourceAt env t.database).deployed key := by
  induction k generalizing s with
  | zero =>
    obtain rfl := Except.ok.inj hs
    exact absurd hkey henv
  | succ k ih =>
    obtain ⟨u, current, hcomes⟩ := comesTo_of_take_succ hk hs
    by_cases hold : key ∈ u.placeholderMap
    · obtain ⟨j, t, step, filled, hjk, hj, hrefers, hlookup⟩ :=
        ih (Nat.le_of_succ_le hk) hcomes.before hold
      exact ⟨j, t, step, filled, Nat.lt_succ_of_lt hjk, hj, hrefers,
        (hcomes.fills.kept key hold).trans hlookup⟩
    · obtain ⟨hbrace, hsender, hsetcode, hin, hlookup⟩ := hcomes.fills.added key hkey hold
      exact ⟨k, u, current, _, Nat.lt_succ_self k, hcomes, ⟨hbrace, hsender, hsetcode, henv, hin⟩,
        hlookup⟩

/-- **Create steps and deployments.** Every step of a plan is templated with the latest
deployments exactly when no name is deployed at another address between two steps that
refer to it. -/
theorem seesLatest_iff_settled (g : Generator) (env : CreateEnv σ) (steps : List CreateDefinition)
    (database : σ) : g.SeesLatest env steps database ↔ g.Settled env steps database := by
  constructor
  · intro h j k s t step later filled filled' hjk hj hk key hrefers hlater
    have hlen : k < steps.length := (List.getElem?_eq_some_iff.mp hk.current).1
    have hfirst := hrefers
    obtain ⟨hbrace, hsender, hsetcode, -, hin⟩ := hfirst
    have hmem : key ∈ filled := hj.fills.complete key hbrace hsender hsetcode hin
    have hkept : t.placeholderMap.lookup key = filled.lookup key :=
      hj.kept hjk hlen.le hk.before hmem
    have hmem' : key ∈ t.placeholderMap := by
      rw [AList.mem_iff_lookup] at hmem ⊢
      rwa [hkept]
    rw [← h j s step filled hj key hrefers, ← h k t later filled' hk key hlater,
      hk.fills.kept key hmem', hkept]
  · intro h k s step filled hk key hrefers
    have hlen : k < steps.length := (List.getElem?_eq_some_iff.mp hk.current).1
    have hlater := hrefers
    obtain ⟨hbrace, hsender, hsetcode, henv, hin⟩ := hlater
    rw [hk.fills.lookup_eq hbrace hsender hsetcode hin]
    split_ifs with hold
    · -- an earlier step has referred to the name
      obtain ⟨j, t, first, filled', hjk, hj, hfirst, hlookup⟩ :=
        exists_reference hlen.le hk.before hold henv
      rw [hlookup]
      exact h j k t s first step filled' filled hjk hj hk key hfirst hrefers
    · rfl

end Plan

/-! ### A token deployed between two references -/

namespace RedeployedToken

def token : Text := "token".toList

/-- The bytes that hexadecimal digits spell. -/
def readHex : Text → Option Bytes
  | [] => some []
  | [_] => none
  | a :: b :: rest =>
    match [a, b].hexNumber?, readHex rest with
    | some n, some bytes => some (UInt8.ofNat n :: bytes)
    | _, _ => none

def plan : Generator :=
  { SharedName.plan [] with
    foreign := { SharedName.foreign with fromHex := readHex }
    nonces := AList.insert 0xdead 0 ∅ }

def create (name bytecode : String) : CreateDefinition where
  contract := { bytecode := bytecode.toList, name := name.toList }
  fromAddr := some SharedName.sender

/-- A contract that refers to the token, the token, and another contract that refers to
it. -/
def steps : List CreateDefinition :=
  [create "first" "73{token}", create "token" "6000", create "second" "73{token}"]

/-- A contract is stored with the address it is deployed at. -/
def store (database : SqliteDb.Database) (name : Text) (address : Address) :
    Except SetupError SqliteDb.Database :=
  match database.insertNamedTxs [⟨name, 0x1, some address⟩] SqliteDb.OneName.url 0x5 with
  | (database, .ok ()) => .ok database
  | (_, .error _) => .error (.callback "DB error".toList)

def env : CreateEnv SqliteDb.Database where
  getNamedTx database name :=
    match database.getNamedTx name SqliteDb.OneName.url 0x5 with
    | .ok named => .ok (named.map fun n => ⟨n.name, n.address⟩)
    | .error _ => .error "DB error".toList
  transactionCount _ := .ok 0
  onCreateStep database req :=
    store database (req.name.getD []) (BitVec.ofNat 160 (0xa0 + req.tx.nonce.getD 0))

/-- The token is there from an earlier run. -/
def database : SqliteDb.Database :=
  (SqliteDb.History.of [⟨[⟨token, 0x2, some 0x11⟩], SqliteDb.OneName.url, 0x5⟩]).db

/-- What the last step is templated with for the token, and the address that the database
has for it then. -/
def lastStep : Except SetupError (Option Text × Option Text) := do
  let s ← (steps.take 2).foldlM (plan.createStep env) (plan.createInit database)
  let filled ← SetupError.ofGenerator
    ((plan.sourceAt env s.database).findCreatePlaceholders s.placeholderMap
      (create "second" "73{token}"))
  return (filled.lookup token, (plan.sourceAt env s.database).deployed token)

/-- The last step gets the address from before the run, not the one from its second
step. -/
theorem not_seesLatest :
    lastStep = .ok (some (encodeHexAddress 0x11), some (encodeHexAddress 0xa1)) ∧
      ¬plan.SeesLatest env steps database := by
  have hlast : lastStep = .ok (some (encodeHexAddress 0x11), some (encodeHexAddress 0xa1)) := by
    decide +kernel
  refine ⟨hlast, fun h => ?_⟩
  simp only [lastStep, Except.bind_eq_ok_iff, createGenerator_eq_ok, Except.pure_eq_ok_iff] at hlast
  obtain ⟨s, hs, filled, hfilled, heq⟩ := hlast
  obtain ⟨hlookup, hdeployed⟩ := Prod.mk.inj heq
  have hrefers : plan.RefersTo (create "second" "73{token}") token := by
    refine ⟨by decide, by decide, by decide, AList.notMem_empty token,
      "73{token}".toList, by decide, ['7', '3'], [], by decide⟩
  have hsees := h 2 s _ filled ⟨hs, rfl, hfilled⟩ token hrefers
  rw [hlookup, hdeployed] at hsees
  exact absurd hsees (by decide +kernel)

end RedeployedToken

end Generator

end Contender
