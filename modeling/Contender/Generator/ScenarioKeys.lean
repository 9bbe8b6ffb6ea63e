import Contender.Generator.Templater
import Contender.Sqlite.NamedTxs

/-!
# The database keys of contracts

A deployed contract is stored in the database under its name. A scenario label keeps several
deployments of a scenario apart: it is appended to the name after an underscore, and a
placeholder is looked up under its name with the label of the scenario appended likewise.

Names and labels may have underscores in them, and the key does not show where the name ends.
So a contract can be found under another name and label: `a` labelled `b_c` and `a_b` labelled
`c` have the same key, and so have `a` labelled `b` and `a_b` without a label.

## Main results

* `ContractKey.isolates_iff` — two contracts are kept apart exactly when neither is the other
  one with part of its label moved to the name
-/

namespace Contender

open SqliteDb (InsertCall History lastStored)

/-- The name of a contract, and the label of the scenario that deploys it. -/
structure ContractKey where
  name : Text
  label : Option Text
  deriving DecidableEq, Repr

/-- A contract that a setup has deployed. -/
structure ContractDeployment where
  key : ContractKey
  txHash : BitVec 256
  address : Address
  deriving DecidableEq, Repr

namespace ContractKey

variable (k k' : ContractKey)

/-- The key that the contract is stored and looked up under. -/
def dbKey : Text := scenarioDbKey k.name k.label

/-- The name of `k` is that of `k'`, an underscore and a text, and the label of `k'` is this
text, followed by the label of `k` if it has one. -/
def Extends : Prop :=
  ∃ text, k.name = k'.name ++ '_' :: text ∧
    k'.label = some (match k.label with
      | none => text
      | some label => text ++ '_' :: label)

/-- `insert_named_txs` for a deployed contract. -/
def insertCall (rpcUrl : Text) (genesisHash : BitVec 256) (d : ContractDeployment) : InsertCall :=
  ⟨[⟨d.key.dbKey, d.txHash, some d.address⟩], rpcUrl, genesisHash⟩

/-- What a placeholder of the contract resolves to after the deployments. -/
def lookup (rpcUrl : Text) (genesisHash : BitVec 256) (deployments : List ContractDeployment) :
    Except SqliteDb.Error (Option SqliteDb.NamedTx) :=
  (History.of (deployments.map (insertCall rpcUrl genesisHash))).db.getNamedTx k.dbKey rpcUrl
    genesisHash

/-- Whatever is deployed of the two contracts on a chain, a placeholder of `k` resolves only to
a deployment of `k`. -/
def ResolvesOwn : Prop :=
  ∀ rpcUrl genesisHash deployments, (∀ d ∈ deployments, d.key = k ∨ d.key = k') →
    ∀ namedTx, k.lookup rpcUrl genesisHash deployments = .ok (some namedTx) →
      ∃ d ∈ deployments, d.key = k ∧ namedTx.txHash = d.txHash ∧ namedTx.address = some d.address

/-- Distinct contracts have distinct keys, and a placeholder of one never resolves to the
other. -/
def Isolates : Prop := k ≠ k' → k.dbKey ≠ k'.dbKey ∧ k.ResolvesOwn k'

variable {k k'}

/-! ### The keys -/

theorem Extends.ne (h : k.Extends k') : k ≠ k' := by
  rintro rfl
  obtain ⟨text, hname, -⟩ := h
  have hlength := congrArg List.length hname
  simp at hlength

theorem Extends.dbKey_eq (h : k.Extends k') : k.dbKey = k'.dbKey := by
  obtain ⟨text, hname, hlabel⟩ := h
  obtain ⟨name, label⟩ := k
  obtain ⟨name', label'⟩ := k'
  obtain rfl : name = name' ++ '_' :: text := hname
  obtain rfl : label' = _ := hlabel
  cases label <;> simp [dbKey, scenarioDbKey]

/-- Two texts with the same key: one of the names goes on where the other one ends. -/
theorem append_cons_eq {name name' label label' : Text} {c : Char}
    (h : name ++ c :: label = name' ++ c :: label') :
    (name = name' ∧ label = label') ∨
      (∃ text, name = name' ++ c :: text ∧ label' = text ++ c :: label) ∨
      ∃ text, name' = name ++ c :: text ∧ label = text ++ c :: label' := by
  -- one name is an initial segment of the other
  rcases List.append_eq_append_iff.mp h with ⟨rest, rfl, hrest⟩ | ⟨rest, rfl, hrest⟩
  · cases rest with
    | nil =>
      obtain ⟨-, rfl⟩ := List.cons.inj hrest
      exact Or.inl ⟨(List.append_nil _).symm, rfl⟩
    | cons d rest =>
      obtain ⟨rfl, rfl⟩ := List.cons.inj hrest
      exact Or.inr (Or.inr ⟨rest, rfl, rfl⟩)
  · cases rest with
    | nil =>
      obtain ⟨-, rfl⟩ := List.cons.inj hrest
      exact Or.inl ⟨List.append_nil _, rfl⟩
    | cons d rest =>
      obtain ⟨rfl, rfl⟩ := List.cons.inj hrest
      exact Or.inr (Or.inl ⟨rest, rfl, rfl⟩)

/-- The contracts that share a key. -/
theorem dbKey_eq_iff : k.dbKey = k'.dbKey ↔ k = k' ∨ k.Extends k' ∨ k'.Extends k := by
  constructor
  · intro h
    obtain ⟨name, label⟩ := k
    obtain ⟨name', label'⟩ := k'
    cases label with
    | none =>
      cases label' with
      | none =>
        obtain rfl : name = name' := h
        exact Or.inl rfl
      | some label' =>
        -- the name without a label has the other label in it
        obtain rfl : name = name' ++ '_' :: label' := h
        exact Or.inr (Or.inl ⟨label', rfl, rfl⟩)
    | some label =>
      cases label' with
      | none =>
        obtain rfl : name ++ '_' :: label = name' := h
        exact Or.inr (Or.inr ⟨label, rfl, rfl⟩)
      | some label' =>
        rcases append_cons_eq h with ⟨rfl, rfl⟩ | ⟨text, rfl, rfl⟩ | ⟨text, rfl, rfl⟩
        · exact Or.inl rfl
        · exact Or.inr (Or.inl ⟨text, rfl, rfl⟩)
        · exact Or.inr (Or.inr ⟨text, rfl, rfl⟩)
  · rintro (rfl | h | h)
    · rfl
    · exact h.dbKey_eq
    · exact h.dbKey_eq.symm

/-! ### The database -/

/-- A lookup succeeds with what is stored, if that has an address. -/
theorem elim_eq_ok_iff {stored : Option SqliteDb.NamedTx} {namedTx : SqliteDb.NamedTx}
    {e : SqliteDb.Error} :
    stored.elim (.ok none) (fun namedTx =>
        if namedTx.address.isSome then .ok (some namedTx) else .error e) =
        (.ok (some namedTx) : Except SqliteDb.Error (Option SqliteDb.NamedTx)) ↔
      stored = some namedTx ∧ namedTx.address.isSome := by
  cases stored with
  | none => simp
  | some stored =>
    rw [Option.elim_some, Option.some.injEq]
    split_ifs with haddress
    · rw [Except.ok.injEq, Option.some.injEq]
      exact ⟨fun h => ⟨h, h ▸ haddress⟩, And.left⟩
    · exact iff_of_false (fun h => by cases h) fun h => haddress (h.1 ▸ h.2)

/-- A placeholder resolves to the deployment stored last under its key. -/
theorem lookup_eq_ok_iff {rpcUrl : Text} {genesisHash : BitVec 256}
    {deployments : List ContractDeployment} {namedTx : SqliteDb.NamedTx} :
    k.lookup rpcUrl genesisHash deployments = .ok (some namedTx) ↔
      lastStored (History.of (deployments.map (insertCall rpcUrl genesisHash))).inserted k.dbKey
        rpcUrl genesisHash = some namedTx ∧ namedTx.address.isSome := by
  rw [lookup, SqliteDb.getNamedTx_of_consistent (History.consistent_of _), elim_eq_ok_iff]

/-- What a lookup finds was deployed under its key. -/
theorem exists_deployment {rpcUrl : Text} {genesisHash : BitVec 256}
    {deployments : List ContractDeployment} {namedTx : SqliteDb.NamedTx}
    (hfound : k.lookup rpcUrl genesisHash deployments = .ok (some namedTx)) :
    ∃ d ∈ deployments, d.key.dbKey = k.dbKey ∧ namedTx.txHash = d.txHash ∧
      namedTx.address = some d.address := by
  obtain ⟨hlast, -⟩ := lookup_eq_ok_iff.mp hfound
  -- the value found was inserted by a call, and each call is one deployment
  obtain ⟨call, hcall, hmem⟩ := List.mem_flatMap.mp (List.mem_of_getLast? hlast)
  obtain ⟨hmem, hname⟩ := List.mem_filter.mp hmem
  have hinserted := History.inserted_subset _ (List.mem_of_mem_filter hcall)
  obtain ⟨d, hd, rfl⟩ := List.mem_map.mp hinserted
  obtain rfl := List.mem_singleton.mp hmem
  exact ⟨d, hd, of_decide_eq_true hname, rfl, rfl⟩

/-- A contract that is deployed alone is found under every key that it shares. -/
theorem lookup_singleton {d : ContractDeployment} (hkey : d.key.dbKey = k.dbKey) {rpcUrl : Text}
    (hquote : Sql.quote ∉ rpcUrl) (hnul : Sql.nul ∉ rpcUrl) (genesisHash : BitVec 256) :
    k.lookup rpcUrl genesisHash [d] = .ok (some ⟨k.dbKey, d.txHash, some d.address⟩) := by
  have hinserted : (History.of [insertCall rpcUrl genesisHash d]).inserted =
      [insertCall rpcUrl genesisHash d] := History.inserted_call_of_plain _ hquote hnul
  have hchain : (insertCall rpcUrl genesisHash d).chain =
      some (rpcUrl, SqliteDb.genesisText genesisHash) := InsertCall.chain_of_plain hquote hnul
  refine lookup_eq_ok_iff.mpr ⟨?_, rfl⟩
  have hcalls : [insertCall rpcUrl genesisHash d].filter (fun c =>
      c.chain = some (rpcUrl, SqliteDb.genesisText genesisHash)) =
        [insertCall rpcUrl genesisHash d] := List.filter_cons_of_pos (decide_eq_true hchain)
  have hnamed : (insertCall rpcUrl genesisHash d).namedTxs.filter (fun namedTx =>
      namedTx.name = k.dbKey) = [⟨d.key.dbKey, d.txHash, some d.address⟩] :=
    List.filter_cons_of_pos (decide_eq_true hkey)
  rw [List.map_singleton, hinserted, lastStored, hcalls, List.flatMap_singleton, hnamed, hkey]
  rfl

/-- **Labels isolate deployments**, exactly when neither contract is the other one with part of
its label moved to the name. -/
theorem isolates_iff (k k' : ContractKey) :
    k.Isolates k' ↔ ¬ k.Extends k' ∧ ¬ k'.Extends k := by
  constructor
  · intro hisolates
    refine ⟨fun hextends => ?_, fun hextends => ?_⟩
    · exact (hisolates hextends.ne).1 hextends.dbKey_eq
    · exact (hisolates hextends.ne.symm).1 hextends.dbKey_eq.symm
  · rintro ⟨hnot, hnot'⟩ hne
    have hkeys : k.dbKey ≠ k'.dbKey := by
      intro heq
      rcases dbKey_eq_iff.mp heq with h | h | h
      · exact hne h
      · exact hnot h
      · exact hnot' h
    -- a deployment of the other contract was not stored under this key
    refine ⟨hkeys, fun rpcUrl genesisHash deployments hboth namedTx hfound => ?_⟩
    obtain ⟨d, hd, hkey, hvalue⟩ := exists_deployment hfound
    rcases hboth d hd with hown | hother
    · exact ⟨d, hd, hown, hvalue⟩
    · exact absurd (hother ▸ hkey).symm hkeys

/-! ### One key for two contracts -/

/-- The token of the scenario labelled `v2_test`. -/
def token : ContractKey := ⟨"token".toList, some "v2_test".toList⟩

/-- The token of a second version, in the scenario labelled `test`. -/
def tokenV2 : ContractKey := ⟨"token_v2".toList, some "test".toList⟩

theorem not_isolates_token :
    token ≠ tokenV2 ∧ token.dbKey = tokenV2.dbKey ∧ ¬ token.Isolates tokenV2 ∧
      token.lookup "http://localhost:8545".toList 0x5 [⟨tokenV2, 0x1, 0xaa⟩] =
        .ok (some ⟨token.dbKey, 0x1, some 0xaa⟩) := by
  have hkey : token.dbKey = tokenV2.dbKey := by decide
  exact ⟨by decide, hkey, fun hisolates => (hisolates (by decide)).1 hkey,
    lookup_singleton hkey.symm (by decide) (by decide) 0x5⟩

end ContractKey

end Contender
