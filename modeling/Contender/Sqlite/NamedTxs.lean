import Contender.Data.Traverse
import Contender.Sqlite.Database

/-!
# Named transactions

Transactions are stored under a name, for a chain: the pair of its RPC url and its genesis
hash, which `rpc_urls` gives an id. The latest transaction of a name is the one that is
found.

A transaction need not have created a contract. Its missing address is stored as an empty
text, which does not read as an address.

## Main results

* `latestWins_iff` — after any sequence of insertions, looking a name up answers with the
  transaction inserted last under it exactly when that one has a contract address
-/

namespace Contender.SqliteDb

structure NamedTx where
  name : Text
  txHash : TxHash
  address : Option Address
  deriving DecidableEq, Repr

/-! ## Chains -/

/-- `FixedBytes::to_string`. -/
def genesisText (genesisHash : BitVec 256) : Text := '0' :: 'x' :: encodeHex 64 genesisHash

/-- `str::to_lowercase` of an ASCII text. -/
def toLowercase (text : Text) : Text := text.map Char.toLower

def selectUrlHead : Text := "SELECT id FROM rpc_urls WHERE url = ".toList

def selectGenesisHead : Text := " AND genesis_hash = ".toList

/-- The query of `get_rpc_url_id`, as it is formatted. -/
def selectRpcUrlIdText (rpcUrl : Text) (genesisHash : BitVec 256) : Text :=
  selectUrlHead ++ (Sql.quoted rpcUrl ++
    (selectGenesisHead ++ Sql.quoted (toLowercase (genesisText genesisHash))))

/-- `SELECT id FROM rpc_urls WHERE url = … AND genesis_hash = …`. -/
def Database.rpcUrlId (db : Database) (url genesisHash : Text) : Option ℕ :=
  (db.rpcUrls.find? fun row => row.url = url ∧ row.genesisHash = genesisHash).map RpcUrlRow.id

/-- `INSERT OR IGNORE INTO rpc_urls`, under `UNIQUE(url, genesis_hash)`. -/
def Database.insertOrIgnoreRpcUrl (db : Database) (url genesisHash : Text) : Database :=
  if (db.rpcUrlId url genesisHash).isSome then db
  else { db with
    rpcUrls := db.rpcUrls ++ [⟨nextId (db.rpcUrls.map RpcUrlRow.id), url, genesisHash⟩] }

/-- The row id that the text of a query asks for. A text that is not the query with two string
literals is an error, and so is a query without a row. -/
def Database.queryRpcUrlId (db : Database) (query : Text) : Except Error ℕ :=
  match Sql.comparedValues [selectUrlHead, selectGenesisHead] (Sql.readable query) with
  | some [.text url, .text genesisHash] =>
    match db.rpcUrlId url genesisHash with
    | some id => .ok id
    | none => .error .executeQuery
  | _ => .error .executeQuery

/-- `get_rpc_url_id`, and the database after it. -/
def Database.getRpcUrlId (db : Database) (rpcUrl : Text) (genesisHash : BitVec 256) :
    Database × Except Error ℕ :=
  let db := db.insertOrIgnoreRpcUrl rpcUrl (genesisText genesisHash)
  (db, db.queryRpcUrlId (selectRpcUrlIdText rpcUrl genesisHash))

/-! ## Named transactions -/

/-- The row of a transaction: `unwrap_or_default` makes a missing address an empty text. -/
def NamedTx.toRow (namedTx : NamedTx) (rpcUrlId : ℕ) : NamedTxRow where
  name := namedTx.name
  txHash := encodeHex 64 namedTx.txHash
  contractAddress := some ((namedTx.address.map (encodeHex 40)).getD [])
  rpcUrlId := rpcUrlId

/-- `insert_named_txs`, and the database after it. -/
def Database.insertNamedTxs (db : Database) (namedTxs : List NamedTx) (rpcUrl : Text)
    (genesisHash : BitVec 256) : Database × Except Error Unit :=
  match db.getRpcUrlId rpcUrl genesisHash with
  | (db, .error e) => (db, .error e)
  | (db, .ok rpcUrlId) =>
    ({ db with namedTxs := db.namedTxs ++ namedTxs.map (·.toRow rpcUrlId) }, .ok ())

/-- `NamedTx::from`. -/
def NamedTxRow.toNamedTx (row : NamedTxRow) : Except Error NamedTx := do
  let txHash ← expect "invalid tx hash" (fromHex 64 256 row.txHash)
  let address ← row.contractAddress.mapM fun a => expect "invalid address" (fromHex 40 160 a)
  return ⟨row.name, txHash, address⟩

/-- `get_named_tx`. -/
def Database.getNamedTx (db : Database) (name rpcUrl : Text) (genesisHash : BitVec 256) :
    Except Error (Option NamedTx) :=
  let row := (db.namedTxs.filter fun row => row.name = name ∧
    db.rpcUrlId rpcUrl (toLowercase (genesisText genesisHash)) = some row.rpcUrlId).getLast?
  row.mapM NamedTxRow.toNamedTx

/-! ## Histories -/

/-- The arguments of a call of `insert_named_txs`. -/
structure InsertCall where
  namedTxs : List NamedTx
  rpcUrl : Text
  genesisHash : BitVec 256
  deriving DecidableEq, Repr

/-- A database, and the calls of `insert_named_txs` it has answered without an error. -/
structure History where
  db : Database
  inserted : List InsertCall

def History.call (h : History) (c : InsertCall) : History :=
  match h.db.insertNamedTxs c.namedTxs c.rpcUrl c.genesisHash with
  | (db, .ok ()) => ⟨db, h.inserted ++ [c]⟩
  | (db, .error _) => ⟨db, h.inserted⟩

/-- The calls are made one after the other, from newly created tables. -/
def History.of (calls : List InsertCall) : History :=
  calls.foldl History.call ⟨⟨[], [], [], []⟩, []⟩

/-- The transaction inserted last under a name for a chain. -/
def lastInserted (inserted : List InsertCall) (name rpcUrl : Text) (genesisHash : BitVec 256) :
    Option NamedTx :=
  ((inserted.filter fun c => c.rpcUrl = rpcUrl ∧ c.genesisHash = genesisHash).flatMap fun c =>
    c.namedTxs.filter fun namedTx => namedTx.name = name).getLast?

/-- Looking a name up after the calls answers with the transaction inserted last under it. -/
def LatestWins (calls : List InsertCall) (name rpcUrl : Text) (genesisHash : BitVec 256) : Prop :=
  (History.of calls).db.getNamedTx name rpcUrl genesisHash =
    .ok (lastInserted (History.of calls).inserted name rpcUrl genesisHash)

/-! ### The id of a chain -/

theorem toLowercase_genesisText (genesisHash : BitVec 256) :
    toLowercase (genesisText genesisHash) = genesisText genesisHash := by
  have hdigits : ('0' :: 'x' :: Nat.hexDigits).all (fun c => c.toLower = c) := by decide
  have hdigit : ∀ c ∈ '0' :: 'x' :: Nat.hexDigits, c.toLower = c := fun c hc =>
    of_decide_eq_true (List.all_eq_true.mp hdigits c hc)
  have hmem : ∀ c ∈ genesisText genesisHash, c ∈ '0' :: 'x' :: Nat.hexDigits := by
    intro c hc
    by_contra hnot
    simp only [List.mem_cons, not_or] at hnot
    have hhex : c ∉ encodeHex 64 genesisHash := Nat.notMem_paddedHex hnot.2.2 _ _
    simp [genesisText, hnot.1, hnot.2.1, hhex] at hc
  calc (genesisText genesisHash).map Char.toLower
      = (genesisText genesisHash).map id := List.map_congr_left fun c hc => hdigit c (hmem c hc)
    _ = genesisText genesisHash := List.map_id _

theorem genesisText_injective : Function.Injective genesisText := by
  intro g g' h
  have hhex : encodeHex 64 g = encodeHex 64 g' := by simpa [genesisText] using h
  have hread : ∀ hash : BitVec 256, fromHex 64 256 (encodeHex 64 hash) = some hash :=
    fromHex_encodeHex (by decide) (by decide)
  have hsome : some g = some g' := by rw [← hread g, hhex, hread g']
  exact Option.some.inj hsome

section Query

variable {rpcUrl : Text} (genesisHash : BitVec 256)

theorem quote_notMem_genesisText : Sql.quote ∉ genesisText genesisHash := by
  have hhex : Sql.quote ∉ encodeHex 64 genesisHash := Nat.notMem_paddedHex (by decide) _ _
  simpa [genesisText, Sql.quote] using hhex

theorem nul_notMem_genesisText : Sql.nul ∉ genesisText genesisHash := by
  have hhex : Sql.nul ∉ encodeHex 64 genesisHash := Nat.notMem_paddedHex (by decide) _ _
  simpa [genesisText, Sql.nul] using hhex

theorem head?_selectGenesisHead_append (text : Text) :
    (selectGenesisHead ++ text).head? ≠ some Sql.quote := by
  have hhead : selectGenesisHead.head? = some ' ' := by decide
  rw [List.head?_append, hhead]
  simp [Sql.quote]

theorem nul_notMem_quoted {text : Text} (h : Sql.nul ∉ text) : Sql.nul ∉ Sql.quoted text := by
  simpa [Sql.quoted, Sql.nul, Sql.quote] using h

/-- The query of a url without quotes and NUL characters asks for that url. -/
theorem comparedValues_selectRpcUrlIdText (hquote : Sql.quote ∉ rpcUrl) (hnul : Sql.nul ∉ rpcUrl) :
    Sql.comparedValues [selectUrlHead, selectGenesisHead]
        (Sql.readable (selectRpcUrlIdText rpcUrl genesisHash)) =
      some [.text rpcUrl, .text (genesisText genesisHash)] := by
  have hread : Sql.nul ∉ selectRpcUrlIdText rpcUrl genesisHash := by
    have hheads : Sql.nul ∉ selectUrlHead ∧ Sql.nul ∉ selectGenesisHead := by decide
    rw [selectRpcUrlIdText, toLowercase_genesisText]
    simp only [List.mem_append, not_or]
    exact ⟨hheads.1, nul_notMem_quoted hnul, hheads.2,
      nul_notMem_quoted (nul_notMem_genesisText genesisHash)⟩
  have hlast : Sql.literal (Sql.quoted (genesisText genesisHash)) =
      some (.text (genesisText genesisHash), []) := by
    rw [← List.append_nil (Sql.quoted (genesisText genesisHash))]
    exact Sql.literal_quoted (quote_notMem_genesisText genesisHash) (by simp)
  rw [Sql.readable_of_notMem hread, selectRpcUrlIdText, toLowercase_genesisText]
  simp only [Sql.comparedValues, List.prefix_append, if_true, List.drop_left,
    Sql.literal_quoted hquote (head?_selectGenesisHead_append _), Option.bind_some, hlast,
    Option.map_some]

/-- A NUL character cuts the query off inside its first literal. -/
theorem comparedValues_of_nul (hquote : Sql.quote ∉ rpcUrl) (hnul : Sql.nul ∈ rpcUrl) :
    Sql.comparedValues [selectUrlHead, selectGenesisHead]
        (Sql.readable (selectRpcUrlIdText rpcUrl genesisHash)) = none := by
  obtain ⟨before, after, rfl, hbefore⟩ := List.eq_append_cons_of_mem hnul
  have hread : Sql.readable (selectRpcUrlIdText (before ++ Sql.nul :: after) genesisHash) =
      selectUrlHead ++ Sql.quote :: before := by
    have hhead : Sql.nul ∉ selectUrlHead := by decide
    have hcut : Sql.nul ∉ Sql.quote :: before := by
      simpa [Sql.nul, Sql.quote] using hbefore
    have htext : ∀ more, Sql.quoted (before ++ Sql.nul :: after) ++ more =
        (Sql.quote :: before) ++ Sql.nul :: (after ++ Sql.quote :: more) := by
      simp [Sql.quoted]
    rw [selectRpcUrlIdText, Sql.readable_append hhead, htext, Sql.readable_append hcut]
    simp [Sql.readable]
  have hbody : Sql.stringBody before = none :=
    Sql.stringBody_of_notMem fun hmem => hquote (List.mem_append_left _ hmem)
  rw [hread]
  simp only [Sql.comparedValues, List.prefix_append, if_true, List.drop_left]
  rw [Sql.literal_quote_cons, hbody]
  rfl

end Query

section Chains

variable {db : Database} {url url' genesis genesis' : Text} {id : ℕ}

theorem rpcUrlId_eq_some (h : db.rpcUrlId url genesis = some id) :
    ⟨id, url, genesis⟩ ∈ db.rpcUrls := by
  obtain ⟨row, hrow, rfl⟩ := Option.map_eq_some_iff.mp h
  have hpair := List.find?_some hrow
  simp only [decide_eq_true_eq] at hpair
  obtain ⟨rfl, rfl⟩ := hpair
  exact List.mem_of_find?_eq_some hrow

/-- Chains have ids of their own. -/
theorem rpcUrlId_injective (hnodup : (db.rpcUrls.map RpcUrlRow.id).Nodup)
    (h : db.rpcUrlId url genesis = some id) (h' : db.rpcUrlId url' genesis' = some id) :
    url = url' ∧ genesis = genesis' := by
  have hrow := List.inj_on_of_nodup_map hnodup (rpcUrlId_eq_some h) (rpcUrlId_eq_some h') rfl
  simpa using hrow

/-- A chain that has an id keeps it. -/
theorem rpcUrlId_insertOrIgnore (h : db.rpcUrlId url genesis = some id) (url' genesis' : Text) :
    (db.insertOrIgnoreRpcUrl url' genesis').rpcUrlId url genesis = some id := by
  unfold Database.insertOrIgnoreRpcUrl
  split_ifs
  · exact h
  · obtain ⟨row, hrow, rfl⟩ := Option.map_eq_some_iff.mp h
    rw [Database.rpcUrlId, List.find?_append, hrow]
    rfl

theorem isSome_rpcUrlId_insertOrIgnore (db : Database) (url genesis : Text) :
    ((db.insertOrIgnoreRpcUrl url genesis).rpcUrlId url genesis).isSome := by
  unfold Database.insertOrIgnoreRpcUrl
  split_ifs with hknown
  · exact hknown
  · simp [Database.rpcUrlId, List.find?_append]

theorem nodup_insertOrIgnore (hnodup : (db.rpcUrls.map RpcUrlRow.id).Nodup)
    (url genesis : Text) :
    ((db.insertOrIgnoreRpcUrl url genesis).rpcUrls.map RpcUrlRow.id).Nodup := by
  unfold Database.insertOrIgnoreRpcUrl
  split_ifs
  · exact hnodup
  · rw [List.map_append, List.map_singleton]
    exact List.nodup_append.mpr ⟨hnodup, List.nodup_singleton _, by
      intro a ha b hb hab
      rw [List.mem_singleton] at hb
      exact nextId_notMem _ (hb ▸ hab ▸ ha)⟩

end Chains

/-! ### The chain of a call -/

/-- The url and the genesis hash that the query of a call asks for. -/
def InsertCall.chain (c : InsertCall) : Option (Text × Text) :=
  match Sql.comparedValues [selectUrlHead, selectGenesisHead]
      (Sql.readable (selectRpcUrlIdText c.rpcUrl c.genesisHash)) with
  | some [.text url, .text genesisHash] => some (url, genesisHash)
  | _ => none

/-- The id that a call inserts its transactions under. -/
def InsertCall.rpcUrlId (c : InsertCall) (db : Database) : Option ℕ :=
  c.chain.bind fun chain => db.rpcUrlId chain.1 chain.2

/-- The transaction stored last under a name for a chain. -/
def lastStored (inserted : List InsertCall) (name rpcUrl : Text) (genesisHash : BitVec 256) :
    Option NamedTx :=
  ((inserted.filter fun c => c.chain = some (rpcUrl, genesisText genesisHash)).flatMap fun c =>
    c.namedTxs.filter fun namedTx => namedTx.name = name).getLast?

theorem InsertCall.chain_of_plain {c : InsertCall} (hquote : Sql.quote ∉ c.rpcUrl)
    (hnul : Sql.nul ∉ c.rpcUrl) : c.chain = some (c.rpcUrl, genesisText c.genesisHash) := by
  rw [InsertCall.chain, comparedValues_selectRpcUrlIdText c.genesisHash hquote hnul]

/-- Without quotes in its url, a call inserts for its own chain or fails. -/
theorem InsertCall.chain_of_notMem_quote {c : InsertCall} (hquote : Sql.quote ∉ c.rpcUrl)
    (hchain : c.chain.isSome) : c.chain = some (c.rpcUrl, genesisText c.genesisHash) := by
  by_cases hnul : Sql.nul ∈ c.rpcUrl
  · rw [InsertCall.chain, comparedValues_of_nul c.genesisHash hquote hnul] at hchain
    simp at hchain
  · exact InsertCall.chain_of_plain hquote hnul

theorem queryRpcUrlId_selectRpcUrlIdText (db : Database) (c : InsertCall) :
    db.queryRpcUrlId (selectRpcUrlIdText c.rpcUrl c.genesisHash) =
      (c.rpcUrlId db).elim (.error .executeQuery) .ok := by
  unfold Database.queryRpcUrlId InsertCall.rpcUrlId InsertCall.chain
  split
  · rw [Option.bind_some]
    split <;> simp_all
  · rfl

/-! ### What a history leaves in the tables -/

/-- The transactions inserted so far are in the table, under the ids of their chains. -/
structure History.Consistent (h : History) : Prop where
  nodup : (h.db.rpcUrls.map RpcUrlRow.id).Nodup
  known : ∀ c ∈ h.inserted, (c.rpcUrlId h.db).isSome
  rows : h.db.namedTxs = h.inserted.flatMap fun c =>
    c.namedTxs.map (·.toRow ((c.rpcUrlId h.db).getD 0))

theorem namedTxs_insertOrIgnore (db : Database) (url genesis : Text) :
    (db.insertOrIgnoreRpcUrl url genesis).namedTxs = db.namedTxs := by
  unfold Database.insertOrIgnoreRpcUrl
  split_ifs <;> rfl

/-- A call inserts its transactions under the id of their chain, unless it fails. -/
theorem insertNamedTxs_cases {db opened : Database} {c : InsertCall}
    (hopened : db.insertOrIgnoreRpcUrl c.rpcUrl (genesisText c.genesisHash) = opened) :
    (c.rpcUrlId opened = none ∧
        db.insertNamedTxs c.namedTxs c.rpcUrl c.genesisHash = (opened, .error .executeQuery)) ∨
      ∃ id, c.rpcUrlId opened = some id ∧
        db.insertNamedTxs c.namedTxs c.rpcUrl c.genesisHash =
          ({ opened with namedTxs := opened.namedTxs ++ c.namedTxs.map (·.toRow id) }, .ok ()) := by
  have hquery := queryRpcUrlId_selectRpcUrlIdText opened c
  cases hid : c.rpcUrlId opened with
  | none =>
    rw [hid, Option.elim_none] at hquery
    left
    refine ⟨rfl, ?_⟩
    simp only [Database.insertNamedTxs, Database.getRpcUrlId, hopened, hquery]
  | some id =>
    rw [hid, Option.elim_some] at hquery
    right
    refine ⟨id, rfl, ?_⟩
    simp only [Database.insertNamedTxs, Database.getRpcUrlId, hopened, hquery]

/-- A chain that has an id keeps it. -/
theorem InsertCall.rpcUrlId_insertOrIgnore {db : Database} {c : InsertCall} {id : ℕ}
    (h : c.rpcUrlId db = some id) (url genesis : Text) :
    c.rpcUrlId (db.insertOrIgnoreRpcUrl url genesis) = some id := by
  obtain ⟨chain, hchain, hid⟩ := Option.bind_eq_some_iff.mp h
  rw [InsertCall.rpcUrlId, hchain, Option.bind_some]
  exact SqliteDb.rpcUrlId_insertOrIgnore hid url genesis

/-- New urls leave what is stored as it was. -/
theorem History.Consistent.insertOrIgnore {h : History} (hh : h.Consistent) (url genesis : Text) :
    (⟨h.db.insertOrIgnoreRpcUrl url genesis, h.inserted⟩ : History).Consistent := by
  have hkept : ∀ c ∈ h.inserted,
      c.rpcUrlId (h.db.insertOrIgnoreRpcUrl url genesis) = c.rpcUrlId h.db := by
    intro c hc
    obtain ⟨id, hid⟩ := Option.isSome_iff_exists.mp (hh.known c hc)
    rw [hid]
    exact InsertCall.rpcUrlId_insertOrIgnore hid url genesis
  constructor
  · exact nodup_insertOrIgnore hh.nodup url genesis
  · intro c hc
    rw [hkept c hc]
    exact hh.known c hc
  · rw [namedTxs_insertOrIgnore, hh.rows]
    exact List.flatMap_congr fun c hc => by rw [hkept c hc]

/-- A call keeps the tables consistent. -/
theorem History.Consistent.call {h : History} (hh : h.Consistent) (c : InsertCall) :
    (h.call c).Consistent := by
  obtain ⟨opened, hopened⟩ :
      ∃ opened, h.db.insertOrIgnoreRpcUrl c.rpcUrl (genesisText c.genesisHash) = opened := ⟨_, rfl⟩
  have hstored : (⟨opened, h.inserted⟩ : History).Consistent := hopened ▸ hh.insertOrIgnore _ _
  rcases insertNamedTxs_cases hopened with ⟨-, hfail⟩ | ⟨id, hid, hok⟩
  · have hcall : h.call c = ⟨opened, h.inserted⟩ := by simp [History.call, hfail]
    rwa [hcall]
  · have hcall : h.call c = ⟨{ opened with
        namedTxs := opened.namedTxs ++ c.namedTxs.map (·.toRow id) }, h.inserted ++ [c]⟩ := by
      simp [History.call, hok]
    rw [hcall]
    refine ⟨hstored.nodup, ?_, ?_⟩
    · intro c' hc'
      rcases List.mem_append.mp hc' with hold | hnew
      · exact hstored.known c' hold
      · obtain rfl := List.mem_singleton.mp hnew
        exact Option.isSome_iff_exists.mpr ⟨id, hid⟩
    · -- the new rows do not change the ids of the chains
      have hsame : ∀ (c' : InsertCall) (rows : List NamedTxRow),
          c'.rpcUrlId { opened with namedTxs := rows } = c'.rpcUrlId opened := fun _ _ => rfl
      have hrows : opened.namedTxs = h.inserted.flatMap fun c =>
        c.namedTxs.map (·.toRow ((c.rpcUrlId opened).getD 0)) := hstored.rows
      simp only [List.flatMap_append, List.flatMap_singleton, hsame, hid, Option.getD_some,
        ← hrows]

/-- After any calls the tables are consistent. -/
theorem History.consistent_of (calls : List InsertCall) : (History.of calls).Consistent := by
  have hrun : ∀ (calls : List InsertCall) (h : History), h.Consistent →
      (calls.foldl History.call h).Consistent := by
    intro calls
    induction calls with
    | nil => exact fun h hh => hh
    | cons c calls ih => exact fun h hh => ih _ (hh.call c)
  exact hrun calls _ ⟨List.nodup_nil, by simp, rfl⟩

/-- A call whose url is plain text is answered. -/
theorem History.inserted_call_of_plain (h : History) {c : InsertCall}
    (hquote : Sql.quote ∉ c.rpcUrl) (hnul : Sql.nul ∉ c.rpcUrl) :
    (h.call c).inserted = h.inserted ++ [c] := by
  obtain ⟨opened, hopened⟩ :
      ∃ opened, h.db.insertOrIgnoreRpcUrl c.rpcUrl (genesisText c.genesisHash) = opened := ⟨_, rfl⟩
  rcases insertNamedTxs_cases hopened with ⟨hnone, -⟩ | ⟨id, hid, hok⟩
  · have hknown := isSome_rpcUrlId_insertOrIgnore h.db c.rpcUrl (genesisText c.genesisHash)
    rw [InsertCall.rpcUrlId, InsertCall.chain_of_plain hquote hnul, Option.bind_some] at hnone
    rw [hopened, hnone] at hknown
    exact absurd hknown (by simp)
  · simp [History.call, hok]

/-- Whether rows inserted by a call are found for a chain depends on the call alone. -/
theorem rpcUrlId_eq_some_iff {db : Database} (hnodup : (db.rpcUrls.map RpcUrlRow.id).Nodup)
    {c : InsertCall} {id : ℕ} (hid : c.rpcUrlId db = some id) (url genesis : Text) :
    db.rpcUrlId url genesis = some id ↔ c.chain = some (url, genesis) := by
  obtain ⟨chain, hchain, hstored⟩ := Option.bind_eq_some_iff.mp hid
  rw [hchain, Option.some.injEq]
  constructor
  · intro h
    obtain ⟨hurl, hgenesis⟩ := rpcUrlId_injective hnodup hstored h
    exact Prod.ext hurl hgenesis
  · rintro rfl
    exact hstored

/-- The rows that are found for a name are those stored under it for the chain. -/
theorem filter_rows {db : Database} (hnodup : (db.rpcUrls.map RpcUrlRow.id).Nodup)
    (name url genesis : Text) {inserted : List InsertCall}
    (hknown : ∀ c ∈ inserted, (c.rpcUrlId db).isSome) :
    ((inserted.flatMap fun c => c.namedTxs.map (·.toRow ((c.rpcUrlId db).getD 0))).filter
      fun row => row.name = name ∧ db.rpcUrlId url genesis = some row.rpcUrlId) =
      ((inserted.filter fun c => c.chain = some (url, genesis)).flatMap fun c =>
        c.namedTxs.filter fun namedTx => namedTx.name = name).map
          (·.toRow ((db.rpcUrlId url genesis).getD 0)) := by
  induction inserted with
  | nil => rfl
  | cons c inserted ih =>
    obtain ⟨hc, hinserted⟩ := List.forall_mem_cons.mp hknown
    obtain ⟨id, hid⟩ := Option.isSome_iff_exists.mp hc
    have hchain := rpcUrlId_eq_some_iff hnodup hid url genesis
    rw [List.flatMap_cons, List.filter_append, ih hinserted, hid, Option.getD_some,
      List.filter_map]
    by_cases hmatch : c.chain = some (url, genesis)
    · rw [List.filter_cons_of_pos (by simpa using hmatch), List.flatMap_cons, List.map_append,
        hchain.mpr hmatch]
      simp [Function.comp_def, NamedTx.toRow]
    · rw [List.filter_cons_of_neg (by simpa using hmatch)]
      have hother : db.rpcUrlId url genesis ≠ some id := fun h => hmatch (hchain.mp h)
      simp [Function.comp_def, NamedTx.toRow, hother]

/-- A stored transaction comes back when it has an address; otherwise reading it panics. -/
theorem toNamedTx_toRow (namedTx : NamedTx) (id : ℕ) :
    (namedTx.toRow id).toNamedTx =
      if namedTx.address.isSome then .ok namedTx
      else .error (.panic "invalid address".toList) := by
  have hhash : fromHex 64 256 (encodeHex 64 namedTx.txHash) = some namedTx.txHash :=
    fromHex_encodeHex (by decide) (by decide) _
  cases haddress : namedTx.address with
  | none =>
    have hempty : fromHex 40 160 [] = none := by decide
    simp [NamedTxRow.toNamedTx, NamedTx.toRow, haddress, hhash, hempty, expect, bind,
      Except.bind]
  | some address =>
    have hread : fromHex 40 160 (encodeHex 40 address) = some address :=
      fromHex_encodeHex (by decide) (by decide) _
    obtain ⟨name, txHash, _⟩ := namedTx
    subst haddress
    simp [NamedTxRow.toNamedTx, NamedTx.toRow, hhash, hread, expect, bind, Except.bind, pure,
      Except.pure]

/-- Looking a name up answers with the transaction stored last under it, and panics when that
one has no address. -/
theorem getNamedTx_of_consistent {h : History} (hh : h.Consistent) (name rpcUrl : Text)
    (genesisHash : BitVec 256) :
    h.db.getNamedTx name rpcUrl genesisHash =
      (lastStored h.inserted name rpcUrl genesisHash).elim (.ok none) fun namedTx =>
        if namedTx.address.isSome then .ok (some namedTx)
        else .error (.panic "invalid address".toList) := by
  unfold Database.getNamedTx
  rw [toLowercase_genesisText, hh.rows,
    filter_rows hh.nodup name rpcUrl (genesisText genesisHash) hh.known, List.getLast?_map,
    lastStored]
  cases (((h.inserted.filter fun c => c.chain = some (rpcUrl, genesisText genesisHash)).flatMap
    fun c => c.namedTxs.filter fun namedTx => namedTx.name = name).getLast?) with
  | none => rfl
  | some namedTx =>
    rw [Option.map_some, Option.elim_some]
    change (NamedTxRow.toNamedTx _).map some = _
    rw [toNamedTx_toRow]
    split_ifs <;> rfl

/-- Without quotes in its url, a call that was answered has inserted for its own chain. -/
theorem History.Consistent.chain_eq {h : History} (hh : h.Consistent) {c : InsertCall}
    (hc : c ∈ h.inserted) (hquote : Sql.quote ∉ c.rpcUrl) :
    c.chain = some (c.rpcUrl, genesisText c.genesisHash) := by
  refine InsertCall.chain_of_notMem_quote hquote ?_
  obtain ⟨id, hid⟩ := Option.isSome_iff_exists.mp (hh.known c hc)
  obtain ⟨chain, hchain, -⟩ := Option.bind_eq_some_iff.mp hid
  exact Option.isSome_iff_exists.mpr ⟨chain, hchain⟩

/-- Without quotes in the urls, what is stored last is what was inserted last. -/
theorem lastStored_eq_lastInserted {h : History} (hh : h.Consistent)
    (hquote : ∀ c ∈ h.inserted, Sql.quote ∉ c.rpcUrl) (name rpcUrl : Text)
    (genesisHash : BitVec 256) :
    lastStored h.inserted name rpcUrl genesisHash =
      lastInserted h.inserted name rpcUrl genesisHash := by
  have hchain : ∀ c ∈ h.inserted, (c.chain = some (rpcUrl, genesisText genesisHash) ↔
      c.rpcUrl = rpcUrl ∧ c.genesisHash = genesisHash) := by
    intro c hc
    rw [hh.chain_eq hc (hquote c hc), Option.some.injEq, Prod.mk.injEq,
      genesisText_injective.eq_iff]
  unfold lastStored lastInserted
  rw [List.filter_congr fun c hc => decide_eq_decide.mpr (hchain c hc)]

/-- A history has only answered calls that were made. -/
theorem History.inserted_subset (calls : List InsertCall) :
    (History.of calls).inserted ⊆ calls := by
  have hrun : ∀ (calls : List InsertCall) (h : History),
      (calls.foldl History.call h).inserted ⊆ h.inserted ++ calls := by
    intro calls
    induction calls with
    | nil => simp
    | cons c calls ih =>
      intro h
      have hcall : (h.call c).inserted ⊆ h.inserted ++ [c] := by
        unfold History.call
        split <;> simp
      intro c' hc'
      rw [List.append_cons]
      rcases List.mem_append.mp (ih (h.call c) hc') with hold | hnew
      · exact List.mem_append_left _ (hcall hold)
      · exact List.mem_append_right _ hnew
  exact hrun calls _

/-- After any calls, looking a name up answers with the transaction inserted last under it
exactly when that one, if there is one, has a contract address. -/
theorem latestWins_iff (calls : List InsertCall) (hquote : ∀ c ∈ calls, Sql.quote ∉ c.rpcUrl)
    (name rpcUrl : Text) (genesisHash : BitVec 256) :
    LatestWins calls name rpcUrl genesisHash ↔
      ∀ namedTx ∈ lastInserted (History.of calls).inserted name rpcUrl genesisHash,
        namedTx.address.isSome := by
  have hh := History.consistent_of calls
  have hplain : ∀ c ∈ (History.of calls).inserted, Sql.quote ∉ c.rpcUrl :=
    fun c hc => hquote c (History.inserted_subset calls hc)
  unfold LatestWins
  rw [getNamedTx_of_consistent hh, lastStored_eq_lastInserted hh hplain]
  cases lastInserted (History.of calls).inserted name rpcUrl genesisHash with
  | none => exact iff_of_true rfl fun _ hnone => by cases hnone
  | some namedTx =>
    rw [Option.elim_some]
    by_cases haddress : namedTx.address.isSome
    · rw [if_pos haddress]
      exact ⟨fun _ n hn => Option.some.inj hn ▸ haddress, fun _ => rfl⟩
    · rw [if_neg haddress]
      exact iff_of_false (fun hpanic => by cases hpanic) fun h => haddress (h namedTx rfl)

namespace OneName

def url : Text := "http://localhost:8545".toList

def token : Text := "token".toList

/-- The token is deployed, and deployed again. -/
def redeployed : List InsertCall :=
  [⟨[⟨token, 0x1, some 0xaa⟩], url, 0x5⟩, ⟨[⟨token, 0x2, some 0xbb⟩], url, 0x5⟩]

theorem latestWins_redeployed :
    LatestWins redeployed token url 0x5 ∧
      lastInserted (History.of redeployed).inserted token url 0x5 =
        some ⟨token, 0x2, some 0xbb⟩ := by
  have hlast : lastInserted (History.of redeployed).inserted token url 0x5 =
      some ⟨token, 0x2, some 0xbb⟩ := by decide +kernel
  refine ⟨(latestWins_iff redeployed (by decide +kernel) token url 0x5).mpr ?_, hlast⟩
  rw [hlast]
  rintro namedTx hnamedTx
  obtain rfl := Option.some.inj hnamedTx
  rfl

/-- A transaction under the name that creates no contract. -/
def called : List InsertCall := [⟨[⟨token, 0x1, none⟩], url, 0x5⟩]

/-- The transaction is stored, and looking it up panics. -/
theorem not_latestWins_called :
    ¬ LatestWins called token url 0x5 ∧
      (History.of called).inserted = called ∧
      (History.of called).db.getNamedTx token url 0x5 =
        .error (.panic "invalid address".toList) := by
  have hpanic : (History.of called).db.getNamedTx token url 0x5 =
      .error (.panic "invalid address".toList) := by decide +kernel
  refine ⟨?_, by decide +kernel, hpanic⟩
  unfold LatestWins
  rw [hpanic]
  simp

end OneName

end Contender.SqliteDb
