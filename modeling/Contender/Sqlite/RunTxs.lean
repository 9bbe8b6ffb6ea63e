import Contender.Data.Traverse
import Contender.Spammer.TxActor
import Contender.Sqlite.Database

/-!
# Storing the transactions of a run

`insert_run_txs` writes one `INSERT` for each transaction, with the values spelled out in
its text, and commits them together. `get_run_txs` reads the rows of a run back, in the
order they were inserted.

The kind and the error of a transaction are put between quotes as they are. The error is
text that a node answered with, so it may have quotes in it, and the text of the `INSERT`
need not be one `INSERT` of ten literals any more. What SQLite makes of such a text (an
error, another expression, further statements) is a parameter.

## Main results

* `roundTrips_iff` — the transactions of a run survive the database when no kind or error
  has a quote or a NUL character in it and the run exists where that is checked, and only
  then where every text inserts ten literals
-/

namespace Contender.SqliteDb

/-! ## Writing -/

/-- The text of the `INSERT` up to its values. -/
def insertRunTxHead : Text :=
  ("INSERT INTO run_txs (run_id, tx_hash, start_timestamp, end_timestamp, block_number, " ++
    "gas_used, kind, error, flashblock_latency, flashblock_index) VALUES (").toList

def valOrNullU64 (v : Option ℕ) : Text := (v.map Nat.decimal).getD "NULL".toList

def valOrNullStr (v : Option String) : Text :=
  (v.map fun v => Sql.quoted v.toList).getD "NULL".toList

/-- The values of the `INSERT`, as they are formatted. -/
def insertRunTxFields (runId : ℕ) (runTx : RunTx) : List Text :=
  [runId.decimal,
   Sql.quoted (encodeHex 64 runTx.txHash),
   runTx.startTimestampMs.decimal,
   valOrNullU64 runTx.endTimestampMs,
   valOrNullU64 runTx.blockNumber,
   valOrNullU64 runTx.gasUsed,
   valOrNullStr runTx.kind,
   valOrNullStr runTx.error,
   valOrNullU64 runTx.flashblockLatencyMs,
   valOrNullU64 runTx.flashblockIndex]

def insertRunTxText (runId : ℕ) (runTx : RunTx) : Text :=
  insertRunTxHead ++ (Sql.tuple (insertRunTxFields runId runTx) ++ [';'])

def RunTxRow.ofColumns : List Sql.Value → Option RunTxRow
  | [runId, txHash, startTimestamp, endTimestamp, blockNumber, gasUsed, kind, error,
      flashblockLatency, flashblockIndex] =>
    some ⟨runId, txHash, startTimestamp, endTimestamp, blockNumber, gasUsed, kind, error,
      flashblockLatency, flashblockIndex⟩
  | _ => none

/-- `FOREIGN KEY(run_id) REFERENCES runs(id)`, checked on connections that were told to. -/
def satisfiesForeignKey (foreignKeys : Bool) (runs : List ℕ) : Sql.Value → Bool
  | .integer runId => !foreignKeys || decide (runId ∈ runs)
  | _ => !foreignKeys

/-- The columns have the values as they were written: a `TEXT` column no number, and an
`INTEGER` column no text. -/
def RunTxRow.wellTyped (row : RunTxRow) : Bool :=
  [row.runId, row.startTimestamp, row.endTimestamp, row.blockNumber, row.gasUsed,
    row.flashblockLatency, row.flashblockIndex].all Sql.Value.isNumber &&
  [row.txHash, row.kind, row.error].all Sql.Value.isText

/-- The row that a text adds to `run_txs`, where it is one `INSERT` of ten literals of the
columns' types. -/
@[irreducible] def insertedRow? (statement : Text) : Option RunTxRow :=
  ((Sql.insertedValues insertRunTxHead 10 statement).bind RunTxRow.ofColumns).filter
    RunTxRow.wellTyped

/-- What SQLite makes of a transaction from its first text on that is not such an `INSERT`:
given the database before the transaction and as it is so far, and the texts that are left
to execute, the database after the commit. -/
abbrev OtherTexts := Database → Database → List Text → Except Error Database

/-- The texts of a transaction, one `execute_batch` for each, and the commit. A failed one
rolls the transaction back. -/
def Database.executeAll (other : OtherTexts) (foreignKeys : Bool) (db start : Database) :
    List Text → Except Error Database
  | [] => .ok db
  | text :: texts =>
    match insertedRow? text with
    | some row =>
      if satisfiesForeignKey foreignKeys db.runs row.runId then
        executeAll other foreignKeys { db with runTxs := db.runTxs ++ [row] } start texts
      else .error .executeQuery
    -- from here on another program is executed than the one that was meant
    | none => other start db (text :: texts)

def Database.insertRunTxs (db : Database) (other : OtherTexts) (foreignKeys : Bool) (runId : ℕ)
    (runTxs : List RunTx) : Except Error Database :=
  db.executeAll other foreignKeys db (runTxs.map (insertRunTxText runId))

/-! ## Reading -/

/-- `RunTxRow::from_row`, and the conversion to a `RunTx`. -/
def RunTxRow.toRunTx (row : RunTxRow) : Except Error RunTx := do
  let _ ← getU64 row.runId
  let txHash ← getString row.txHash
  let startTimestamp ← getU64 row.startTimestamp
  let endTimestamp ← getOption getU64 row.endTimestamp
  let blockNumber ← getOption getU64 row.blockNumber
  let gasUsed ← getOption getU64 row.gasUsed
  let kind ← getOption getString row.kind
  let error ← getOption getString row.error
  let flashblockLatency ← getOption getU64 row.flashblockLatency
  let flashblockIndex ← getOption getU64 row.flashblockIndex
  let txHash ← expect "invalid tx hash" (fromHex 64 256 txHash)
  return {
    txHash := txHash
    startTimestampMs := startTimestamp
    endTimestampMs := endTimestamp
    blockNumber := blockNumber
    gasUsed := gasUsed
    kind := kind.map String.ofList
    error := error.map String.ofList
    flashblockLatencyMs := flashblockLatency
    flashblockIndex := flashblockIndex }

/-- `get_run_txs`. A run id above the range of row ids cannot be bound. -/
def Database.getRunTxs (db : Database) (runId : ℕ) : Except Error (List RunTx) :=
  if runId < 2 ^ 63 then
    (db.runTxs.filter fun row => row.runId = .integer runId).mapM RunTxRow.toRunTx
  else .error .executeQuery

/-! ## One transaction -/

/-- The value of an optional number. -/
def ofU64? : Option ℕ → Sql.Value
  | some n => .integer n
  | none => .null

/-- The value of an optional text. -/
def ofString? : Option String → Sql.Value
  | some s => .text s.toList
  | none => .null

/-- The columns of a transaction. -/
def runTxColumns (runId : ℕ) (runTx : RunTx) : List Sql.Value :=
  [.integer runId, .text (encodeHex 64 runTx.txHash), .integer runTx.startTimestampMs,
   ofU64? runTx.endTimestampMs, ofU64? runTx.blockNumber, ofU64? runTx.gasUsed,
   ofString? runTx.kind, ofString? runTx.error,
   ofU64? runTx.flashblockLatencyMs, ofU64? runTx.flashblockIndex]

theorem getOption_getU64_eq_ok {v : Sql.Value} {n : Option ℕ} :
    getOption getU64 v = .ok n ↔ v = ofU64? n := by
  cases v <;> cases n <;> simp [getOption, getU64, ofU64?, Except.map]

theorem getOption_getString_eq_ok {v : Sql.Value} {t : Option Text} {s : Option String} :
    getOption getString v = .ok t ∧ t.map String.ofList = s → v = ofString? s := by
  rintro ⟨h, rfl⟩
  cases v <;> cases t <;> simp_all [getOption, getString, ofString?, Except.map]

/-- The numbers of a transaction are in the range of row ids. -/
structure Bounded (runTx : RunTx) : Prop where
  startTimestamp : runTx.startTimestampMs < 2 ^ 63
  endTimestamp : ∀ n ∈ runTx.endTimestampMs, n < 2 ^ 63
  blockNumber : ∀ n ∈ runTx.blockNumber, n < 2 ^ 63
  gasUsed : ∀ n ∈ runTx.gasUsed, n < 2 ^ 63
  flashblockLatency : ∀ n ∈ runTx.flashblockLatencyMs, n < 2 ^ 63
  flashblockIndex : ∀ n ∈ runTx.flashblockIndex, n < 2 ^ 63

theorem spells_valOrNullU64 {v : Option ℕ} (h : ∀ n ∈ v, n < 2 ^ 63) :
    Sql.Spells (valOrNullU64 v) (ofU64? v) := by
  cases v with
  | none => exact .null
  | some n => exact .decimal (h n rfl)

theorem spells_valOrNullStr (v : Option String) :
    Sql.Spells (valOrNullStr v) (ofString? v) := by
  cases v with
  | none => exact .null
  | some s => exact .quoted s.toList

theorem spells_insertRunTxFields {runId : ℕ} {runTx : RunTx} (hid : runId < 2 ^ 63)
    (h : Bounded runTx) :
    List.Forall₂ Sql.Spells (insertRunTxFields runId runTx) (runTxColumns runId runTx) :=
  .cons (.decimal hid) <| .cons (.quoted _) <| .cons (.decimal h.startTimestamp) <|
  .cons (spells_valOrNullU64 h.endTimestamp) <| .cons (spells_valOrNullU64 h.blockNumber) <|
  .cons (spells_valOrNullU64 h.gasUsed) <| .cons (spells_valOrNullStr _) <|
  .cons (spells_valOrNullStr _) <| .cons (spells_valOrNullU64 h.flashblockLatency) <|
  .cons (spells_valOrNullU64 h.flashblockIndex) .nil

/-- A text that can be put between quotes as it is. -/
def Storable (v : Option String) : Prop := ∀ s ∈ v, Sql.quote ∉ s.toList ∧ Sql.nul ∉ s.toList

instance : ∀ v, Decidable (Storable v)
  | none => isTrue (by simp [Storable])
  | some s => decidable_of_iff (Sql.quote ∉ s.toList ∧ Sql.nul ∉ s.toList) (by simp [Storable])

theorem safe_ofU64? (v : Option ℕ) : (ofU64? v).Safe := by
  cases v <;> trivial

theorem safe_ofString? {v : Option String} : (ofString? v).Safe ↔ Storable v := by
  cases v with
  | none => exact iff_of_true trivial (by simp [Storable])
  | some s => simp [ofString?, Storable, Sql.Value.Safe]

theorem safe_encodeHex {w : ℕ} (word : BitVec w) : (Sql.Value.text (encodeHex 64 word)).Safe :=
  ⟨Nat.notMem_paddedHex (by decide) _ _, Nat.notMem_paddedHex (by decide) _ _⟩

theorem safe_runTxColumns (runId : ℕ) (runTx : RunTx) :
    (∀ v ∈ runTxColumns runId runTx, v.Safe) ↔ Storable runTx.kind ∧ Storable runTx.error := by
  simp only [runTxColumns, List.forall_mem_cons, safe_encodeHex, safe_ofU64?, safe_ofString?,
    true_and, List.not_mem_nil, IsEmpty.forall_iff, implies_true, and_true]
  exact ⟨fun h => h.2.2, fun h => ⟨trivial, trivial, h⟩⟩

theorem nul_notMem_insertRunTxHead : Sql.nul ∉ insertRunTxHead := by
  decide +kernel

@[simp] theorem isNumber_ofU64? (v : Option ℕ) : (ofU64? v).isNumber := by
  cases v <;> rfl

@[simp] theorem isText_ofString? (v : Option String) : (ofString? v).isText := by
  cases v <;> rfl

/-- The columns of a transaction come back as the transaction. -/
theorem toRunTx_runTxColumns (runId : ℕ) (runTx : RunTx) :
    ∃ row, RunTxRow.ofColumns (runTxColumns runId runTx) = some row ∧
      row.toRunTx = .ok runTx ∧ row.wellTyped := by
  refine ⟨_, rfl, ?_, by simp [RunTxRow.wellTyped]⟩
  have hhash : fromHex 64 256 (encodeHex 64 runTx.txHash) = some runTx.txHash :=
    fromHex_encodeHex (by decide) (by decide) _
  have hnumber : ∀ n, getOption getU64 (ofU64? n) = .ok n := fun n =>
    getOption_getU64_eq_ok.mpr rfl
  have htext : ∀ s, ∃ t, getOption getString (ofString? s) = .ok t ∧ t.map String.ofList = s := by
    intro s
    cases s with
    | none => exact ⟨none, rfl, rfl⟩
    | some s => exact ⟨some s.toList, rfl, by simp⟩
  obtain ⟨kind, hkind, hkind'⟩ := htext runTx.kind
  obtain ⟨error, herror, herror'⟩ := htext runTx.error
  simp [RunTxRow.toRunTx, getU64, getString, hnumber, hkind, herror, hhash, expect, hkind',
    herror', bind, Except.bind, pure, Except.pure]

/-- A row that reads as the transaction, with the transaction's hash as it is written, has
the transaction's columns. -/
theorem eq_runTxColumns {runId : ℕ} {runTx : RunTx} {vs : List Sql.Value} {row : RunTxRow}
    (hrow : RunTxRow.ofColumns vs = some row)
    (hlead : [.integer runId, .text (encodeHex 64 runTx.txHash)] <+: vs)
    (hread : row.toRunTx = .ok runTx) : vs = runTxColumns runId runTx := by
  unfold RunTxRow.ofColumns at hrow
  split at hrow
  · obtain rfl := Option.some.inj hrow
    rw [List.cons_prefix_cons, List.cons_prefix_cons] at hlead
    obtain ⟨rfl, rfl, -⟩ := hlead
    simp only [RunTxRow.toRunTx, Except.bind_eq_ok_iff, getU64_eq_ok, getString_eq_ok,
      getOption_getU64_eq_ok, Except.pure_eq_ok_iff] at hread
    obtain ⟨_, -, _, -, _, hstart, _, hend, _, hblock, _, hgas, _, hkind, _, herror, _, hlatency,
      _, hindex, _, -, hrunTx⟩ := hread
    subst hrunTx
    rw [hstart, hend, hblock, hgas, hlatency, hindex,
      getOption_getString_eq_ok ⟨hkind, rfl⟩, getOption_getString_eq_ok ⟨herror, rfl⟩]
    rfl
  · cases hrow

/-- The run exists, where a connection checks that it does. -/
def RunExists (foreignKeys : Bool) (runs : List ℕ) (runId : ℕ) : Prop :=
  foreignKeys = true → runId ∈ runs

instance (foreignKeys : Bool) (runs : List ℕ) (runId : ℕ) :
    Decidable (RunExists foreignKeys runs runId) :=
  inferInstanceAs (Decidable (foreignKeys = true → runId ∈ runs))

theorem satisfiesForeignKey_integer {foreignKeys : Bool} {runs : List ℕ} {runId : ℕ} :
    satisfiesForeignKey foreignKeys runs (.integer runId) ↔ RunExists foreignKeys runs runId := by
  cases foreignKeys <;> simp [satisfiesForeignKey, RunExists]

section OneTransaction

variable {foreignKeys : Bool} {runs : List ℕ} {runId : ℕ} {runTx : RunTx} {row : RunTxRow}

theorem insertedValues_insertRunTxText_iff (hid : runId < 2 ^ 63) (hbounded : Bounded runTx) :
    Sql.insertedValues insertRunTxHead 10 (insertRunTxText runId runTx) =
      some (runTxColumns runId runTx) ↔ Storable runTx.kind ∧ Storable runTx.error := by
  rw [← safe_runTxColumns runId]
  exact Sql.insertedValues_iff nul_notMem_insertRunTxHead (by simp [insertRunTxFields])
    (spells_insertRunTxFields hid hbounded)

theorem insertedRow?_eq_some {statement : Text} :
    insertedRow? statement = some row ↔
      ∃ vs, Sql.insertedValues insertRunTxHead 10 statement = some vs ∧
        RunTxRow.ofColumns vs = some row ∧ row.wellTyped := by
  unfold insertedRow?
  rw [Option.filter_eq_some_iff, Option.bind_eq_some_iff]
  constructor
  · rintro ⟨⟨vs, hvs, hrow⟩, htyped⟩
    exact ⟨vs, hvs, hrow, htyped⟩
  · rintro ⟨vs, hvs, hrow, htyped⟩
    exact ⟨⟨vs, hvs, hrow⟩, htyped⟩

theorem runId_of_ofColumns {vs : List Sql.Value} {v : Sql.Value}
    (hrow : RunTxRow.ofColumns vs = some row) (hlead : [v] <+: vs) : row.runId = v := by
  unfold RunTxRow.ofColumns at hrow
  split at hrow
  · obtain rfl := Option.some.inj hrow
    exact (List.cons_prefix_cons.mp hlead).1.symm
  · cases hrow

/-- The id and the hash of an inserted transaction are read before anything else. -/
theorem lead_of_insertedValues (hid : runId < 2 ^ 63) {vs : List Sql.Value}
    (h : Sql.insertedValues insertRunTxHead 10 (insertRunTxText runId runTx) = some vs) :
    [.integer runId, .text (encodeHex 64 runTx.txHash)] <+: vs := by
  have hsplit : Sql.insertedValues insertRunTxHead 10 (insertRunTxHead ++
      (Sql.tuple ([runId.decimal, Sql.quoted (encodeHex 64 runTx.txHash)] ++
        (insertRunTxFields runId runTx).drop 2) ++ [';'])) = some vs := h
  refine Sql.isPrefix_of_insertedValues nul_notMem_insertRunTxHead
    (by simp [insertRunTxFields]) (.cons (.decimal hid) (.cons (.quoted _) .nil)) ?_ hsplit
  rw [List.forall_mem_cons, List.forall_mem_singleton]
  exact ⟨trivial, safe_encodeHex _⟩

/-- The row of an inserted transaction belongs to its run. -/
theorem runId_of_insertedRow? (hid : runId < 2 ^ 63)
    (h : insertedRow? (insertRunTxText runId runTx) = some row) :
    row.runId = .integer runId := by
  obtain ⟨vs, hvs, hcolumns, -⟩ := insertedRow?_eq_some.mp h
  have hlead := lead_of_insertedValues hid hvs
  refine runId_of_ofColumns hcolumns (List.IsPrefix.trans ?_ hlead)
  exact List.cons_prefix_cons.mpr ⟨rfl, List.nil_prefix⟩

/-- An inserted transaction reads as itself only if its texts can be quoted as they are. -/
theorem storable_of_insertedRow? (hid : runId < 2 ^ 63) (hbounded : Bounded runTx)
    (h : insertedRow? (insertRunTxText runId runTx) = some row)
    (hread : row.toRunTx = .ok runTx) : Storable runTx.kind ∧ Storable runTx.error := by
  obtain ⟨vs, hvs, hcolumns, -⟩ := insertedRow?_eq_some.mp h
  obtain rfl := eq_runTxColumns hcolumns (lead_of_insertedValues hid hvs) hread
  exact (insertedValues_insertRunTxText_iff hid hbounded).mp hvs

/-- A transaction whose texts can be quoted as they are is inserted, and reads as itself. -/
theorem exists_insertedRow? (hid : runId < 2 ^ 63) (hbounded : Bounded runTx)
    (hstorable : Storable runTx.kind ∧ Storable runTx.error) :
    ∃ row, insertedRow? (insertRunTxText runId runTx) = some row ∧ row.toRunTx = .ok runTx := by
  have hvs := (insertedValues_insertRunTxText_iff hid hbounded).mpr hstorable
  obtain ⟨row, hcolumns, hread, htyped⟩ := toRunTx_runTxColumns runId runTx
  exact ⟨row, insertedRow?_eq_some.mpr ⟨_, hvs, hcolumns, htyped⟩, hread⟩

end OneTransaction

/-! ## All transactions of a call -/

/-- The transactions are stored: `insert_run_txs` succeeds, `get_run_txs` answers with the
transactions stored before and these, and no other table has changed. -/
def Database.RoundTrips (db : Database) (other : OtherTexts) (foreignKeys : Bool) (runId : ℕ)
    (stored runTxs : List RunTx) : Prop :=
  ∃ db', db.insertRunTxs other foreignKeys runId runTxs = .ok db' ∧
    db'.getRunTxs runId = .ok (stored ++ runTxs) ∧ { db' with runTxs := db.runTxs } = db

/-- Each text is one `INSERT`, and adds the row that stands at its place. -/
def Inserts (texts : List Text) (rows : List RunTxRow) : Prop :=
  List.Forall₂ (fun text row => insertedRow? text = some row) texts rows

theorem executeAll_nil (other : OtherTexts) (foreignKeys : Bool) (db start : Database) :
    db.executeAll other foreignKeys start [] = .ok db :=
  rfl

theorem executeAll_cons {other : OtherTexts} {foreignKeys : Bool} {db start : Database}
    {text : Text} {texts : List Text} {row : RunTxRow} (h : insertedRow? text = some row) :
    db.executeAll other foreignKeys start (text :: texts) =
      if satisfiesForeignKey foreignKeys db.runs row.runId then
        { db with runTxs := db.runTxs ++ [row] }.executeAll other foreignKeys start texts
      else .error .executeQuery := by
  rw [Database.executeAll, h]

/-- Texts that are one `INSERT` each are executed without what other texts do. -/
theorem executeAll_eq_ok {other : OtherTexts} {foreignKeys : Bool} {start db db' : Database}
    {texts : List Text} {rows : List RunTxRow} (h : Inserts texts rows) :
    db.executeAll other foreignKeys start texts = .ok db' ↔
      (∀ row ∈ rows, satisfiesForeignKey foreignKeys db.runs row.runId) ∧
        { db with runTxs := db.runTxs ++ rows } = db' := by
  induction h generalizing db with
  | nil =>
    rw [executeAll_nil]
    simp
  | @cons text row texts rows hrow _ ih =>
    rw [executeAll_cons hrow, List.forall_mem_cons]
    by_cases hforeign : satisfiesForeignKey foreignKeys db.runs row.runId
    · rw [if_pos hforeign, ih]
      simp [hforeign]
    · simp [hforeign]

/-- Rows of the run that are added read after those that were there. -/
theorem getRunTxs_append {db : Database} {runId : ℕ} {stored : List RunTx}
    (hstored : db.getRunTxs runId = .ok stored) {rows : List RunTxRow}
    (hrows : ∀ row ∈ rows, row.runId = .integer runId) (runTxs : List RunTx) :
    { db with runTxs := db.runTxs ++ rows }.getRunTxs runId = .ok (stored ++ runTxs) ↔
      List.Forall₂ (fun row runTx => row.toRunTx = .ok runTx) rows runTxs := by
  unfold Database.getRunTxs at hstored ⊢
  split_ifs at hstored with hid
  -- the query finds all of the added rows
  have hfilter : rows.filter (fun row => row.runId = .integer runId) = rows :=
    List.filter_eq_self.mpr fun row hrow => by simpa using hrows row hrow
  rw [if_pos hid, List.filter_append, hfilter, List.mapM_append, hstored, ← List.mapM_eq_ok_iff]
  cases rows.mapM RunTxRow.toRunTx <;> simp [bind, Except.bind, pure, Except.pure]

theorem lt_of_getRunTxs {db : Database} {runId : ℕ} {stored : List RunTx}
    (h : db.getRunTxs runId = .ok stored) : runId < 2 ^ 63 := by
  unfold Database.getRunTxs at h
  split_ifs at h with hid
  exact hid

/-- Where every text is one `INSERT`, the transactions survive exactly when the run exists
where that is checked, and every row reads as its transaction. -/
theorem roundTrips_iff_of_inserts {db : Database} {other : OtherTexts} {foreignKeys : Bool}
    {runId : ℕ} {stored runTxs : List RunTx} (hstored : db.getRunTxs runId = .ok stored)
    {rows : List RunTxRow} (h : Inserts (runTxs.map (insertRunTxText runId)) rows) :
    db.RoundTrips other foreignKeys runId stored runTxs ↔
      (runTxs = [] ∨ RunExists foreignKeys db.runs runId) ∧
        List.Forall₂ (fun row runTx => row.toRunTx = .ok runTx) rows runTxs := by
  have hid := lt_of_getRunTxs hstored
  have hrows := List.forall₂_map_left_iff.mp h
  have hrunId : ∀ row ∈ rows, row.runId = .integer runId := by
    intro row hrow
    obtain ⟨runTx, -, hinserted⟩ := hrows.exists_of_mem_right hrow
    exact runId_of_insertedRow? hid hinserted
  -- one row is enough to ask for the run
  have hforeign : (∀ row ∈ rows, satisfiesForeignKey foreignKeys db.runs row.runId) ↔
      runTxs = [] ∨ RunExists foreignKeys db.runs runId := by
    cases hrows with
    | nil => simp
    | cons _ _ =>
      simp only [List.cons_ne_nil, false_or]
      refine ⟨fun hall => ?_, fun hrun row hrow => ?_⟩
      · have hfirst := hall _ List.mem_cons_self
        rwa [hrunId _ List.mem_cons_self, satisfiesForeignKey_integer] at hfirst
      · rwa [hrunId row hrow, satisfiesForeignKey_integer]
  rw [← hforeign, ← getRunTxs_append hstored hrunId runTxs]
  constructor
  · rintro ⟨db', hinsert, hget, -⟩
    obtain ⟨hall, rfl⟩ := (executeAll_eq_ok h).mp hinsert
    exact ⟨hall, hget⟩
  · rintro ⟨hall, hget⟩
    exact ⟨_, (executeAll_eq_ok h).mpr ⟨hall, rfl⟩, hget, rfl⟩

/-- The transactions of a call survive the database when no kind and no error has a quote or
a NUL character in it and the run exists where that is checked, whatever SQLite does with
other texts; and only then, unless the text for one of them is not one `INSERT` of ten
literals. -/
theorem roundTrips_iff (other : OtherTexts) (db : Database) (foreignKeys : Bool) (runId : ℕ)
    (stored runTxs : List RunTx) (hstored : db.getRunTxs runId = .ok stored)
    (hbounded : ∀ runTx ∈ runTxs, Bounded runTx) :
    ((∀ runTx ∈ runTxs, Storable runTx.kind ∧ Storable runTx.error) ∧
        (runTxs = [] ∨ RunExists foreignKeys db.runs runId) →
      db.RoundTrips other foreignKeys runId stored runTxs) ∧
    ((∀ runTx ∈ runTxs, (insertedRow? (insertRunTxText runId runTx)).isSome) →
      (db.RoundTrips other foreignKeys runId stored runTxs ↔
        (∀ runTx ∈ runTxs, Storable runTx.kind ∧ Storable runTx.error) ∧
          (runTxs = [] ∨ RunExists foreignKeys db.runs runId))) := by
  have hid := lt_of_getRunTxs hstored
  have hinserts : (∀ runTx ∈ runTxs, (insertedRow? (insertRunTxText runId runTx)).isSome) →
      ∃ rows, Inserts (runTxs.map (insertRunTxText runId)) rows := by
    intro hsome
    have hall := List.mapM_isSome.mpr hsome
    obtain ⟨rows, hrows⟩ := Option.isSome_iff_exists.mp hall
    exact ⟨rows, List.forall₂_map_left_iff.mpr (List.mapM_eq_some_iff.mp hrows)⟩
  have hsurvives : (∀ runTx ∈ runTxs, Storable runTx.kind ∧ Storable runTx.error) ∧
        (runTxs = [] ∨ RunExists foreignKeys db.runs runId) →
      db.RoundTrips other foreignKeys runId stored runTxs := by
    rintro ⟨hstorable, hrun⟩
    have hone : ∀ runTx ∈ runTxs, ∃ row,
        insertedRow? (insertRunTxText runId runTx) = some row ∧ row.toRunTx = .ok runTx :=
      fun runTx hrunTx => exists_insertedRow? hid (hbounded runTx hrunTx) (hstorable runTx hrunTx)
    -- the rows of the texts are the ones that read as the transactions
    obtain ⟨rows, hrows⟩ := hinserts fun runTx hrunTx => by
      obtain ⟨row, hrow, -⟩ := hone runTx hrunTx
      rw [hrow]
      rfl
    refine (roundTrips_iff_of_inserts hstored hrows).mpr ⟨hrun, List.Forall₂.flip ?_⟩
    have hread := (List.forall₂_and_left _ _).mpr ⟨hone, List.forall₂_map_left_iff.mp hrows⟩
    refine hread.imp ?_
    rintro runTx row ⟨⟨row', hinserted, h⟩, hrow⟩
    obtain rfl : row' = row := Option.some.inj (hinserted.symm.trans hrow)
    exact h
  refine ⟨hsurvives, fun hsome => ⟨fun hround => ?_, hsurvives⟩⟩
  obtain ⟨rows, hrows⟩ := hinserts hsome
  obtain ⟨hrun, hreads⟩ := (roundTrips_iff_of_inserts hstored hrows).mp hround
  refine ⟨fun runTx hrunTx => ?_, hrun⟩
  obtain ⟨row, hinserted, hread⟩ :=
    (List.forall₂_map_left_iff.mp hrows).exists_of_flip hreads hrunTx
  exact storable_of_insertedRow? hid (hbounded runTx hrunTx) hinserted hread

namespace OneRun

/-- One run without transactions. -/
def db : Database := ⟨[1], [], [], []⟩

/-- A transaction whose error is the given text. -/
def failed (error : String) : RunTx where
  txHash := 0x2a
  startTimestampMs := 100
  endTimestampMs := some 200
  blockNumber := none
  gasUsed := some 21000
  kind := some "transfer"
  error := some error
  flashblockLatencyMs := none
  flashblockIndex := none

/-- A SQLite that takes no other texts. -/
def rejects : OtherTexts := fun _ _ _ => .error .executeQuery

theorem bounded_failed (error : String) : Bounded (failed error) := by
  constructor <;> simp [failed]

theorem roundTrips_plain : db.RoundTrips rejects true 1 [] [failed "nonce too low"] := by
  refine (roundTrips_iff rejects db true 1 [] _ rfl ?_).1 ⟨?_, Or.inr (by decide)⟩
  · exact List.forall_mem_singleton.mpr (bounded_failed _)
  · exact List.forall_mem_singleton.mpr (by decide +kernel)

/-- Two apostrophes in the error are read as one: the text is still one `INSERT`, of another
error. -/
theorem not_roundTrips_quotes :
    ¬ ∃ other, db.RoundTrips other true 1 [] [failed "\x27\x27"] := by
  rintro ⟨other, hround⟩
  have hsome : (insertedRow? (insertRunTxText 1 (failed "\x27\x27"))).isSome := by
    decide +kernel
  obtain ⟨row, hrow⟩ := Option.isSome_iff_exists.mp hsome
  have hinserts : Inserts ([failed "\x27\x27"].map (insertRunTxText 1)) [row] := .cons hrow .nil
  have hreads := ((roundTrips_iff_of_inserts rfl hinserts).mp hround).2
  have hread := (List.forall₂_cons.mp hreads).1
  have hstorable := storable_of_insertedRow? (by decide) (bounded_failed _) hrow hread
  exact absurd hstorable.2 (by decide)

end OneRun

end Contender.SqliteDb
