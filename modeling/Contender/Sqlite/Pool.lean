import Mathlib.Algebra.BigOperators.Group.Finset.Piecewise
import Mathlib.Data.Fintype.EquivFin
import Contender.Protocol.NestedBorrowing
import Contender.Sqlite.Database

/-!
# The connection pool of the database

`SqliteDb` keeps a pool of four connections. Every call borrows connections for the
statements it executes; `execute` and `query_row` borrow one for a single statement and
give it back at once, also when the caller holds another connection already. The calls of
different callers interleave freely, and a borrow gets any free connection.

A connection remembers the row id of the last row inserted through it. Two calls answer
with the id of a row they inserted: `insert_run` asks a connection for it, and
`insert_replay_report` counts the rows beforehand.

## Main results

* `identifies_of_undisturbed` — the answered ids are those of the inserted rows, as long
  as nothing comes between a call's `INSERT` and what its answer is read from
* `neverStarved_iff` — the pool starves itself exactly when four callers can hold a
  connection while they wait for another
-/

namespace Contender.SqliteDb

open Protocol.NestedBorrowing Semantics

/-- The connections of the pool: `max_size(4)`. -/
abbrev Conn := Fin 4

/-- The statements the calls execute, told apart by what they do to the row ids. -/
inductive Statement
  /-- `INSERT INTO runs …` -/
  | insertRun
  /-- `SELECT last_insert_rowid()` -/
  | selectLastInsertRowid
  /-- `SELECT COUNT(*) FROM replay_reports` -/
  | countReplayReports
  /-- `INSERT INTO replay_reports …` -/
  | insertReplayReport
  /-- `INSERT OR IGNORE INTO rpc_urls …` -/
  | insertOrIgnoreRpcUrl
  /-- `INSERT INTO` one of the other tables -/
  | insertRow
  /-- a statement that inserts no row: a query, the begin or the commit of a transaction -/
  | other
deriving DecidableEq

abbrev Program := List (Instr Statement)

/-- One statement on a connection borrowed for it. -/
def execute (statement : Statement) : Program := session [statement]

/-- One query on a connection borrowed for it. -/
def queryRow (statement : Statement) : Program := session [statement]

/-- A transaction that inserts that many rows, on one connection. -/
def insertBatch (rows : ℕ) : Program :=
  session (.other :: (List.replicate rows .insertRow ++ [.other]))

/-- The operations of the database. -/
inductive Call
  | getRpcUrlId
  | insertNamedTxs (txs : ℕ)
  | insertReplayReport
  | insertRun
  | insertRunTxs (txs : ℕ)
  | insertLatencyMetrics (buckets : ℕ)
  /-- an operation that executes one query: `get_named_tx`, `num_runs`, … -/
  | query
deriving DecidableEq

/-- The id is queried through `query_row` while the connection of the `INSERT` is held. -/
def getRpcUrlId : Program :=
  .acquire :: .act .insertOrIgnoreRpcUrl :: (queryRow .other ++ [.release])

def insertNamedTxs (txs : ℕ) : Program := getRpcUrlId ++ insertBatch txs

/-- `num_replay_reports` is called while the connection of the `INSERT` is held. -/
def insertReplayReport : Program :=
  .acquire :: (queryRow .countReplayReports ++ [.act .insertReplayReport, .release])

def insertRun : Program := execute .insertRun ++ queryRow .selectLastInsertRowid

def Call.program : Call → Program
  | .getRpcUrlId => SqliteDb.getRpcUrlId
  | .insertNamedTxs txs => SqliteDb.insertNamedTxs txs
  | .insertReplayReport => SqliteDb.insertReplayReport
  | .insertRun => SqliteDb.insertRun
  | .insertRunTxs txs => insertBatch txs
  | .insertLatencyMetrics buckets => insertBatch buckets
  | .query => queryRow .other

/-! ## Row ids -/

/-- The tables whose ids are answered. -/
inductive Table
  | runs
  | replayReports
deriving DecidableEq

/-- A successful answer of a call: the id it returned, and the id of the row it inserted. -/
structure Answer where
  table : Table
  returned : ℕ
  inserted : ℕ
deriving DecidableEq

variable {ι : Type*}

/-- The ids of the rows, what the connections remember, and the local variable of
`insert_replay_report`. The last four fields are no part of the program: the row each caller
inserted in `runs` last, the caller whose row that was the last row inserted through a
connection, the callers whose count is out of date, and the answers given so far. -/
structure Rows (ι : Type*) where
  runs : List ℕ
  replayReports : List ℕ
  lastInsertRowid : Conn → ℕ
  reportId : ι → ℕ
  inserted : ι → ℕ
  author : Conn → Option ι
  overtaken : ι → Bool
  answers : List Answer

/-- The database is opened with that many rows in its tables. -/
def Rows.opened (runs replayReports : ℕ) : Rows ι where
  runs := (List.range runs).map (· + 1)
  replayReports := (List.range replayReports).map (· + 1)
  lastInsertRowid _ := 0
  reportId _ := 0
  inserted _ := 0
  author _ := none
  overtaken _ := true
  answers := []

variable [DecidableEq ι]

/-- A row is inserted in a table whose ids are not followed. -/
def Rows.insertElsewhere (s : Rows ι) (c : Conn) (id : ℕ) : Rows ι :=
  { s with
    lastInsertRowid := Function.update s.lastInsertRowid c id
    author := Function.update s.author c none }

/-- `INSERT INTO runs`. No other connection has this caller's latest row any more. -/
def Rows.insertRun (s : Rows ι) (i : ι) (c : Conn) : Rows ι :=
  { s with
    runs := s.runs ++ [nextId s.runs]
    lastInsertRowid := Function.update s.lastInsertRowid c (nextId s.runs)
    inserted := Function.update s.inserted i (nextId s.runs)
    author := Function.update
      (fun d => if s.author d = some i then none else s.author d) c (some i) }

/-- `insert_run` answers with what the connection remembers. -/
def Rows.answerRun (s : Rows ι) (i : ι) (c : Conn) : Rows ι :=
  { s with answers := s.answers ++ [⟨.runs, s.lastInsertRowid c, s.inserted i⟩] }

/-- `let report_id = self.num_replay_reports()? + 1` -/
def Rows.countReplayReports (s : Rows ι) (i : ι) : Rows ι :=
  { s with
    reportId := Function.update s.reportId i (s.replayReports.length + 1)
    overtaken := Function.update s.overtaken i false }

/-- `INSERT INTO replay_reports`, and the answer. -/
def Rows.insertReplayReport (s : Rows ι) (i : ι) (c : Conn) : Rows ι :=
  { s.insertElsewhere c (nextId s.replayReports) with
    replayReports := s.replayReports ++ [nextId s.replayReports]
    overtaken := fun _ => true
    answers := s.answers ++ [⟨.replayReports, s.reportId i, nextId s.replayReports⟩] }

/-- A statement succeeds on a connection. The outcome is the row id assigned in a table whose
ids are not followed, if a row was inserted there. -/
def exec (i : ι) (c : Conn) (statement : Statement) (outcome : Option ℕ) (s : Rows ι) :
    Option (Rows ι) :=
  match statement, outcome with
  | .insertRun, _ => some (s.insertRun i c)
  | .selectLastInsertRowid, _ => some (s.answerRun i c)
  | .countReplayReports, _ => some (s.countReplayReports i)
  | .insertReplayReport, _ => some (s.insertReplayReport i c)
  | .insertOrIgnoreRpcUrl, some id => some (s.insertElsewhere c id)
  | .insertOrIgnoreRpcUrl, none => some s
  | .insertRow, some id => some (s.insertElsewhere c id)
  | .insertRow, none => none
  | .other, _ => some s

/-- The database and its callers. -/
abbrev System (ι : Type*) := State (Rows ι) ι Conn Statement

/-- The callers are about to make their calls, each one after the other. -/
def System.opened (runs replayReports : ℕ) (calls : ι → List Call) : System ι :=
  initial (.opened runs replayReports) fun i => (calls i).map Call.program

abbrev System.run (s : System ι) (w : List (Label ι Conn (Option ℕ))) : Option (System ι) :=
  Execution.run (step exec) s w

/-! ## Answered ids -/

/-- Every id that was answered is the id of the row the call inserted. -/
def System.Identifies (s : System ι) : Prop :=
  ∀ answer ∈ s.store.answers, answer.returned = answer.inserted

instance System.Identifies.decidable (s : System ι) : Decidable s.Identifies :=
  inferInstanceAs (Decidable (∀ answer ∈ s.store.answers, answer.returned = answer.inserted))

/-- Nothing has come between a call's `INSERT` and what its answer is read from: when
`insert_run` asks for the last row id, the last row inserted through the connection it
borrowed is its own, and when `insert_replay_report` inserts its row, no row was inserted in
`replay_reports` since it counted them. -/
def System.undisturbed (s : System ι) : Label ι Conn (Option ℕ) → Bool
  | .act i _ =>
    match s.clients i with
    | ⟨_, .act .selectLastInsertRowid :: _, c :: _⟩ => decide (s.store.author c = some i)
    | ⟨_, .act .insertReplayReport :: _, _⟩ => !s.store.overtaken i
    | _ => true
  | _ => true

/-- What the answers are right by: ids are assigned without gaps, a connection remembers the
row of the caller that inserted last through it, and a count that is not out of date is the
number of rows. -/
structure Rows.Sound (s : Rows ι) : Prop where
  ids : ∃ n, s.replayReports = (List.range n).map (· + 1)
  author : ∀ c i, s.author c = some i → s.lastInsertRowid c = s.inserted i
  counted : ∀ i, s.overtaken i = false → s.reportId i = s.replayReports.length + 1
  answers : ∀ answer ∈ s.answers, answer.returned = answer.inserted

omit [DecidableEq ι] in
theorem Rows.sound_opened (runs replayReports : ℕ) :
    (opened runs replayReports : Rows ι).Sound where
  ids := ⟨replayReports, rfl⟩
  author := by simp [opened]
  counted := by simp [opened]
  answers := by simp [opened]

namespace Rows.Sound

variable {s t : Rows ι} {i : ι} {c : Conn}

omit [DecidableEq ι] in
theorem insertElsewhere (hs : s.Sound) (id : ℕ) : (s.insertElsewhere c id).Sound where
  ids := hs.ids
  author d j hd := by
    simp only [Rows.insertElsewhere] at hd ⊢
    by_cases hdc : d = c
    · subst hdc
      simp at hd
    · rw [Function.update_of_ne hdc] at hd ⊢
      exact hs.author d j hd
  counted := hs.counted
  answers := hs.answers

theorem insertRun (hs : s.Sound) : (s.insertRun i c).Sound where
  ids := hs.ids
  author d j hd := by
    simp only [Rows.insertRun] at hd ⊢
    by_cases hdc : d = c
    · subst hdc
      obtain rfl : i = j := by simpa using hd
      simp
    -- the other connections keep the rows of the other callers only
    · rw [Function.update_of_ne hdc] at hd ⊢
      split_ifs at hd with hmine
      have hj : j ≠ i := fun hj => hmine (hj ▸ hd)
      rw [Function.update_of_ne hj]
      exact hs.author d j hd
  counted := hs.counted
  answers := hs.answers

omit [DecidableEq ι] in
theorem answerRun (hs : s.Sound) (hauthor : s.author c = some i) : (s.answerRun i c).Sound where
  ids := hs.ids
  author := hs.author
  counted := hs.counted
  answers := by
    intro answer hanswer
    rcases List.mem_append.mp hanswer with hold | hnew
    · exact hs.answers answer hold
    · obtain rfl := List.mem_singleton.mp hnew
      exact hs.author c i hauthor

theorem countReplayReports (hs : s.Sound) : (s.countReplayReports i).Sound where
  ids := hs.ids
  author := hs.author
  counted j hj := by
    simp only [Rows.countReplayReports] at hj ⊢
    by_cases hji : j = i
    · subst hji
      simp
    · rw [Function.update_of_ne hji] at hj ⊢
      exact hs.counted j hj
  answers := hs.answers

omit [DecidableEq ι] in
theorem insertReplayReport (hs : s.Sound) (hcount : s.overtaken i = false) :
    (s.insertReplayReport i c).Sound where
  ids := by
    obtain ⟨n, hn⟩ := hs.ids
    refine ⟨n + 1, ?_⟩
    rw [List.range_succ, List.map_append, ← hn]
    simp [Rows.insertReplayReport, hn, nextId_range]
  author := (hs.insertElsewhere _).author
  counted _ hj := by simp [Rows.insertReplayReport] at hj
  answers := by
    intro answer hanswer
    rcases List.mem_append.mp hanswer with hold | hnew
    · exact hs.answers answer hold
    · obtain rfl := List.mem_singleton.mp hnew
      obtain ⟨n, hn⟩ := hs.ids
      simp [hs.counted i hcount, hn, nextId_range]

/-- Every statement keeps the rows sound, the two that are answered from under their
conditions. -/
theorem exec {statement : Statement} {outcome : Option ℕ} (hs : s.Sound)
    (hlast : statement = .selectLastInsertRowid → s.author c = some i)
    (hcount : statement = .insertReplayReport → s.overtaken i = false)
    (hexec : SqliteDb.exec i c statement outcome s = some t) : t.Sound := by
  unfold SqliteDb.exec at hexec
  split at hexec
  · exact Option.some.inj hexec ▸ hs.insertRun
  · exact Option.some.inj hexec ▸ hs.answerRun (hlast rfl)
  · exact Option.some.inj hexec ▸ hs.countReplayReports
  · exact Option.some.inj hexec ▸ hs.insertReplayReport (hcount rfl)
  · exact Option.some.inj hexec ▸ hs.insertElsewhere _
  · exact Option.some.inj hexec ▸ hs
  · exact Option.some.inj hexec ▸ hs.insertElsewhere _
  · cases hexec
  · exact Option.some.inj hexec ▸ hs

end Rows.Sound

/-- An undisturbed step keeps the rows sound. -/
theorem sound_step {s t : System ι} {l : Label ι Conn (Option ℕ)} (hok : s.undisturbed l)
    (hstep : Step exec s l t) (hs : s.store.Sound) : t.store.Sound := by
  cases hstep with
  | @act i c statement outcome queue program held store hat hdone =>
    refine hs.exec ?_ ?_ hdone
    · rintro rfl
      simpa [System.undisturbed, hat] using hok
    · rintro rfl
      simpa [System.undisturbed, hat] using hok
  | start _ => exact hs
  | acquire _ _ => exact hs
  | release _ => exact hs
  | fail _ => exact hs

/-- In every run in which nothing comes between a call's `INSERT` and what its answer is read
from, every answered id is the id of the row that call inserted. -/
theorem identifies_of_undisturbed (runs replayReports : ℕ) (calls : ι → List Call)
    (w : List (Label ι Conn (Option ℕ))) (t : System ι)
    (hrun : (System.opened runs replayReports calls).run w = some t)
    (hok : Execution.Along (step exec) (fun (s : System ι) l => s.undisturbed l)
      (System.opened runs replayReports calls) w) : t.Identifies := by
  have hsound : t.store.Sound :=
    Execution.invariant (I := fun s : System ι => s.store.Sound)
      (fun s l u hl hstep hs => sound_step hl (step_eq_some.mp hstep) hs)
      (Rows.sound_opened runs replayReports) hrun hok
  exact hsound.answers

namespace TwoCallers

/-- Two callers that each make the same calls. -/
def opened (calls : List Call) : System (Fin 2) := .opened 0 0 fun _ => calls

/-- A caller inserts its run and asks for its id, on the given connections. -/
def insertRunOn (i : Fin 2) (c d : Conn) : List (Label (Fin 2) Conn (Option ℕ)) :=
  [.start i, .acquire i c, .act i none, .release i, .acquire i d, .act i none, .release i]

/-- A caller holds one connection, counts the reports on another and inserts its own. -/
def insertReplayReportOn (i : Fin 2) (c d : Conn) : List (Label (Fin 2) Conn (Option ℕ)) :=
  [.start i, .acquire i c, .acquire i d, .act i none, .release i, .act i none, .release i]

/-- Both callers insert a run and a report, the second after the first and through the same
connections. -/
def inTurn : List (Label (Fin 2) Conn (Option ℕ)) :=
  insertRunOn 0 0 0 ++ insertReplayReportOn 0 0 1 ++
    (insertRunOn 1 0 0 ++ insertReplayReportOn 1 1 0)

theorem identifies_inTurn :
    ∃ t, (opened [.insertRun, .insertReplayReport]).run inTurn = some t ∧ t.Identifies ∧
      t.store.answers = [⟨.runs, 1, 1⟩, ⟨.replayReports, 1, 1⟩, ⟨.runs, 2, 2⟩,
        ⟨.replayReports, 2, 2⟩] := by
  refine ⟨((opened [.insertRun, .insertReplayReport]).run inTurn).get (by decide +kernel),
    (Option.some_get _).symm, ?_, by decide +kernel⟩
  exact identifies_of_undisturbed 0 0 _ inTurn _ (Option.some_get _).symm (by decide +kernel)

/-- The second caller's run is inserted through the connection the first one asks. -/
def crossedRuns : List (Label (Fin 2) Conn (Option ℕ)) :=
  [.start 0, .acquire 0 0, .act 0 none, .release 0,
   .start 1, .acquire 1 0, .act 1 none, .release 1,
   .acquire 0 0, .act 0 none]

/-- Both callers count the reports before either inserts its own. -/
def crossedReports : List (Label (Fin 2) Conn (Option ℕ)) :=
  [.start 0, .acquire 0 0, .acquire 0 2, .act 0 none, .release 0,
   .start 1, .acquire 1 1, .acquire 1 2, .act 1 none, .release 1,
   .act 0 none, .act 1 none]

/-- The first caller of `insert_run` is answered the id of the second one's run, and the
second caller of `insert_replay_report` the id of the first one's report. -/
theorem not_identifies_crossed :
    (∃ t, (opened [.insertRun]).run crossedRuns = some t ∧ ¬ t.Identifies ∧
      t.store.answers = [⟨.runs, 2, 1⟩]) ∧
    ∃ t, (opened [.insertReplayReport]).run crossedReports = some t ∧ ¬ t.Identifies ∧
      t.store.answers = [⟨.replayReports, 1, 1⟩, ⟨.replayReports, 1, 2⟩] := by
  constructor
  · refine ⟨((opened [.insertRun]).run crossedRuns).get (by decide +kernel),
      (Option.some_get _).symm, by decide +kernel, by decide +kernel⟩
  · refine ⟨((opened [.insertReplayReport]).run crossedReports).get (by decide +kernel),
      (Option.some_get _).symm, by decide +kernel, by decide +kernel⟩

end TwoCallers

/-! ## Starvation -/

/-- The calls that hold one connection while they wait for another. -/
def Call.nested : Call → Bool
  | .getRpcUrlId => true
  | .insertNamedTxs _ => true
  | .insertReplayReport => true
  | _ => false

/-- No run leads to a state in which every connection is held by a caller that waits for
another one. -/
def NeverStarved (calls : ι → List Call) : Prop :=
  ∀ runs replayReports w t,
    (System.opened runs replayReports calls).run w = some t → ¬ Starved t

theorem total_exec : Total (exec : ι → Conn → Statement → Option ℕ → Rows ι → _) := by
  intro i c statement s
  cases statement with
  | insertRow => exact ⟨some 1, _, rfl⟩
  | _ => exact ⟨none, _, rfl⟩

theorem nested_program {call : Call} (h : call.nested) : Nested call.program := by
  cases call with
  | getRpcUrlId => exact ⟨[.insertOrIgnoreRpcUrl], _, rfl⟩
  | insertNamedTxs txs => exact ⟨[.insertOrIgnoreRpcUrl], _, rfl⟩
  | insertReplayReport => exact ⟨[], _, rfl⟩
  | _ => cases h

theorem flat_program {call : Call} (h : ¬ call.nested) : Flat call.program := by
  cases call with
  | insertRun => exact ⟨[[.insertRun], [.selectLastInsertRowid]], rfl⟩
  | insertRunTxs txs => exact ⟨[_], (List.append_nil _).symm⟩
  | insertLatencyMetrics buckets => exact ⟨[_], (List.append_nil _).symm⟩
  | query => exact ⟨[_], (List.append_nil _).symm⟩
  | _ => exact absurd rfl h

/-- A call holds one connection at a time, or two when it is nested. -/
theorem within_program {call : Call} {d : ℕ} (hone : 1 ≤ d) (htwo : call.nested → 2 ≤ d) :
    Within d 0 call.program := by
  cases call with
  | getRpcUrlId =>
    have hd := htwo rfl
    exact ⟨by omega, (within_session_append _ _).mpr ⟨by omega, trivial⟩⟩
  | insertNamedTxs txs =>
    have hd := htwo rfl
    refine ⟨by omega, ?_⟩
    show Within d 1 (queryRow .other ++ [.release] ++ insertBatch txs)
    rw [List.append_assoc]
    refine (within_session_append _ _).mpr ⟨by omega, ?_⟩
    exact (within_session _).mpr hone
  | insertReplayReport =>
    have hd := htwo rfl
    exact ⟨by omega, (within_session_append _ _).mpr ⟨by omega, trivial⟩⟩
  | insertRun => exact (within_session_append _ _).mpr ⟨hone, (within_session _).mpr hone⟩
  | insertRunTxs txs => exact (within_session _).mpr hone
  | insertLatencyMetrics buckets => exact (within_session _).mpr hone
  | query => exact (within_session _).mpr hone

/-- Before its first nested call a caller makes flat ones. -/
theorem exists_first_nested {calls : List Call} (h : ∃ call ∈ calls, call.nested) :
    ∃ before p after, calls.map Call.program = before ++ p :: after ∧
      (∀ q ∈ before, Flat q) ∧ Nested p := by
  obtain ⟨call, hfind⟩ := Option.isSome_iff_exists.mp (List.find?_isSome.mpr h)
  obtain ⟨hnested, before, after, rfl, hflat⟩ := List.find?_eq_some_iff_append.mp hfind
  refine ⟨before.map Call.program, call.program, after.map Call.program, by simp, ?_,
    nested_program hnested⟩
  intro q hq
  obtain ⟨earlier, hearlier, rfl⟩ := List.mem_map.mp hq
  exact flat_program (by simpa using hflat earlier hearlier)

/-- The pool never starves itself exactly when fewer than four callers make calls that hold
one connection while they wait for another. -/
theorem neverStarved_iff [Fintype ι] (calls : ι → List Call) :
    NeverStarved calls ↔
      (Finset.univ.filter fun i => ∃ call ∈ calls i, call.nested).card < 4 := by
  constructor
  · intro hnever
    by_contra hfour
    have hcard : Fintype.card Conn ≤
        Fintype.card { i // ∃ call ∈ calls i, call.nested = true } := by
      rw [Fintype.card_subtype, Fintype.card_fin]
      omega
    obtain ⟨f⟩ := Function.Embedding.nonempty_of_card_le hcard
    obtain ⟨w, t, hrun, hstarved⟩ := exists_starved total_exec
      (fun i => (calls i).map Call.program) (f := fun c => (f c : ι))
      (Subtype.val_injective.comp f.injective) (fun c => exists_first_nested (f c).2)
      (.opened 0 0)
    exact hnever 0 0 w t hrun hstarved
  · intro hfew runs replayReports w t hrun
    refine not_starved
      (d := fun i => if ∃ call ∈ calls i, call.nested = true then 2 else 1) ?_ ?_ hrun
    · intro i p hp
      obtain ⟨call, hcall, rfl⟩ := List.mem_map.mp hp
      refine within_program ?_ fun hnested => ?_
      · split_ifs <;> omega
      · rw [if_pos ⟨call, hcall, hnested⟩]
    · have hsum : ∀ i, ((if ∃ call ∈ calls i, call.nested = true then 2 else 1) - 1 : ℕ) =
          if ∃ call ∈ calls i, call.nested = true then 1 else 0 := by
        intro i
        split_ifs <;> rfl
      rw [Finset.sum_congr rfl fun i _ => hsum i, ← Finset.card_filter, Fintype.card_fin]
      exact hfew

namespace FourCallers

/-- Each caller inserts its url and goes on to query the id. -/
def upToQuery (i : Fin 4) : List (Label (Fin 4) Conn (Option ℕ)) :=
  [.start i, .acquire i i, .act i (some (i + 1))]

theorem isSome_run : ((System.opened 0 0 fun _ : Fin 4 => [Call.getRpcUrlId]).run
    ((List.finRange 4).flatMap upToQuery)).isSome := by
  decide +kernel

/-- Four callers of `get_rpc_url_id` hold the four connections, and each waits for one. -/
theorem not_neverStarved : ¬ NeverStarved fun _ : Fin 4 => [Call.getRpcUrlId] := by
  intro hnever
  have hholder : ∀ c, (Option.get _ isSome_run).holder c = some c := by decide +kernel
  have hprogram : ∀ c, ((Option.get _ isSome_run).clients c).program =
      .acquire :: .act .other :: [.release, .release] := by decide +kernel
  exact hnever 0 0 _ _ (Option.some_get isSome_run).symm fun c =>
    ⟨c, hholder c, _, hprogram c⟩

end FourCallers

end Contender.SqliteDb
