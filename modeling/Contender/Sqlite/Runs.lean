import Contender.Cli.ParseDuration
import Contender.Data.Trimming
import Contender.Report.Command
import Contender.Sqlite.Database
import Mathlib.Data.List.Forall2

/-!
# The runs in the database

A run is kept in columns of integers and texts. The timestamp is bound as an integer, which the
affinity of its column turns into a text, and the duration is kept as its display text. Both are
parsed when a row is read, which panics on any other text. The id that an insertion returns is
asked for in a statement of its own, on any connection of the pool; the rows are what the
insertions leave.

## Main results

* `SpamDuration.ofText_toText` — a duration comes back from its text
* `runsTable_insertRuns` — after any insertions every query answers as over the list of the runs
  that fit into their columns, numbered in their order
-/

namespace Contender

/-- `str::parse::<u64>`: digits, which may have a plus sign before them. -/
def parseUnsigned (text : Text) : Option ℕ :=
  let digits := if text.head? = some '+' then text.tail else text
  if digits = [] then none
  else if digits.all Char.isDigit then toU64 (Nat.ofDigitChars 10 digits 0)
  else none

/-- `str::strip_suffix`. -/
def stripSuffix (suffix text : Text) : Option Text :=
  if suffix <:+ text then some (text.take (text.length - suffix.length)) else none

namespace SpamDuration

def secondsSuffix : Text := " seconds".toList

def blocksSuffix : Text := " blocks".toList

/-- `SpamDuration::to_string`. -/
def toText : SpamDuration → Text
  | .seconds value => value.decimal ++ secondsSuffix
  | .blocks value => value.decimal ++ blocksSuffix

/-- `SpamDuration::from`; `none` is a panic. -/
def ofText (value : Text) : Option SpamDuration :=
  let value := trim value
  match stripSuffix secondsSuffix value with
  | some stripped => (parseUnsigned (trim stripped)).map .seconds
  | none =>
    match stripSuffix blocksSuffix value with
    | some stripped => (parseUnsigned (trim stripped)).map .blocks
    | none => none

end SpamDuration

/-- What `insert_run` is asked to store. -/
structure SpamRunRequest where
  timestamp : ℕ
  txCount : ℕ
  scenarioName : Text
  campaignId : Option Text
  campaignName : Option Text
  stageName : Option Text
  rpcUrl : Text
  txsPerDuration : ℕ
  duration : SpamDuration
  -- a `Duration`, in nanoseconds
  pendingTimeout : ℕ
  duration_lt : duration.value < 2 ^ 64

namespace SqliteDb.Runs

/-- A row of `runs`. -/
structure SpamRunRow where
  id : ℕ
  timestamp : Text
  txCount : ℕ
  scenarioName : Text
  campaignId : Option Text
  campaignName : Option Text
  stageName : Option Text
  rpcUrl : Text
  txsPerDuration : ℕ
  duration : Text
  timeout : ℕ
  deriving DecidableEq, Repr

/-- Bind an unsigned number: SQLite has signed 64-bit integers only. -/
def bindU64 (n : ℕ) : Except Error ℕ := if n < 2 ^ 63 then .ok n else .error .executeQuery

/-- `SpamRun::from`. -/
def SpamRunRow.toSpamRun (row : SpamRunRow) : Except Error SpamRun := do
  let timestamp ← expect "invalid timestamp" (parseUnsigned row.timestamp)
  let duration ← expect "Invalid format for SpamDuration" (SpamDuration.ofText row.duration)
  return {
    id := row.id
    timestamp
    txCount := row.txCount
    scenarioName := row.scenarioName
    campaignId := row.campaignId
    campaignName := row.campaignName
    stageName := row.stageName
    rpcUrl := row.rpcUrl
    txsPerDuration := row.txsPerDuration
    duration
    timeout := row.timeout }

/-- `insert_run`. -/
def insertRun (rows : List SpamRunRow) (run : SpamRunRequest) :
    Except Error (List SpamRunRow) := do
  let timestamp ← bindU64 run.timestamp
  let txCount ← bindU64 run.txCount
  let txsPerDuration ← bindU64 run.txsPerDuration
  let timeout ← bindU64 (run.pendingTimeout / 10 ^ 9)
  return rows ++ [{
    id := nextId (rows.map SpamRunRow.id)
    timestamp := timestamp.decimal
    txCount
    scenarioName := run.scenarioName
    campaignId := run.campaignId
    campaignName := run.campaignName
    stageName := run.stageName
    rpcUrl := run.rpcUrl
    txsPerDuration
    duration := run.duration.toText
    timeout }]

/-- Any insertions into an empty table, of which some may fail. -/
def insertRuns (runs : List SpamRunRequest) : List SpamRunRow :=
  runs.foldl (fun rows run =>
    match insertRun rows run with
    | .ok rows' => rows'
    | .error _ => rows) []

section Queries

variable (rows : List SpamRunRow)

def numRuns : ℕ := rows.length

def getRun (runId : ℕ) : Except Error (Option SpamRun) := do
  let runId ← bindU64 runId
  (rows.filter fun row => row.id = runId).getLast?.mapM SpamRunRow.toSpamRun

def getRunsByCampaign (campaignId : Text) : Except Error (List SpamRun) :=
  (rows.filter fun row => row.campaignId = some campaignId).mapM SpamRunRow.toSpamRun

def latestCampaignId : Option Text := (rows.filterMap SpamRunRow.campaignId).getLast?

def getRpcUrlForScenario (scenarioName : Text) : Option Text :=
  (rows.filter fun row => row.scenarioName = scenarioName).getLast?.map SpamRunRow.rpcUrl

end Queries

end SqliteDb.Runs

/-! ### The runs that are kept -/

namespace SpamRunRequest

/-- All numbers of a run fit into their columns. -/
def Fits (run : SpamRunRequest) : Prop :=
  run.timestamp < 2 ^ 63 ∧ run.txCount < 2 ^ 63 ∧ run.txsPerDuration < 2 ^ 63 ∧
    run.pendingTimeout / 10 ^ 9 < 2 ^ 63

instance (run : SpamRunRequest) : Decidable run.Fits := inferInstanceAs (Decidable (_ ∧ _))

/-- The run that a request asks to keep, under an id. -/
def toRun (run : SpamRunRequest) (id : ℕ) : SpamRun where
  id
  timestamp := run.timestamp
  txCount := run.txCount
  scenarioName := run.scenarioName
  campaignId := run.campaignId
  campaignName := run.campaignName
  stageName := run.stageName
  rpcUrl := run.rpcUrl
  txsPerDuration := run.txsPerDuration
  duration := run.duration
  timeout := run.pendingTimeout / 10 ^ 9

end SpamRunRequest

/-- The runs that fit, numbered from one. -/
def keptRuns (runs : List SpamRunRequest) : List SpamRun :=
  (runs.filter fun run => run.Fits).mapIdx fun i run => run.toRun (i + 1)

/-! ### The texts of a run -/

theorem decimal_ne_nil (n : ℕ) : n.decimal ≠ [] := Nat.toDigits_ne_nil

/-- A number comes back from its digits. -/
theorem parseUnsigned_decimal {n : ℕ} (h : n < 2 ^ 64) : parseUnsigned n.decimal = some n := by
  have hplus : n.decimal.head? ≠ some '+' := fun hhead =>
    Nat.notMem_decimal (c := '+') (by decide) n (List.mem_of_mem_head? hhead)
  have hdigits : n.decimal.all Char.isDigit = true :=
    List.all_eq_true.mpr fun c hc => Nat.isDigit_of_mem_decimal hc
  have hvalue : Nat.ofDigitChars 10 n.decimal 0 = n := by
    rw [Nat.decimal, Nat.ofDigitChars_toDigits (by decide) (by decide)]
  rw [parseUnsigned]
  simp only [if_neg hplus, if_neg (decimal_ne_nil n), hdigits, if_true, hvalue, toU64, if_pos h]

theorem trim_of_trimmed {text : Text} (h : List.Trimmed Char.isWhiteSpace text) :
    trim text = text := by
  have htrim : ([] ++ text ++ []).trimBoth Char.isWhiteSpace = text :=
    List.trimBoth_append_append h (fun _ hc => absurd hc List.not_mem_nil)
      fun _ hc => absurd hc List.not_mem_nil
  rwa [List.nil_append, List.append_nil] at htrim

theorem trimmed_decimal (n : ℕ) : List.Trimmed Char.isWhiteSpace n.decimal :=
  List.trimmed_of_forall fun _ hc => isWhiteSpace_of_isDigit (Nat.isDigit_of_mem_decimal hc)

theorem stripSuffix_append (text suffix : Text) :
    stripSuffix suffix (text ++ suffix) = some text := by
  rw [stripSuffix, if_pos (List.suffix_append _ _), List.length_append, Nat.add_sub_cancel,
    List.take_left]

/-- A text of blocks is not one of seconds. -/
theorem stripSuffix_seconds_blocks (text : Text) :
    stripSuffix SpamDuration.secondsSuffix (text ++ SpamDuration.blocksSuffix) = none := by
  refine if_neg fun hsuffix => ?_
  obtain ⟨before, heq⟩ := hsuffix
  have hseconds : SpamDuration.secondsSuffix = " secon".toList ++ ['d', 's'] := by decide
  have hblocks : SpamDuration.blocksSuffix = " bloc".toList ++ ['k', 's'] := by decide
  rw [hseconds, hblocks, ← List.append_assoc, ← List.append_assoc] at heq
  exact absurd (List.append_inj_right' heq rfl) (by decide)

/-- A number with the name of its unit behind it is not trimmed. -/
theorem trim_decimal_append (n : ℕ) {suffix : Text} {last : Char}
    (hlast : suffix.getLast? = some last) (hspace : last.isWhiteSpace = false) :
    trim (n.decimal ++ suffix) = n.decimal ++ suffix := by
  refine trim_of_trimmed ⟨fun c hc => ?_, fun c hc => ?_⟩
  · rw [List.head?_append_of_ne_nil _ (decimal_ne_nil n)] at hc
    exact (trimmed_decimal n).head c hc
  · rw [List.getLast?_append, hlast] at hc
    obtain rfl : last = c := Option.some.inj hc
    exact hspace

/-- A duration comes back from its text. -/
theorem SpamDuration.ofText_toText {duration : SpamDuration} (h : duration.value < 2 ^ 64) :
    ofText duration.toText = some duration := by
  have hvalue : parseUnsigned duration.value.decimal = some duration.value :=
    parseUnsigned_decimal h
  have htrim := trim_of_trimmed (trimmed_decimal duration.value)
  cases duration with
  | seconds value =>
    have hends : trim (value.decimal ++ secondsSuffix) = value.decimal ++ secondsSuffix :=
      trim_decimal_append value rfl (by decide : 's'.isWhiteSpace = false)
    rw [toText, ofText, hends, stripSuffix_append]
    exact congrArg (Option.map seconds) ((congrArg parseUnsigned htrim).trans hvalue)
  | blocks value =>
    have hends : trim (value.decimal ++ blocksSuffix) = value.decimal ++ blocksSuffix :=
      trim_decimal_append value rfl (by decide : 's'.isWhiteSpace = false)
    rw [toText, ofText, hends, stripSuffix_seconds_blocks, stripSuffix_append]
    exact congrArg (Option.map blocks) ((congrArg parseUnsigned htrim).trans hvalue)

namespace SqliteDb.Runs

/-! ### The rows of the runs -/

theorem bindU64_eq_ok_iff {n m : ℕ} : bindU64 n = .ok m ↔ n < 2 ^ 63 ∧ n = m := by
  unfold bindU64
  split_ifs with h
  · exact ⟨fun heq => ⟨h, Except.ok.inj heq⟩, fun heq => congrArg _ heq.2⟩
  · exact iff_of_false nofun fun heq => h heq.1

theorem bindU64_of_lt {n : ℕ} (h : n < 2 ^ 63) : bindU64 n = .ok n := if_pos h

/-- The row of a run. -/
def rowOf (run : SpamRun) : SpamRunRow where
  id := run.id
  timestamp := run.timestamp.decimal
  txCount := run.txCount
  scenarioName := run.scenarioName
  campaignId := run.campaignId
  campaignName := run.campaignName
  stageName := run.stageName
  rpcUrl := run.rpcUrl
  txsPerDuration := run.txsPerDuration
  duration := run.duration.toText
  timeout := run.timeout

/-- A run comes back from its row. -/
theorem toSpamRun_rowOf {run : SpamRun} (htimestamp : run.timestamp < 2 ^ 64)
    (hduration : run.duration.value < 2 ^ 64) : (rowOf run).toSpamRun = .ok run := by
  have hparse := parseUnsigned_decimal htimestamp
  have hof := SpamDuration.ofText_toText hduration
  simp only [SpamRunRow.toSpamRun, rowOf, hparse, hof, expect]
  rfl

/-- A run is inserted exactly when it fits, after the rows that are there. -/
theorem insertRun_of_fits {rows : List SpamRunRow} {run : SpamRunRequest} (h : run.Fits) :
    insertRun rows run = .ok (rows ++ [rowOf (run.toRun (nextId (rows.map SpamRunRow.id)))]) := by
  obtain ⟨htimestamp, htxCount, htxsPerDuration, htimeout⟩ := h
  simp only [insertRun, bindU64_of_lt htimestamp, bindU64_of_lt htxCount,
    bindU64_of_lt htxsPerDuration, bindU64_of_lt htimeout]
  rfl

theorem insertRun_of_not_fits (rows : List SpamRunRow) {run : SpamRunRequest} (h : ¬ run.Fits) :
    ∃ e, insertRun rows run = .error e := by
  cases hinsert : insertRun rows run with
  | error e => exact ⟨e, rfl⟩
  | ok rows' =>
    obtain ⟨_, htimestamp, hinsert⟩ := Except.bind_eq_ok_iff.mp hinsert
    obtain ⟨_, htxCount, hinsert⟩ := Except.bind_eq_ok_iff.mp hinsert
    obtain ⟨_, htxsPerDuration, hinsert⟩ := Except.bind_eq_ok_iff.mp hinsert
    obtain ⟨_, htimeout, -⟩ := Except.bind_eq_ok_iff.mp hinsert
    exact absurd ⟨(bindU64_eq_ok_iff.mp htimestamp).1, (bindU64_eq_ok_iff.mp htxCount).1,
      (bindU64_eq_ok_iff.mp htxsPerDuration).1, (bindU64_eq_ok_iff.mp htimeout).1⟩ h

theorem keptRuns_concat (runs : List SpamRunRequest) (run : SpamRunRequest) :
    keptRuns (runs ++ [run]) =
      if run.Fits then keptRuns runs ++ [run.toRun ((keptRuns runs).length + 1)]
      else keptRuns runs := by
  rw [keptRuns, keptRuns, List.filter_append, List.length_mapIdx]
  split_ifs with h
  · have hlast : [run].filter (fun run => run.Fits) = [run] :=
      List.filter_eq_self.mpr fun _ hmem => by
        rw [List.mem_singleton.mp hmem]
        exact decide_eq_true h
    rw [hlast, List.mapIdx_concat]
  · have hlast : [run].filter (fun run => run.Fits) = [] :=
      List.filter_eq_nil_iff.mpr fun _ hmem => by
        rw [List.mem_singleton.mp hmem]
        exact fun hfits => h (of_decide_eq_true hfits)
    rw [hlast, List.append_nil]

theorem insertRuns_concat (runs : List SpamRunRequest) (run : SpamRunRequest) :
    insertRuns (runs ++ [run]) =
      match insertRun (insertRuns runs) run with
      | .ok rows => rows
      | .error _ => insertRuns runs := by
  rw [insertRuns, List.foldl_append]
  rfl

theorem map_id_keptRuns (runs : List SpamRunRequest) :
    (keptRuns runs).map SpamRun.id = (List.range (keptRuns runs).length).map (· + 1) := by
  refine List.ext_getElem (by simp) fun i _ _ => ?_
  simp [keptRuns, SpamRunRequest.toRun]

/-- The rows are those of the runs that are kept. -/
theorem insertRuns_eq (runs : List SpamRunRequest) :
    insertRuns runs = (keptRuns runs).map rowOf := by
  induction runs using List.reverseRecOn with
  | nil => rfl
  | append_singleton runs run ih =>
    rw [insertRuns_concat, keptRuns_concat]
    by_cases h : run.Fits
    · have hid : nextId ((insertRuns runs).map SpamRunRow.id) = (keptRuns runs).length + 1 := by
        rw [ih, List.map_map]
        exact (congrArg nextId (map_id_keptRuns runs)).trans (nextId_range _)
      rw [insertRun_of_fits h, hid, if_pos h, List.map_append, ← ih]
      rfl
    · obtain ⟨e, herror⟩ := insertRun_of_not_fits (insertRuns runs) h
      rw [herror, if_neg h, ← ih]

/-! ### The queries -/

/-- Every query answers as over a list of runs. -/
structure RunsTable (rows : List SpamRunRow) (runs : List SpamRun) : Prop where
  numRuns : numRuns rows = runs.length
  getRun : ∀ id < 2 ^ 63, getRun rows id = .ok (runs.filter fun run => run.id = id).getLast?
  getRunsByCampaign : ∀ campaignId, getRunsByCampaign rows campaignId =
    .ok (runs.filter fun run => run.campaignId = some campaignId)
  latestCampaignId : latestCampaignId rows = (runs.filterMap SpamRun.campaignId).getLast?
  getRpcUrlForScenario : ∀ scenarioName, getRpcUrlForScenario rows scenarioName =
    (runs.filter fun run => run.scenarioName = scenarioName).getLast?.map SpamRun.rpcUrl

/-- The rows of runs that come back are a table of these runs. -/
theorem runsTable_map_rowOf {runs : List SpamRun}
    (h : ∀ run ∈ runs, (rowOf run).toSpamRun = .ok run) : RunsTable (runs.map rowOf) runs where
  numRuns := List.length_map _
  getRun id hid := by
    rw [Runs.getRun, bindU64_of_lt hid]
    refine Option.mapM_eq_ok_iff.mpr ?_
    rw [List.filter_map, List.getLast?_map]
    cases hlast : (runs.filter fun run => run.id = id).getLast? with
    | none => exact .inl ⟨congrArg (Option.map rowOf) hlast, rfl⟩
    | some run =>
      have hmem : run ∈ runs := List.mem_of_mem_filter (List.mem_of_mem_getLast? hlast)
      exact .inr ⟨rowOf run, run, congrArg (Option.map rowOf) hlast, h run hmem, rfl⟩
  getRunsByCampaign campaignId := by
    rw [Runs.getRunsByCampaign, List.filter_map, List.mapM_eq_ok_iff,
      List.forall₂_map_left_iff]
    exact List.forall₂_same.mpr fun run hrun => h run (List.mem_of_mem_filter hrun)
  latestCampaignId := by
    rw [Runs.latestCampaignId, List.filterMap_map]
    rfl
  getRpcUrlForScenario scenarioName := by
    rw [Runs.getRpcUrlForScenario, List.filter_map, List.getLast?_map, Option.map_map]
    rfl

theorem toSpamRun_of_mem_keptRuns {requests : List SpamRunRequest} {run : SpamRun}
    (h : run ∈ keptRuns requests) : (rowOf run).toSpamRun = .ok run := by
  obtain ⟨i, hi, rfl⟩ := List.mem_mapIdx.mp h
  have hmem := List.mem_filter.mp (List.getElem_mem hi)
  have hfits : SpamRunRequest.Fits _ := of_decide_eq_true hmem.2
  exact toSpamRun_rowOf (hfits.1.trans (by decide)) (SpamRunRequest.duration_lt _)

/-- After any insertions every query answers as over the list of the runs that fit, numbered in
their order. -/
theorem runsTable_insertRuns (requests : List SpamRunRequest) :
    RunsTable (insertRuns requests) (keptRuns requests) := by
  rw [insertRuns_eq]
  exact runsTable_map_rowOf fun run hrun => toSpamRun_of_mem_keptRuns hrun

end SqliteDb.Runs

end Contender
