import Mathlib.Data.List.Sort
import Mathlib.Order.Lattice.Nat
import Contender.Data.Tally
import Contender.Report.Command

/-!
# The summary of a campaign

`report_campaign` writes a report of each run of a campaign and one summary of them all. The
summary counts the transactions four times: for each run, for each pair of stage and scenario,
for each stage by scenario, and overall. A run counts with its stored transactions when these
are as many as it has sent; otherwise it counts with the number it has sent and without errors.

## Main results

* `DbOps.totalsAgree_of_campaignSummary` — the four counts agree, and so do the errors and the
  durations
-/

namespace Contender

/-- Division and rounding of rates, to two places: `f64` in the program. -/
structure RateArithmetic (F : Type) where
  zero : F
  ratio : ℕ → ℕ → F

/-- The state of `OverallAccumulator` and of `StageAccumulator`. -/
structure Accumulator where
  totalTx : ℕ
  totalErrors : ℕ
  startMs : Option ℕ
  endMs : Option ℕ
  deriving DecidableEq, Repr

namespace Accumulator

/-- `default()`. -/
def empty : Accumulator := ⟨0, 0, none, none⟩

/-- `add_run`. -/
def addRun (acc : Accumulator) (tx errors : ℕ) (startMs endMs : Option ℕ) : Accumulator where
  totalTx := satAddU64 acc.totalTx tx
  totalErrors := satAddU64 acc.totalErrors errors
  -- a missing time leaves the bound alone
  startMs := match startMs with
    | some s => some (acc.startMs.elim s fun curr => min curr s)
    | none => acc.startMs
  endMs := match endMs with
    | some e => some (acc.endMs.elim e fun curr => max curr e)
    | none => acc.endMs

/-- The whole seconds between the start and the end, narrowed by `as u64`. -/
def durationSecs (acc : Accumulator) : ℕ :=
  match acc.startMs, acc.endMs with
  | some s, some e => if e > s then (e - s) / 1000 % 2 ^ 64 else 0
  | _, _ => 0

variable {F : Type} (arith : RateArithmetic F)

def avgTps (acc : Accumulator) : F :=
  if acc.durationSecs > 0 then arith.ratio acc.totalTx acc.durationSecs else arith.zero

def errorRate (acc : Accumulator) : F :=
  if acc.totalTx > 0 then arith.ratio acc.totalErrors acc.totalTx else arith.zero

end Accumulator

abbrev OverallAccumulator := Accumulator

abbrev StageAccumulator := Accumulator

/-- The times are in milliseconds here, and texts in the program. -/
structure CampaignOverall (F : Type) where
  totalTxCount : ℕ
  totalErrorCount : ℕ
  errorRate : F
  campaignStartTime : Option ℕ
  campaignEndTime : Option ℕ
  campaignDurationSecs : ℕ
  avgTps : F

structure StageScenarioSummary (F : Type) where
  stageName : Text
  scenarioName : Text
  totalTxCount : ℕ
  totalErrorCount : ℕ
  errorRate : F
  durationSecs : ℕ
  avgTps : F

structure CampaignRunSummary where
  runId : ℕ
  scenarioName : Text
  stageName : Option Text
  txCount : ℕ
  duration : SpamDuration
  deriving DecidableEq, Repr

structure CampaignReportSummary (F : Type) where
  campaignId : Text
  campaignName : Option Text
  runs : List CampaignRunSummary
  totalsByStage : List (Text × List (Text × ℕ))
  overall : CampaignOverall F
  stageScenario : List (StageScenarioSummary F)
  logsIncomplete : Bool

section Into

variable {F : Type} (arith : RateArithmetic F)

/-- `into_overall`. -/
def OverallAccumulator.intoOverall (acc : OverallAccumulator) : CampaignOverall F where
  totalTxCount := acc.totalTx
  totalErrorCount := acc.totalErrors
  errorRate := acc.errorRate arith
  campaignStartTime := acc.startMs
  campaignEndTime := acc.endMs
  campaignDurationSecs := acc.durationSecs
  avgTps := acc.avgTps arith

/-- `into_summary`. -/
def StageAccumulator.intoSummary (acc : StageAccumulator) (stage scenario : Text) :
    StageScenarioSummary F where
  stageName := stage
  scenarioName := scenario
  totalTxCount := acc.totalTx
  totalErrorCount := acc.totalErrors
  errorRate := acc.errorRate arith
  durationSecs := acc.durationSecs
  avgTps := acc.avgTps arith

end Into

/-! ## One run -/

/-- `tx_and_error_counts`. -/
def txAndErrorCounts (runTxs : List RunTx) (fallbackTxCount : ℕ) : ℕ × ℕ :=
  -- without stored transactions the count comes from the row of the run
  if runTxs = [] then (fallbackTxCount, 0)
  else (runTxs.length, runTxs.countP fun tx => tx.error.isSome)

/-- `run_time_bounds`. Blocks count as seconds. -/
def runTimeBounds (run : SpamRun) (runTxs : List RunTx) : Option ℕ × Option ℕ :=
  if runTxs = [] then
    let durationMs := min (run.duration.value * 1000) (2 ^ 64 - 1)
    (some run.timestamp, some (min (run.timestamp + durationMs) (2 ^ 128 - 1)))
  else
    -- a transaction without an end counts with its start
    ((runTxs.map RunTx.startTimestampMs).min?,
      (runTxs.map fun tx => tx.endTimestampMs.getD tx.startTimestampMs).max?)

/-- `logs_complete`: there are as many stored transactions as the run has sent. -/
def LogsComplete (run : SpamRun) (runTxs : List RunTx) : Prop :=
  runTxs ≠ [] ∧ run.txCount ≤ (txAndErrorCounts runTxs run.txCount).1

instance (run : SpamRun) (runTxs : List RunTx) : Decidable (LogsComplete run runTxs) :=
  inferInstanceAs (Decidable (_ ∧ _))

/-- `run_tx_count`. -/
def runTxCount (run : SpamRun) (runTxs : List RunTx) : ℕ :=
  if LogsComplete run runTxs then (txAndErrorCounts runTxs run.txCount).1 else run.txCount

/-- `run_error_count`. -/
def runErrorCount (run : SpamRun) (runTxs : List RunTx) : ℕ :=
  if LogsComplete run runTxs then (txAndErrorCounts runTxs run.txCount).2 else 0

/-- `start_ms` and `end_ms`. -/
def runBounds (run : SpamRun) (runTxs : List RunTx) : Option ℕ × Option ℕ :=
  -- incomplete logs are not used at all
  if LogsComplete run runTxs then runTimeBounds run runTxs else runTimeBounds run []

/-- `stage_key`. -/
def stageKey (run : SpamRun) : Text := run.stageName.getD "unspecified-stage".toList

/-! ## The loop over the runs -/

/-- What the loop accumulates. -/
structure CampaignTotals where
  summaries : List CampaignRunSummary
  totals : AssocMap Text (AssocMap Text ℕ)
  overallAcc : OverallAccumulator
  stageAcc : AssocMap (Text × Text) StageAccumulator
  logsIncomplete : Bool

namespace CampaignTotals

def empty : CampaignTotals := ⟨[], ∅, .empty, ∅, false⟩

/-- The body of the loop, after the report of the run. The sums of `totals` are checked for
overflow, the others saturate. -/
def addRun (acc : CampaignTotals) (run : SpamRun) (runTxs : List RunTx) :
    Except ReportError CampaignTotals :=
  let txCount := runTxCount run runTxs
  let errorCount := runErrorCount run runTxs
  let bounds := runBounds run runTxs
  let stage := stageKey run
  let scenario := run.scenarioName
  let byScenario := acc.totals.lookupD stage ∅
  match addU64 (byScenario.lookupD scenario 0) txCount with
  | none => .error .panic
  | some count =>
    -- the same two numbers go into each of the four counts
    .ok {
      summaries := acc.summaries ++
        [⟨run.id, run.scenarioName, run.stageName, txCount, run.duration⟩]
      totals := acc.totals.insert stage (byScenario.insert scenario count)
      overallAcc := acc.overallAcc.addRun txCount errorCount bounds.1 bounds.2
      stageAcc := acc.stageAcc.insert (stage, scenario)
        ((acc.stageAcc.lookupD (stage, scenario) .empty).addRun txCount errorCount
          bounds.1 bounds.2)
      logsIncomplete := acc.logsIncomplete || !decide (LogsComplete run runTxs) }

end CampaignTotals

/-- The entries of a `BTreeMap`, in the order of their keys. -/
def sortedEntries {κ ν : Type} (le : κ → κ → Bool) (m : AssocMap κ ν) : List (κ × ν) :=
  (m.entries.map fun e => (e.1, e.2)).mergeSort fun a b => le a.1 b.1

/-- The order of texts, by the code points of their characters. -/
def textLe (a b : Text) : Bool := !b.lex a fun c d => c.toNat.blt d.toNat

/-- The order of pairs of texts. -/
def pairLe (a b : Text × Text) : Bool :=
  if a.1 = b.1 then textLe a.2 b.2 else textLe a.1 b.1

namespace DbOps

variable {F : Type} (db : DbOps) (arith : RateArithmetic F) (render : Report → Except Text Unit)

/-- One iteration: the report of the run alone, and then its counts. -/
def campaignRun (acc : CampaignTotals) (run : SpamRun) : Except ReportError CampaignTotals := do
  -- a report that fails ends the summary
  db.report render ⟨some run.id, 0⟩
  let runTxs ← dbAnswer (db.getRunTxs run.id)
  acc.addRun run runTxs

/-- The summary that `report_campaign` writes. -/
def campaignSummary (campaignId : Text) : Except ReportError (CampaignReportSummary F) := do
  let runs ← dbAnswer (db.getRunsByCampaign campaignId)
  if runs = [] then throw (.campaignNotFound campaignId)
  let acc ← runs.foldlM (db.campaignRun render) .empty
  return {
    campaignId := campaignId
    campaignName := runs.head?.bind SpamRun.campaignName
    runs := acc.summaries
    totalsByStage := (sortedEntries textLe acc.totals).map fun e =>
      (e.1, sortedEntries textLe e.2)
    overall := acc.overallAcc.intoOverall arith
    stageScenario := (sortedEntries pairLe acc.stageAcc).map fun e =>
      e.2.intoSummary arith e.1.1 e.1.2
    logsIncomplete := acc.logsIncomplete }

end DbOps

/-! ## The totals agree -/

namespace CampaignReportSummary

variable {F : Type} (summary : CampaignReportSummary F)

/-- The sum of the totals by stage and scenario. -/
def totalOfStages : ℕ := (summary.totalsByStage.map fun e => (e.2.map Prod.snd).sum).sum

/-- The four counts of a summary agree. -/
structure TotalsAgree : Prop where
  runs : (summary.runs.map CampaignRunSummary.txCount).sum = summary.overall.totalTxCount
  stageScenario :
    (summary.stageScenario.map StageScenarioSummary.totalTxCount).sum =
      summary.overall.totalTxCount
  totalsByStage : summary.totalOfStages = summary.overall.totalTxCount
  errors :
    (summary.stageScenario.map StageScenarioSummary.totalErrorCount).sum =
      summary.overall.totalErrorCount
  errors_le_overall : summary.overall.totalErrorCount ≤ summary.overall.totalTxCount
  errors_le : ∀ entry ∈ summary.stageScenario, entry.totalErrorCount ≤ entry.totalTxCount
  duration_le :
    ∀ entry ∈ summary.stageScenario, entry.durationSecs ≤ summary.overall.campaignDurationSecs

end CampaignReportSummary

namespace Accumulator

variable {acc o : Accumulator} {tx errors : ℕ} {startMs endMs : Option ℕ}

theorem totalTx_addRun (h : acc.totalTx + tx < 2 ^ 64) :
    (acc.addRun tx errors startMs endMs).totalTx = acc.totalTx + tx := by
  change satAddU64 acc.totalTx tx = _
  unfold satAddU64
  omega

theorem totalErrors_addRun (h : acc.totalErrors + errors < 2 ^ 64) :
    (acc.addRun tx errors startMs endMs).totalErrors = acc.totalErrors + errors := by
  change satAddU64 acc.totalErrors errors = _
  unfold satAddU64
  omega

/-- A start that is missing is late. -/
def startOf (startMs : Option ℕ) : WithTop ℕ := startMs.elim ⊤ WithTop.some

/-- An end that is missing is early. -/
def endOf (endMs : Option ℕ) : WithBot ℕ := endMs.elim ⊥ WithBot.some

theorem startOf_addRun :
    startOf (acc.addRun tx errors startMs endMs).startMs =
      min (startOf acc.startMs) (startOf startMs) := by
  obtain ⟨_, _, start, _⟩ := acc
  cases startMs with
  | none => exact (min_top_right _).symm
  | some new =>
    cases start with
    | none => exact (min_top_left _).symm
    | some old => exact WithTop.coe_min old new

theorem endOf_addRun :
    endOf (acc.addRun tx errors startMs endMs).endMs = max (endOf acc.endMs) (endOf endMs) := by
  obtain ⟨_, _, _, stop⟩ := acc
  cases endMs with
  | none => exact (max_bot_right _).symm
  | some new =>
    cases stop with
    | none => exact (max_bot_left _).symm
    | some old => exact WithBot.coe_max old new

/-- The times of an accumulator lie between those of another one. -/
def Within (acc o : Accumulator) : Prop :=
  startOf o.startMs ≤ startOf acc.startMs ∧ endOf acc.endMs ≤ endOf o.endMs

theorem empty_within (o : Accumulator) : empty.Within o := ⟨le_top, bot_le⟩

theorem Within.addRun_right (h : acc.Within o) :
    acc.Within (o.addRun tx errors startMs endMs) := by
  refine ⟨?_, ?_⟩
  · rw [startOf_addRun]
    exact (min_le_left _ _).trans h.1
  · rw [endOf_addRun]
    exact h.2.trans (le_max_left _ _)

/-- A run that both count keeps the one within the other. -/
theorem Within.addRun (h : acc.Within o) :
    (acc.addRun tx errors startMs endMs).Within (o.addRun tx errors startMs endMs) := by
  refine ⟨?_, ?_⟩
  · rw [startOf_addRun, startOf_addRun]
    exact min_le_min_right _ h.1
  · rw [endOf_addRun, endOf_addRun]
    exact max_le_max_right _ h.2

/-- The longer time has the longer duration, if the number of its seconds is not cut off. -/
theorem Within.durationSecs_le (h : acc.Within o)
    (hend : endOf o.endMs < WithBot.some (1000 * 2 ^ 64)) : acc.durationSecs ≤ o.durationSecs := by
  obtain ⟨_, _, start, stop⟩ := acc
  obtain ⟨_, _, start', stop'⟩ := o
  obtain ⟨hstart, hstop⟩ := h
  cases start with
  | none => exact Nat.zero_le _
  | some s =>
    cases stop with
    | none => exact Nat.zero_le _
    | some e =>
      cases start' with
      | none => exact absurd hstart (by simp [startOf])
      | some s' =>
        cases stop' with
        | none => exact absurd hstop (by simp [endOf])
        -- both have a start and an end: the remainder by 2 ^ 64 does nothing
        | some e' =>
          have hs : s' ≤ s := WithTop.coe_le_coe.mp hstart
          have he : e ≤ e' := WithBot.coe_le_coe.mp hstop
          have hcut : e' < 1000 * 2 ^ 64 := WithBot.coe_lt_coe.mp hend
          simp only [durationSecs]
          split_ifs <;> omega

end Accumulator

namespace DbOps

variable (db : DbOps)

/-- The transactions that the database stores for the run. -/
def storedTxs (run : SpamRun) : List RunTx := (db.getRunTxs run.id).toOption.getD []

/-- The number a run counts with. -/
def runCount (run : SpamRun) : ℕ := runTxCount run (db.storedTxs run)

/-- The numbers fit the types of their fields. -/
structure Fits (run : SpamRun) : Prop where
  timestamp : run.timestamp < 2 ^ 64
  startMs : ∀ tx ∈ db.storedTxs run, tx.startTimestampMs < 2 ^ 64
  endMs : ∀ tx ∈ db.storedTxs run, ∀ e ∈ tx.endTimestampMs, e < 2 ^ 64

end DbOps

theorem runErrorCount_le (run : SpamRun) (runTxs : List RunTx) :
    runErrorCount run runTxs ≤ runTxCount run runTxs := by
  unfold runErrorCount runTxCount
  split_ifs with hcomplete
  · rw [txAndErrorCounts, if_neg hcomplete.1]
    exact List.countP_le_length
  · exact Nat.zero_le _

theorem endOf_runTimeBounds {run : SpamRun} {runTxs : List RunTx} (hrun : run.timestamp < 2 ^ 64)
    (hstart : ∀ tx ∈ runTxs, tx.startTimestampMs < 2 ^ 64)
    (hend : ∀ tx ∈ runTxs, ∀ e ∈ tx.endTimestampMs, e < 2 ^ 64) :
    Accumulator.endOf (runTimeBounds run runTxs).2 < WithBot.some (1000 * 2 ^ 64) := by
  rw [runTimeBounds]
  split_ifs with hempty
  · refine WithBot.coe_lt_coe.mpr ?_
    -- the sum of two 64-bit numbers
    have hmin := min_le_left (run.timestamp + min (run.duration.value * 1000) (2 ^ 64 - 1))
      (2 ^ 128 - 1)
    omega
  · change Accumulator.endOf (List.max? _) < _
    cases hmax : (runTxs.map fun tx => tx.endTimestampMs.getD tx.startTimestampMs).max? with
    | none => exact WithBot.bot_lt_coe _
    | some e =>
      refine WithBot.coe_lt_coe.mpr ?_
      obtain ⟨tx, htx, rfl⟩ := List.mem_map.mp (List.max?_mem hmax)
      cases htxend : tx.endTimestampMs with
      | none =>
        have := hstart tx htx
        rw [Option.getD_none]
        omega
      | some e =>
        have := hend tx htx e htxend
        rw [Option.getD_some]
        omega

theorem endOf_runBounds {run : SpamRun} {runTxs : List RunTx} (hrun : run.timestamp < 2 ^ 64)
    (hstart : ∀ tx ∈ runTxs, tx.startTimestampMs < 2 ^ 64)
    (hend : ∀ tx ∈ runTxs, ∀ e ∈ tx.endTimestampMs, e < 2 ^ 64) :
    Accumulator.endOf (runBounds run runTxs).2 < WithBot.some (1000 * 2 ^ 64) := by
  rw [runBounds]
  split_ifs
  · exact endOf_runTimeBounds hrun hstart hend
  · exact endOf_runTimeBounds hrun (by simp) (by simp)

namespace CampaignTotals

variable {acc acc' : CampaignTotals} {run : SpamRun} {runTxs : List RunTx} {total : ℕ}

/-- What the loop keeps: every count has the same total. -/
structure Tallied (acc : CampaignTotals) (total : ℕ) : Prop where
  overall : acc.overallAcc.totalTx = total
  summaries : (acc.summaries.map CampaignRunSummary.txCount).sum = total
  totals : acc.totals.tally (AList.tally id) = total
  stages : acc.stageAcc.tally Accumulator.totalTx = total
  errors : acc.stageAcc.tally Accumulator.totalErrors = acc.overallAcc.totalErrors
  errors_le : acc.overallAcc.totalErrors ≤ total
  stage_errors_le : ∀ stage ∈ acc.stageAcc.values, stage.totalErrors ≤ stage.totalTx

/-- The other thing it keeps: each stage lies within the campaign. -/
structure Timed (acc : CampaignTotals) : Prop where
  within : ∀ stage ∈ acc.stageAcc.values, stage.Within acc.overallAcc
  endMs : Accumulator.endOf acc.overallAcc.endMs < WithBot.some (1000 * 2 ^ 64)

theorem tallied_empty : empty.Tallied 0 :=
  ⟨rfl, rfl, rfl, rfl, rfl, le_rfl, fun _ h => absurd h List.not_mem_nil⟩

theorem timed_empty : empty.Timed :=
  ⟨fun _ h => absurd h List.not_mem_nil, WithBot.bot_lt_coe _⟩

/-- What the body of the loop does to each accumulator. -/
theorem eq_of_addRun (h : acc.addRun run runTxs = .ok acc') :
    let key := (stageKey run, run.scenarioName)
    let byScenario := acc.totals.lookupD key.1 ∅
    acc'.summaries = acc.summaries ++
        [⟨run.id, run.scenarioName, run.stageName, runTxCount run runTxs, run.duration⟩] ∧
      acc'.totals = acc.totals.insert key.1
        (byScenario.insert key.2 (byScenario.lookupD key.2 0 + runTxCount run runTxs)) ∧
      acc'.overallAcc = acc.overallAcc.addRun (runTxCount run runTxs) (runErrorCount run runTxs)
        (runBounds run runTxs).1 (runBounds run runTxs).2 ∧
      acc'.stageAcc = acc.stageAcc.insert key
        ((acc.stageAcc.lookupD key .empty).addRun (runTxCount run runTxs)
          (runErrorCount run runTxs) (runBounds run runTxs).1 (runBounds run runTxs).2) := by
  unfold addRun at h
  dsimp only at h
  split at h
  · cases h
  · rename_i count hcount
    cases h
    rw [(addU64_eq_some.mp hcount).1]
    exact ⟨rfl, rfl, rfl, rfl⟩

theorem Timed.addRun (hacc : acc.Timed) (h : acc.addRun run runTxs = .ok acc')
    (hend : Accumulator.endOf (runBounds run runTxs).2 < WithBot.some (1000 * 2 ^ 64)) :
    acc'.Timed := by
  obtain ⟨-, -, hoverall, hstage⟩ := eq_of_addRun h
  refine ⟨fun stage hmem => ?_, ?_⟩
  · rw [hstage] at hmem
    rw [hoverall]
    obtain rfl | hmem := AList.mem_values_insert hmem
    -- the stage of the run, which may be new
    · refine Accumulator.Within.addRun ?_
      obtain hnew | hold := AList.lookupD_cases acc.stageAcc
        (stageKey run, run.scenarioName) Accumulator.empty
      · rw [hnew]
        exact Accumulator.empty_within _
      · exact hacc.within _ hold
    · exact (hacc.within stage hmem).addRun_right
  · rw [hoverall, Accumulator.endOf_addRun]
    exact max_lt hacc.endMs hend

theorem Tallied.addRun (hacc : acc.Tallied total) (h : acc.addRun run runTxs = .ok acc')
    (hfits : total + runTxCount run runTxs < 2 ^ 64) :
    acc'.Tallied (total + runTxCount run runTxs) := by
  obtain ⟨hsummaries, htotals, hoverall, hstage⟩ := eq_of_addRun h
  have hcounted : runErrorCount run runTxs ≤ runTxCount run runTxs := runErrorCount_le run runTxs
  have hsummarized : (acc'.summaries.map CampaignRunSummary.txCount).sum =
      total + runTxCount run runTxs := by
    rw [hsummaries, List.map_append, List.sum_append, hacc.summaries]
    rfl
  have htotaled : acc'.totals.tally (AList.tally id) = total + runTxCount run runTxs := by
    rw [htotals, ← hacc.totals]
    -- the map by scenario is the value under the stage
    refine AList.tally_insert_add _ _ _ (AList.tally_empty id) ?_
    exact AList.tally_insert_add id _ _ rfl rfl
  -- none of the saturating sums reaches the bound
  have hstageTx : (acc.stageAcc.lookupD (stageKey run, run.scenarioName) .empty).totalTx ≤ total :=
    (AList.lookupD_le_tally Accumulator.totalTx _ _ rfl).trans_eq hacc.stages
  have hstageErrors :
      (acc.stageAcc.lookupD (stageKey run, run.scenarioName) .empty).totalErrors ≤
        acc.overallAcc.totalErrors :=
    (AList.lookupD_le_tally Accumulator.totalErrors _ _ rfl).trans_eq hacc.errors
  have herrors := hacc.errors_le
  have hoverallTx : acc'.overallAcc.totalTx = total + runTxCount run runTxs := by
    rw [hoverall, Accumulator.totalTx_addRun (by rw [hacc.overall]; exact hfits), hacc.overall]
  have hoverallErrors : acc'.overallAcc.totalErrors =
      acc.overallAcc.totalErrors + runErrorCount run runTxs := by
    rw [hoverall, Accumulator.totalErrors_addRun (by omega)]
  refine ⟨hoverallTx, hsummarized, htotaled, ?_, ?_, ?_, fun stage hmem => ?_⟩
  · rw [hstage, ← hacc.stages]
    exact AList.tally_insert_add _ _ _ rfl (Accumulator.totalTx_addRun (by omega))
  · rw [hstage, hoverallErrors, ← hacc.errors]
    exact AList.tally_insert_add _ _ _ rfl (Accumulator.totalErrors_addRun (by omega))
  · omega
  · rw [hstage] at hmem
    obtain rfl | hmem := AList.mem_values_insert hmem
    · rw [Accumulator.totalTx_addRun (by omega), Accumulator.totalErrors_addRun (by omega)]
      have hold : (acc.stageAcc.lookupD (stageKey run, run.scenarioName) .empty).totalErrors ≤
          (acc.stageAcc.lookupD (stageKey run, run.scenarioName) .empty).totalTx := by
        obtain hnew | hstored := AList.lookupD_cases acc.stageAcc
          (stageKey run, run.scenarioName) Accumulator.empty
        · rw [hnew]
          exact le_rfl
        · exact hacc.stage_errors_le _ hstored
      omega
    · exact hacc.stage_errors_le stage hmem

end CampaignTotals

theorem sortedEntries_perm {κ ν : Type} (le : κ → κ → Bool) (m : AssocMap κ ν) :
    (sortedEntries le m).Perm (m.entries.map fun e => (e.1, e.2)) :=
  List.mergeSort_perm _ _

theorem sum_sortedEntries {κ ν : Type} (le : κ → κ → Bool) (m : AssocMap κ ν) (g : ν → ℕ) :
    ((sortedEntries le m).map fun e => g e.2).sum = m.tally g := by
  rw [((sortedEntries_perm le m).map _).sum_eq, AList.tally, AList.values, List.map_map,
    List.map_map]
  rfl

theorem mem_values_of_mem_sortedEntries {κ ν : Type} {le : κ → κ → Bool} {m : AssocMap κ ν}
    {e : κ × ν} (h : e ∈ sortedEntries le m) : e.2 ∈ m.values := by
  obtain ⟨entry, hentry, rfl⟩ := List.mem_map.mp ((sortedEntries_perm le m).mem_iff.mp h)
  exact List.mem_map_of_mem hentry

namespace DbOps

variable {F : Type} {db : DbOps} {arith : RateArithmetic F} {render : Report → Except Text Unit}

theorem storedTxs_eq {run : SpamRun} {runTxs : List RunTx}
    (h : dbAnswer (db.getRunTxs run.id) = .ok runTxs) : db.storedTxs run = runTxs := by
  rw [storedTxs]
  cases htxs : db.getRunTxs run.id with
  | error e =>
    rw [htxs] at h
    cases h
  | ok txs =>
    rw [htxs] at h
    cases h
    rfl

variable (db) in
/-- What the loop has counted after the runs `done`. -/
def Counted (done : List SpamRun) (acc : CampaignTotals) : Prop :=
  (∀ run ∈ done, db.Fits run) → (done.map db.runCount).sum < 2 ^ 64 →
    acc.Tallied (done.map db.runCount).sum ∧ acc.Timed

theorem counted_empty : db.Counted [] .empty :=
  fun _ _ => ⟨CampaignTotals.tallied_empty, CampaignTotals.timed_empty⟩

theorem Counted.campaignRun {done : List SpamRun} {run : SpamRun} {acc acc' : CampaignTotals}
    (hdone : db.Counted done acc) (h : db.campaignRun render acc run = .ok acc') :
    db.Counted (done ++ [run]) acc' := by
  intro hfits htotal
  obtain ⟨-, -, hrun⟩ := Except.bind_eq_ok_iff.mp h
  obtain ⟨runTxs, htxs, hrun⟩ := Except.bind_eq_ok_iff.mp hrun
  have hstored : runTxs = db.storedTxs run := (storedTxs_eq htxs).symm
  subst hstored
  have hsum : ((done ++ [run]).map db.runCount).sum =
      (done.map db.runCount).sum + runTxCount run (db.storedTxs run) := by
    rw [List.map_append, List.sum_append]
    rfl
  rw [hsum] at htotal ⊢
  obtain ⟨htallied, htimed⟩ := hdone (fun r hr => hfits r (List.mem_append_left _ hr)) (by omega)
  have hrunFits : db.Fits run := hfits run (by simp)
  exact ⟨htallied.addRun hrun htotal, htimed.addRun hrun
    (endOf_runBounds hrunFits.timestamp hrunFits.startMs hrunFits.endMs)⟩

theorem counted_of_foldlM {runs : List SpamRun} {acc : CampaignTotals}
    (h : runs.foldlM (db.campaignRun render) .empty = .ok acc) : db.Counted runs acc :=
  List.foldlM_ok_invariant (fun _ _ _ _ => Counted.campaignRun) counted_empty h

/-- The counts of every summary agree, whatever was stored, if their total fits its type. -/
theorem totalsAgree_of_campaignSummary {campaignId : Text} {runs : List SpamRun}
    {summary : CampaignReportSummary F} (hruns : db.getRunsByCampaign campaignId = .ok runs)
    (hfits : ∀ run ∈ runs, db.Fits run) (htotal : (runs.map db.runCount).sum < 2 ^ 64)
    (h : db.campaignSummary arith render campaignId = .ok summary) : summary.TotalsAgree := by
  rw [campaignSummary, hruns] at h
  obtain ⟨_, hread, h⟩ := Except.bind_eq_ok_iff.mp h
  obtain rfl : runs = _ := Except.ok.inj hread
  dsimp only at h
  split_ifs at h with hempty
  · cases h
  obtain ⟨acc, hloop, h⟩ := Except.bind_eq_ok_iff.mp h
  obtain rfl := Except.ok.inj h
  obtain ⟨htallied, htimed⟩ := counted_of_foldlM hloop hfits htotal
  exact {
    runs := htallied.summaries.trans htallied.overall.symm
    stageScenario := by
      rw [List.map_map]
      exact (sum_sortedEntries pairLe acc.stageAcc Accumulator.totalTx).trans
        (htallied.stages.trans htallied.overall.symm)
    totalsByStage := by
      rw [CampaignReportSummary.totalOfStages, List.map_map]
      have hinner : ((fun e : Text × List (Text × ℕ) => (e.2.map Prod.snd).sum) ∘
          fun e : Text × AssocMap Text ℕ => (e.1, sortedEntries textLe e.2)) =
            fun e => AList.tally id e.2 :=
        funext fun e => sum_sortedEntries textLe e.2 id
      rw [hinner, sum_sortedEntries textLe acc.totals (AList.tally id)]
      exact htallied.totals.trans htallied.overall.symm
    errors := by
      rw [List.map_map]
      exact (sum_sortedEntries pairLe acc.stageAcc Accumulator.totalErrors).trans htallied.errors
    errors_le_overall := htallied.errors_le.trans_eq htallied.overall.symm
    errors_le := by
      intro entry hentry
      obtain ⟨e, he, rfl⟩ := List.mem_map.mp hentry
      exact htallied.stage_errors_le _ (mem_values_of_mem_sortedEntries he)
    duration_le := by
      intro entry hentry
      obtain ⟨e, he, rfl⟩ := List.mem_map.mp hentry
      exact (htimed.within _ (mem_values_of_mem_sortedEntries he)).durationSecs_le htimed.endMs }

end DbOps

namespace TwoStages

/-- Rates in hundredths, rounded half up. -/
def hundredths : RateArithmetic ℕ := ⟨0, fun n d => (200 * n + d) / (2 * d)⟩

def run (id txCount : ℕ) (stageName : Option Text) : SpamRun :=
  ⟨id, 1000 * id, txCount, "uniV2".toList, some "c".toList, none, stageName, "http://node".toList,
    txCount, .seconds 1, 24⟩

def stored (txHash start stop : ℕ) (error : Option String) : RunTx :=
  ⟨txHash, start, some stop, some 7, some 21000, none, error, none, none⟩

/-- The first run is complete and one of its transactions failed. The logs of the second run miss
a transaction, and the third run has no logs. -/
def db : DbOps :=
  .ofTables [run 1 2 (some "warmup".toList), run 2 3 none, run 3 4 (some "warmup".toList)]
    [(1, stored 0x1 1000 2000 none), (1, stored 0x2 1500 3500 (some "execution reverted")),
      (2, stored 0x3 2000 9000 (some "execution reverted"))] []

theorem totalsAgree_twoStages :
    ∃ summary, db.campaignSummary hundredths (fun _ => .ok ()) "c".toList = .ok summary ∧
      summary.overall.totalTxCount = 9 ∧ summary.overall.totalErrorCount = 1 ∧
      summary.TotalsAgree := by
  have hsummary : db.campaignSummary hundredths (fun _ => .ok ()) "c".toList = .ok _ := rfl
  refine ⟨_, hsummary, rfl, rfl, DbOps.totalsAgree_of_campaignSummary rfl ?_ (by decide) hsummary⟩
  intro r hr
  have hruns : r = run 1 2 (some "warmup".toList) ∨ r = run 2 3 none ∨
      r = run 3 4 (some "warmup".toList) := by
    simpa only [List.mem_cons, List.not_mem_nil, or_false] using (List.mem_filter.mp hr).1
  rcases hruns with rfl | rfl | rfl <;> exact ⟨by decide, by decide, by decide⟩

end TwoStages

end Contender
