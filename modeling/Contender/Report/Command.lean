import Contender.Data.Traverse
import Contender.Report.Latency
import Contender.Spammer.TxActor

/-!
# The report of spam runs

`report` describes a run and some runs before it. It looks up the url that the last run was
sent to, and asks the node at this url for the blocks and traces. Runs against other urls may lie
in between. The metadata of the runs is filtered by the url; the transactions and the latency
buckets are read for every id of the range.

`DbOps` is what the report reads of a database: the answers to its queries. Each transaction and
each bucket is kept with the id of the run it was read for.

## Main results

* `Report.oneChain_iff` — all that a report is about belongs to runs of its chain exactly when
  the other runs of the range have stored nothing
-/

namespace Contender

inductive SpamDuration
  | seconds (value : ℕ)
  | blocks (value : ℕ)
  deriving DecidableEq, Repr

def SpamDuration.value : SpamDuration → ℕ
  | .seconds value => value
  | .blocks value => value

/-- A row of the `runs` table. -/
structure SpamRun where
  id : ℕ
  timestamp : ℕ
  txCount : ℕ
  scenarioName : Text
  campaignId : Option Text
  campaignName : Option Text
  stageName : Option Text
  rpcUrl : Text
  txsPerDuration : ℕ
  duration : SpamDuration
  timeout : ℕ
  deriving DecidableEq, Repr

/-- The queries of the report, by their answers. -/
structure DbOps where
  numRuns : Except Text ℕ
  getRun : ℕ → Except Text (Option SpamRun)
  getRunTxs : ℕ → Except Text (List RunTx)
  getLatencyMetrics : ℕ → Text → Except Text (List (Histogram.Bucket ℕ))
  getRunsByCampaign : Text → Except Text (List SpamRun)

/-- The queries over the tables of a database. -/
def DbOps.ofTables (runs : List SpamRun) (runTxs : List RunRow) (latency : List LatencyRow) :
    DbOps where
  numRuns := .ok runs.length
  getRun id := .ok (runs.filter fun run => run.id = id).getLast?
  getRunTxs id := .ok ((runTxs.filter fun row => row.1 = id).map Prod.snd)
  getLatencyMetrics id method := .ok (Contender.getLatencyMetrics latency id method)
  getRunsByCampaign campaignId := .ok (runs.filter fun run => run.campaignId = some campaignId)

inductive ReportError
  | db (message : Text)
  | invalidRunId (id : ℕ)
  | runDoesNotExist (id : ℕ)
  | campaignNotFound (id : Text)
  | render (message : Text)
  | panic
  deriving DecidableEq, Repr

structure ReportParams where
  lastRunId : Option ℕ
  precedingRuns : ℕ
  deriving DecidableEq, Repr

/-- `latency_methods`. -/
def latencyMethods : List Text :=
  ["eth_sendRawTransaction".toList, "eth_sendRawTransactionSync".toList,
    "eth_blockNumber".toList, "eth_chainId".toList, "eth_estimateGas".toList,
    "eth_gasPrice".toList, "eth_getBlockByNumber".toList, "eth_getBlockReceipts".toList,
    "eth_getTransactionCount".toList, "eth_sendBundle".toList]

/-- A latency bucket with its method and the id of the run it was stored for. -/
structure RunBucket where
  method : Text
  runId : ℕ
  bucket : Histogram.Bucket ℕ
  deriving DecidableEq, Repr

/-- What the report has collected before it asks the node. -/
structure Report where
  startRunId : ℕ
  endRunId : ℕ
  rpcUrl : Text
  allTxs : List RunRow
  runData : List SpamRun
  buckets : List RunBucket

/-- `map_err(|e| e.into())`. -/
def dbAnswer {α : Type} (answer : Except Text α) : Except ReportError α :=
  answer.mapError .db

/-- The last run: the one that is asked for, or the latest one. -/
def ReportParams.endRunId (params : ReportParams) (numRuns : ℕ) : Except ReportError ℕ :=
  match params.lastRunId with
  -- the ids of the runs start at 1
  | some id => if id = 0 ∨ id > numRuns then .error (.invalidRunId id) else .ok id
  | none => .ok numRuns

namespace DbOps

variable (db : DbOps)

/-- The transactions of one run. -/
def rowsOf (id : ℕ) : Except ReportError (List RunRow) :=
  (dbAnswer (db.getRunTxs id)).map fun txs => txs.map fun tx => (id, tx)

/-- `all_txs`: the transactions of every run of the range. -/
def collectTxs (startRunId endRunId : ℕ) : Except ReportError (List RunRow) :=
  ((runIds startRunId endRunId).mapM db.rowsOf).map List.flatten

/-- `run_data`: the runs of the range against the url. -/
def collectRuns (rpcUrl : Text) (startRunId endRunId : ℕ) : Except ReportError (List SpamRun) :=
  ((runIds startRunId endRunId).mapM fun id => dbAnswer (db.getRun id)).map fun runs =>
    -- ids without a row are dropped
    (runs.filterMap id).filter fun run => run.rpcUrl = rpcUrl

/-- The buckets of one run for one method. -/
def bucketsOf (method : Text) (id : ℕ) : Except ReportError (List RunBucket) :=
  (dbAnswer (db.getLatencyMetrics id method)).map fun bs => bs.map fun b => ⟨method, id, b⟩

/-- The buckets of every method for every run of the range. -/
def collectBuckets (startRunId endRunId : ℕ) : Except ReportError (List RunBucket) :=
  (latencyMethods.mapM fun method =>
    ((runIds startRunId endRunId).mapM (db.bucketsOf method)).map List.flatten).map List.flatten

/-- What `report` reads from the database. There is nothing to report without runs. -/
def collectReport (params : ReportParams) : Except ReportError (Option Report) := do
  let numRuns ← dbAnswer db.numRuns
  if numRuns = 0 then return none
  let endRunId ← params.endRunId numRuns
  let lastRun ← dbAnswer (db.getRun endRunId)
  match lastRun, subU64 endRunId params.precedingRuns with
  | none, _ => throw (.runDoesNotExist endRunId)
  -- there are fewer runs than the preceding ones that are asked for
  | some _, none => throw .panic
  | some run, some startRunId =>
    -- only the rows of the runs are filtered by the url
    let allTxs ← db.collectTxs startRunId endRunId
    let runData ← db.collectRuns run.rpcUrl startRunId endRunId
    let buckets ← db.collectBuckets startRunId endRunId
    return some ⟨startRunId, endRunId, run.rpcUrl, allTxs, runData, buckets⟩

/-- `report`: `render` fetches the blocks from the node and writes the files. -/
def report (render : Report → Except Text Unit) (params : ReportParams) :
    Except ReportError Unit := do
  match ← db.collectReport params with
  | none => return ()
  | some r => (render r).mapError .render

end DbOps

namespace Report

variable (r : Report)

/-! ### What the report shows -/

def totalTxs : ℕ := r.allTxs.length

def failedTxs : ℕ := r.allTxs.countP fun row => row.2.error.isSome

/-- The transactions with a block number. -/
def landedTxs : List RunRow := r.allTxs.filter fun row => row.2.blockNumber.isSome

/-- `get_block_data`: the blocks that the node is asked for, three more on each side. -/
def blockRange : Option (ℕ × ℕ) :=
  let blocks := r.landedTxs.filterMap fun row => row.2.blockNumber
  if blocks = [] then none
  -- the lower bound stops at block 0
  else some (blocks.foldl min (2 ^ 64 - 1) - 3, satAddU64 (blocks.foldl max 0) 3)

/-- The transactions with an end timestamp. -/
def includedTxs : List RunRow := r.allTxs.filter fun row => row.2.endTimestampMs.isSome

/-! ### One chain -/

end Report

namespace DbOps

variable (db : DbOps)

/-- The id is that of a run against the url. -/
def RunsAgainst (rpcUrl : Text) (id : ℕ) : Prop :=
  ∃ run, db.getRun id = .ok (some run) ∧ run.rpcUrl = rpcUrl

/-- In the range of runs that the parameters select, the runs that are not against the url of
the last one have stored no transactions and no latencies. -/
def OthersEmpty (params : ReportParams) : Prop :=
  ∀ numRuns last, db.numRuns = .ok numRuns →
    db.getRun (params.lastRunId.getD numRuns) = .ok (some last) →
    ∀ id, params.lastRunId.getD numRuns - params.precedingRuns ≤ id →
      id ≤ params.lastRunId.getD numRuns → ¬ db.RunsAgainst last.rpcUrl id →
        db.getRunTxs id = .ok [] ∧
          ∀ method ∈ latencyMethods, db.getLatencyMetrics id method = .ok []

end DbOps

namespace Report

variable {db : DbOps} {params : ReportParams} {r : Report}

/-- Everything the report is about belongs to runs against the url of the last run: what is
counted, what the range of blocks and the charts are made of, and the buckets that are merged. -/
structure OneChain (db : DbOps) (r : Report) : Prop where
  counted : ∀ row ∈ r.allTxs, db.RunsAgainst r.rpcUrl row.1
  landed : ∀ row ∈ r.landedTxs, db.RunsAgainst r.rpcUrl row.1
  included : ∀ row ∈ r.includedTxs, db.RunsAgainst r.rpcUrl row.1
  merged : ∀ b ∈ r.buckets, db.RunsAgainst r.rpcUrl b.runId

theorem dbAnswer_eq_ok {α : Type} {answer : Except Text α} {a : α} :
    dbAnswer answer = .ok a ↔ answer = .ok a := by
  cases answer <;> simp [dbAnswer, Except.mapError]

theorem endRunId_eq_ok {numRuns id : ℕ} (h : params.endRunId numRuns = .ok id) :
    id = params.lastRunId.getD numRuns := by
  unfold ReportParams.endRunId at h
  cases hlast : params.lastRunId with
  | none =>
    rw [hlast] at h
    exact (Except.ok.inj h).symm
  | some last =>
    simp only [hlast] at h
    split_ifs at h
    exact (Except.ok.inj h).symm

/-- How a report is collected. -/
theorem collectReport_eq_ok (h : db.collectReport params = .ok (some r)) :
    ∃ numRuns last, db.numRuns = .ok numRuns ∧ r.endRunId = params.lastRunId.getD numRuns ∧
      db.getRun r.endRunId = .ok (some last) ∧ r.rpcUrl = last.rpcUrl ∧
      r.startRunId = r.endRunId - params.precedingRuns ∧
      db.collectTxs r.startRunId r.endRunId = .ok r.allTxs ∧
      db.collectBuckets r.startRunId r.endRunId = .ok r.buckets := by
  unfold DbOps.collectReport at h
  obtain ⟨numRuns, hnum, h⟩ := Except.bind_eq_ok_iff.mp h
  split_ifs at h with hzero
  · cases Except.ok.inj h
  obtain ⟨endRunId, hend, h⟩ := Except.bind_eq_ok_iff.mp h
  obtain ⟨lastRun, hlast, h⟩ := Except.bind_eq_ok_iff.mp h
  rw [dbAnswer_eq_ok] at hnum hlast
  cases lastRun with
  | none => cases h
  | some last =>
    cases hstart : subU64 endRunId params.precedingRuns with
    | none =>
      rw [hstart] at h
      cases h
    | some startRunId =>
      rw [hstart] at h
      obtain ⟨allTxs, htxs, h⟩ := Except.bind_eq_ok_iff.mp h
      obtain ⟨runData, -, h⟩ := Except.bind_eq_ok_iff.mp h
      obtain ⟨buckets, hbuckets, h⟩ := Except.bind_eq_ok_iff.mp h
      obtain rfl := Option.some.inj (Except.ok.inj h)
      have hsub : startRunId = endRunId - params.precedingRuns := by
        unfold subU64 at hstart
        split_ifs at hstart
        exact (Option.some.inj hstart).symm
      exact ⟨numRuns, last, hnum, endRunId_eq_ok hend, hlast, rfl, hsub, htxs, hbuckets⟩

/-- The transactions are those stored for the runs of the range. -/
theorem mem_collectTxs {startRunId endRunId : ℕ} {txs : List RunRow}
    (h : db.collectTxs startRunId endRunId = .ok txs) :
    (∀ id ∈ runIds startRunId endRunId, ∃ stored, db.getRunTxs id = .ok stored ∧
      ∀ tx ∈ stored, (id, tx) ∈ txs) ∧
    ∀ row ∈ txs, row.1 ∈ runIds startRunId endRunId ∧
      ∃ stored, db.getRunTxs row.1 = .ok stored ∧ row.2 ∈ stored := by
  obtain ⟨hall, honly⟩ := List.flatten_mapM_eq_ok h
  refine ⟨fun id hid => ?_, fun row hrow => ?_⟩
  · obtain ⟨rows, hrows, hsubset⟩ := hall id hid
    obtain ⟨stored, hstored, rfl⟩ := Except.map_eq_ok_iff.mp hrows
    exact ⟨stored, dbAnswer_eq_ok.mp hstored, fun tx htx => hsubset (List.mem_map_of_mem htx)⟩
  · obtain ⟨id, hid, rows, hrows, hmem⟩ := honly row hrow
    obtain ⟨stored, hstored, rfl⟩ := Except.map_eq_ok_iff.mp hrows
    obtain ⟨tx, htx, rfl⟩ := List.mem_map.mp hmem
    exact ⟨hid, stored, dbAnswer_eq_ok.mp hstored, htx⟩

/-- The buckets are those stored for the runs of the range. -/
theorem mem_collectBuckets {startRunId endRunId : ℕ} {buckets : List RunBucket}
    (h : db.collectBuckets startRunId endRunId = .ok buckets) :
    (∀ method ∈ latencyMethods, ∀ id ∈ runIds startRunId endRunId,
      ∃ stored, db.getLatencyMetrics id method = .ok stored ∧
        ∀ b ∈ stored, ⟨method, id, b⟩ ∈ buckets) ∧
    ∀ b ∈ buckets, b.method ∈ latencyMethods ∧ b.runId ∈ runIds startRunId endRunId ∧
      ∃ stored, db.getLatencyMetrics b.runId b.method = .ok stored ∧ b.bucket ∈ stored := by
  obtain ⟨hall, honly⟩ := List.flatten_mapM_eq_ok h
  refine ⟨fun method hmethod id hid => ?_, fun b hb => ?_⟩
  · obtain ⟨ofMethod, hofMethod, hsubset⟩ := hall method hmethod
    obtain ⟨rows, hrows, hrest⟩ := (List.flatten_mapM_eq_ok hofMethod).1 id hid
    obtain ⟨stored, hstored, rfl⟩ := Except.map_eq_ok_iff.mp hrows
    exact ⟨stored, dbAnswer_eq_ok.mp hstored,
      fun b hb => hsubset (hrest (List.mem_map_of_mem hb))⟩
  · obtain ⟨method, hmethod, ofMethod, hofMethod, hmem⟩ := honly b hb
    obtain ⟨id, hid, rows, hrows, hmem⟩ := (List.flatten_mapM_eq_ok hofMethod).2 b hmem
    obtain ⟨stored, hstored, rfl⟩ := Except.map_eq_ok_iff.mp hrows
    obtain ⟨bucket, hbucket, rfl⟩ := List.mem_map.mp hmem
    exact ⟨hmethod, hid, stored, dbAnswer_eq_ok.mp hstored, hbucket⟩

/-- **A report is about one chain**, exactly when the runs of its range that are against other
urls have stored nothing. -/
theorem oneChain_iff (h : db.collectReport params = .ok (some r)) :
    r.OneChain db ↔ db.OthersEmpty params := by
  obtain ⟨numRuns, last, hnum, hend, hlast, hurl, hstart, htxs, hbuckets⟩ := collectReport_eq_ok h
  obtain ⟨hstored, hread⟩ := mem_collectTxs htxs
  obtain ⟨hstored', hread'⟩ := mem_collectBuckets hbuckets
  constructor
  -- what a run of another chain has stored would be in the report
  · intro hchain numRuns' last' hnum' hlast' id hle hle' hother
    obtain rfl := Except.ok.inj (hnum.symm.trans hnum')
    rw [← hend] at hlast' hle hle'
    obtain rfl := Option.some.inj (Except.ok.inj (hlast.symm.trans hlast'))
    have hid : id ∈ runIds r.startRunId r.endRunId := mem_runIds.mpr ⟨hstart ▸ hle, hle'⟩
    rw [← hurl] at hother
    refine ⟨?_, fun method hmethod => ?_⟩
    · obtain ⟨txs, hgot, hall⟩ := hstored id hid
      have hnone : txs = [] := List.eq_nil_iff_forall_not_mem.mpr fun tx htx =>
        hother (hchain.counted _ (hall tx htx))
      rw [hgot, hnone]
    · obtain ⟨bs, hgot, hall⟩ := hstored' method hmethod id hid
      have hnone : bs = [] := List.eq_nil_iff_forall_not_mem.mpr fun b hb =>
        hother (hchain.merged _ (hall b hb))
      rw [hgot, hnone]
  -- what is in the report was stored for a run of the range, so for one of this chain
  · intro hempty
    have hothers : ∀ id ∈ runIds r.startRunId r.endRunId, ¬ db.RunsAgainst r.rpcUrl id →
        db.getRunTxs id = .ok [] ∧
          ∀ method ∈ latencyMethods, db.getLatencyMetrics id method = .ok [] := by
      intro id hid hother
      obtain ⟨hle, hle'⟩ := mem_runIds.mp hid
      rw [hstart, hend] at hle
      rw [hend] at hle' hlast
      exact hempty numRuns last hnum hlast id hle hle' (hurl ▸ hother)
    have hcounted : ∀ row ∈ r.allTxs, db.RunsAgainst r.rpcUrl row.1 := by
      intro row hrow
      obtain ⟨hid, stored, hgot, hmem⟩ := hread row hrow
      by_contra hother
      obtain rfl := Except.ok.inj (hgot.symm.trans (hothers row.1 hid hother).1)
      exact List.not_mem_nil hmem
    refine ⟨hcounted, fun row hrow => hcounted row (List.mem_of_mem_filter hrow),
      fun row hrow => hcounted row (List.mem_of_mem_filter hrow), fun b hb => ?_⟩
    obtain ⟨hmethod, hid, stored, hgot, hmem⟩ := hread' b hb
    by_contra hother
    obtain rfl := Except.ok.inj (hgot.symm.trans ((hothers b.runId hid hother).2 _ hmethod))
    exact List.not_mem_nil hmem

end Report

/-! ### Two chains -/

namespace TwoChains

def run (id : ℕ) (rpcUrl : Text) : SpamRun where
  id := id
  timestamp := 0
  txCount := 1
  scenarioName := "transfers".toList
  campaignId := none
  campaignName := none
  stageName := none
  rpcUrl := rpcUrl
  txsPerDuration := 1
  duration := .seconds 1
  timeout := 12

def landed (txHash : TxHash) (blockNumber : ℕ) : RunTx where
  txHash := txHash
  startTimestampMs := 1000
  endTimestampMs := some 3000
  blockNumber := some blockNumber
  gasUsed := some 21000
  kind := none
  error := none
  flashblockLatencyMs := none
  flashblockIndex := none

def devnet : Text := "http://localhost:8545".toList

def testnet : Text := "http://localhost:9545".toList

/-- A run on the testnet, at block 5000, and then one on the devnet, at block 7. -/
def mixed : DbOps :=
  .ofTables [run 1 testnet, run 2 devnet] [(1, landed 0x1 5000), (2, landed 0x2 7)] []

/-- Both runs on the devnet. -/
def same : DbOps :=
  .ofTables [run 1 devnet, run 2 devnet] [(1, landed 0x1 5), (2, landed 0x2 7)] []

/-- The devnet is asked for the blocks from 4 to 5003. -/
theorem not_oneChain_mixed :
    ∃ r, mixed.collectReport ⟨some 2, 1⟩ = .ok (some r) ∧ r.rpcUrl = devnet ∧ r.totalTxs = 2 ∧
      r.blockRange = some (4, 5003) ∧ ¬ r.OneChain mixed := by
  refine ⟨_, rfl, rfl, rfl, by decide +kernel, fun hchain => ?_⟩
  obtain ⟨run, hrun, hurl⟩ := hchain.counted (1, landed 0x1 5000) (by simp)
  obtain rfl := Option.some.inj (Except.ok.inj hrun)
  exact absurd hurl (by decide)

theorem oneChain_same :
    ∃ r, same.collectReport ⟨some 2, 1⟩ = .ok (some r) ∧ r.totalTxs = 2 ∧ r.OneChain same := by
  have hcollect : same.collectReport ⟨some 2, 1⟩ = .ok (some _) := rfl
  refine ⟨_, hcollect, rfl, (Report.oneChain_iff hcollect).mpr ?_⟩
  intro numRuns last hnum hlast id hle hle' hother
  obtain rfl := Except.ok.inj hnum
  obtain rfl := Option.some.inj (Except.ok.inj hlast)
  -- both ids of the range belong to runs on the devnet
  have hid : id = 1 ∨ id = 2 := by
    change 1 ≤ id at hle
    change id ≤ 2 at hle'
    omega
  rcases hid with rfl | rfl <;> exact absurd ⟨_, rfl, rfl⟩ hother

end TwoChains

end Contender
