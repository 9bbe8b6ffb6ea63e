import Mathlib.Algebra.BigOperators.Group.List.Basic
import Contender.Data.AssocMap
import Contender.Data.Histogram
import Contender.Primitives

/-!
# Request latencies

The provider counts every answered request in a histogram of its method. The histograms
belong to the process: they are never cleared. At the end of sending, `spam_rpc` reads them
off and stores the reading under the id of its run; the report adds up the readings of the
runs it is about.

A reading therefore has the requests of earlier runs in it as well, and none that are slower
than the last bound or come after it was taken.

## Main results

* `countsPerRun_iff` — the report has the number of requests of its runs exactly when the
  requests its readings carry over are as many as the ones they miss
-/

namespace Contender

/-- A request the provider got an answer to: its method, and how many nanoseconds it took. -/
structure RpcRequest where
  method : Text
  latency : ℕ
  deriving DecidableEq, Repr

/-- The bounds of the buckets, 0.1 ms to 0.5 s, in nanoseconds. -/
def latencyBounds : List ℕ :=
  [100_000, 1_000_000, 10_000_000, 50_000_000, 100_000_000, 250_000_000, 500_000_000]

/-- The histograms of the process, by the label `rpc_method`. -/
abbrev Registry := AssocMap Text (List ℕ)

/-- A request is counted under its method, whose histogram is made when it is first needed. -/
def Registry.observe (registry : Registry) (request : RpcRequest) : Registry :=
  let counts := (registry.lookup request.method).getD (List.replicate latencyBounds.length 0)
  registry.insert request.method (Histogram.observe latencyBounds counts request.latency)

/-- The methods with their buckets. The order of the methods is of no account to what is read
back. -/
def collectLatencyFromRegistry (registry : Registry) : List (Text × List (Histogram.Bucket ℕ)) :=
  registry.entries.map fun entry => (entry.1, Histogram.buckets latencyBounds entry.2)

/-- A row of the `latency` table. -/
structure LatencyRow where
  runId : ℕ
  upperBound : ℕ
  count : ℕ
  method : Text
  deriving DecidableEq, Repr

def bucketRow (runId : ℕ) (method : Text) (bucket : Histogram.Bucket ℕ) : LatencyRow :=
  ⟨runId, bucket.upperBound, bucket.cumulativeCount, method⟩

def insertLatencyMetrics (rows : List LatencyRow) (runId : ℕ)
    (latencyMetrics : List (Text × List (Histogram.Bucket ℕ))) : List LatencyRow :=
  rows ++ latencyMetrics.flatMap fun metric => metric.2.map (bucketRow runId metric.1)

def getLatencyMetrics (rows : List LatencyRow) (runId : ℕ) (method : Text) :
    List (Histogram.Bucket ℕ) :=
  (rows.filter fun row => row.runId = runId ∧ row.method = method).map fun row =>
    ⟨row.upperBound, row.count⟩

/-- `start_run_id..=end_run_id`. -/
def runIds (startRunId endRunId : ℕ) : List ℕ := List.range' startRunId (endRunId + 1 - startRunId)

/-- The buckets of a method that the report adds up over its runs. -/
def canonicalLatency (rows : List LatencyRow) (startRunId endRunId : ℕ) (method : Text) :
    List (Histogram.Bucket ℕ) :=
  (runIds startRunId endRunId).foldl (fun canonical runId =>
    Histogram.merge canonical (getLatencyMetrics rows runId method)) []

/-- The last cumulative count of the report. -/
def reportedCount (rows : List LatencyRow) (startRunId endRunId : ℕ) (method : Text) : ℕ :=
  Histogram.total (canonicalLatency rows startRunId endRunId method)

/-! ## Sequences of runs -/

/-- A call of `spam_rpc`: the id of its run, the requests since the previous call that belong
to no run, those of its run up to where it stores the latencies and after that, and whether it
gets there. -/
structure SpamCall where
  runId : ℕ
  before : List RpcRequest
  during : List RpcRequest
  stores : Bool
  after : List RpcRequest
  deriving DecidableEq, Repr

/-- The registry of the process and the table of the database. -/
structure LatencyState where
  registry : Registry
  rows : List LatencyRow

namespace LatencyState

/-- Nothing has been counted or stored. -/
def initial : LatencyState := ⟨∅, []⟩

def observe (s : LatencyState) (requests : List RpcRequest) : LatencyState :=
  { s with registry := requests.foldl Registry.observe s.registry }

/-- `collect_latency_metrics`, and `insert_latency_metrics` under the id of the run. -/
def store (s : LatencyState) (runId : ℕ) : LatencyState :=
  { s with rows := insertLatencyMetrics s.rows runId (collectLatencyFromRegistry s.registry) }

def spamRpc (s : LatencyState) (call : SpamCall) : LatencyState :=
  let s := (s.observe call.before).observe call.during
  let s := if call.stores then s.store call.runId else s
  s.observe call.after

def run (s : LatencyState) (calls : List SpamCall) : LatencyState := calls.foldl spamRpc s

end LatencyState

/-- The requests of a method. -/
def requestsOf (method : Text) (requests : List RpcRequest) : ℕ :=
  requests.countP fun r => r.method = method

/-- The requests of a method that are under some bound. -/
def countedOf (method : Text) (requests : List RpcRequest) : ℕ :=
  requests.countP fun r => r.method = method ∧ r.latency ≤ 500_000_000

/-- The requests of a method that are over every bound. -/
def slowOf (method : Text) (requests : List RpcRequest) : ℕ :=
  requests.countP fun r => r.method = method ∧ 500_000_000 < r.latency

/-- The report is about the run of the call. -/
def SpamCall.Reported (startRunId endRunId : ℕ) (call : SpamCall) : Prop :=
  startRunId ≤ call.runId ∧ call.runId ≤ endRunId

instance (startRunId endRunId : ℕ) (call : SpamCall) :
    Decidable (call.Reported startRunId endRunId) :=
  inferInstanceAs (Decidable (_ ∧ _))

/-- The requests of the reported runs. -/
def requestsDuring (startRunId endRunId : ℕ) (method : Text) (calls : List SpamCall) : ℕ :=
  (calls.map fun call =>
    if call.Reported startRunId endRunId then requestsOf method (call.during ++ call.after)
    else 0).sum

/-- The counted requests from before the reported runs that their readings have in them, once
for each reading, where `seen` are the requests of the process so far. -/
def carriedOver (startRunId endRunId : ℕ) (method : Text) : List RpcRequest → List SpamCall → ℕ
  | _, [] => 0
  | seen, call :: calls =>
    (if call.Reported startRunId endRunId ∧ call.stores then
      countedOf method (seen ++ call.before) else 0) +
      carriedOver startRunId endRunId method
        (seen ++ call.before ++ call.during ++ call.after) calls

/-- The requests of the reported runs that are in no reading of their call: those over every
bound, those after the reading, and all requests of a call without one. -/
def missed (startRunId endRunId : ℕ) (method : Text) (calls : List SpamCall) : ℕ :=
  (calls.map fun call =>
    if call.Reported startRunId endRunId then
      (if call.stores then slowOf method call.during else requestsOf method call.during) +
        requestsOf method call.after
    else 0).sum

/-- The report has the number of requests of its runs. -/
def CountsPerRun (calls : List SpamCall) (startRunId endRunId : ℕ) (method : Text) : Prop :=
  reportedCount (LatencyState.initial.run calls).rows startRunId endRunId method =
    requestsDuring startRunId endRunId method calls

/-! ### The registry counts what it has seen -/

theorem countedOf_append (method : Text) (xs ys : List RpcRequest) :
    countedOf method (xs ++ ys) = countedOf method xs + countedOf method ys :=
  List.countP_append ..

theorem requestsOf_append (method : Text) (xs ys : List RpcRequest) :
    requestsOf method (xs ++ ys) = requestsOf method xs + requestsOf method ys :=
  List.countP_append ..

/-- A request is under some bound or over every one. -/
theorem requestsOf_eq (method : Text) (requests : List RpcRequest) :
    requestsOf method requests = countedOf method requests + slowOf method requests := by
  unfold requestsOf countedOf slowOf
  induction requests with
  | nil => rfl
  | cons r requests ih =>
    simp only [List.countP_cons, ih, decide_eq_true_eq]
    by_cases hmethod : r.method = method
    · by_cases hle : r.latency ≤ 500_000_000
      · simp [hmethod, hle, Nat.not_lt.mpr hle]
        omega
      · simp [hmethod, hle, Nat.not_le.mp hle]
        omega
    · simp [hmethod]

/-- The counts of a method, zero before its first request. -/
def Registry.counts (registry : Registry) (method : Text) : List ℕ :=
  (registry.lookup method).getD (List.replicate latencyBounds.length 0)

/-- Every histogram has its buckets, and the requests seen so far in them. -/
structure Registry.Counts (registry : Registry) (seen : List RpcRequest) : Prop where
  length : ∀ method, (registry.counts method).length = latencyBounds.length
  sum : ∀ method, (registry.counts method).sum = countedOf method seen

theorem Registry.Counts.empty : Registry.Counts ∅ [] where
  length method := by simp [counts]
  sum method := by simp [counts, countedOf]

theorem exists_latencyBound {latency : ℕ} :
    (∃ bound ∈ latencyBounds, latency ≤ bound) ↔ latency ≤ 500_000_000 := by
  constructor
  · rintro ⟨bound, hbound, hle⟩
    have hlast : ∀ bound ∈ latencyBounds, bound ≤ 500_000_000 := by decide
    exact hle.trans (hlast bound hbound)
  · intro hle
    exact ⟨500_000_000, by decide, hle⟩

theorem Registry.Counts.observe {registry : Registry} {seen : List RpcRequest}
    (h : registry.Counts seen) (request : RpcRequest) :
    (registry.observe request).Counts (seen ++ [request]) := by
  have hcounts : ∀ method, (registry.observe request).counts method =
      if method = request.method then
        Histogram.observe latencyBounds (registry.counts method) request.latency
      else registry.counts method := by
    intro method
    by_cases hmethod : method = request.method
    · subst hmethod
      simp [Registry.observe, counts]
    · simp [Registry.observe, counts, hmethod]
  constructor
  · intro method
    rw [hcounts]
    split_ifs
    · rw [Histogram.length_observe, h.length]
    · exact h.length method
  · intro method
    rw [hcounts, countedOf_append]
    by_cases hmethod : method = request.method
    · subst hmethod
      rw [if_pos rfl, Histogram.sum_observe (h.length _), h.sum]
      simp [countedOf, exists_latencyBound]
    · rw [if_neg hmethod, h.sum]
      simp [countedOf, Ne.symm hmethod]

theorem Registry.Counts.observeAll {registry : Registry} {seen : List RpcRequest}
    (h : registry.Counts seen) (requests : List RpcRequest) :
    (requests.foldl Registry.observe registry).Counts (seen ++ requests) := by
  induction requests generalizing registry seen with
  | nil => simpa using h
  | cons r requests ih => simpa using ih (h.observe r)

/-! ### The rows are whole readings -/

/-- The rows of a method are readings of its histogram, each under the id of a run. -/
structure Whole (rows : List LatencyRow) (method : Text) (readings : List (ℕ × List ℕ)) :
    Prop where
  length : ∀ reading ∈ readings, reading.2.length = latencyBounds.length
  rows : rows.filter (fun row => row.method = method) = readings.flatMap fun reading =>
    (Histogram.buckets latencyBounds reading.2).map (bucketRow reading.1 method)

/-- A stored reading has a part for every method that was requested so far. -/
theorem Whole.store {s : LatencyState} {seen : List RpcRequest} (hcounts : s.registry.Counts seen)
    {method : Text} {readings : List (ℕ × List ℕ)} (h : Whole s.rows method readings)
    (runId : ℕ) :
    ∃ more, Whole (s.store runId).rows method (readings ++ more) ∧
      (∀ reading ∈ more, reading.1 = runId) ∧
      (more.map fun reading => reading.2.sum).sum = countedOf method seen := by
  have hrows : (s.store runId).rows.filter (fun row => row.method = method) =
      s.rows.filter (fun row => row.method = method) ++
        (s.registry.lookup method).elim [] fun counts =>
          (Histogram.buckets latencyBounds counts).map (bucketRow runId method) := by
    rw [LatencyState.store, insertLatencyMetrics, collectLatencyFromRegistry, List.filter_append,
      List.flatMap_map]
    congr 1
    refine AList.filter_flatMap_entries
      (f := fun method counts => (Histogram.buckets latencyBounds counts).map
        (bucketRow runId method)) LatencyRow.method ?_ s.registry method
    intro k counts row hrow
    obtain ⟨bucket, -, rfl⟩ := List.mem_map.mp hrow
    rfl
  have hlength := hcounts.length method
  have hsum := hcounts.sum method
  cases hlookup : s.registry.lookup method with
  | none =>
    refine ⟨[], ⟨?_, ?_⟩, by simp, ?_⟩
    · simpa using h.length
    · rw [hrows, hlookup, h.rows]
      simp
    · rw [← hsum]
      simp [Registry.counts, hlookup]
  | some counts =>
    rw [Registry.counts, hlookup, Option.getD_some] at hlength hsum
    refine ⟨[(runId, counts)], ⟨?_, ?_⟩, by simp, by simpa using hsum⟩
    · intro reading hreading
      rcases List.mem_append.mp hreading with hold | hnew
      · exact h.length reading hold
      · rw [List.mem_singleton.mp hnew]
        exact hlength
    · rw [hrows, hlookup, h.rows]
      simp

/-- The readings of a run are read back. -/
theorem Whole.getLatencyMetrics {rows : List LatencyRow} {method : Text}
    {readings : List (ℕ × List ℕ)} (h : Whole rows method readings) (runId : ℕ) :
    Contender.getLatencyMetrics rows runId method =
      ((readings.filter fun reading => reading.1 = runId).map Prod.snd).flatMap
        (Histogram.buckets latencyBounds) := by
  have hfilter : rows.filter (fun row => row.runId = runId ∧ row.method = method) =
      (rows.filter fun row => row.method = method).filter fun row => row.runId = runId := by
    rw [List.filter_filter]
    simp
  rw [Contender.getLatencyMetrics, hfilter, h.rows]
  generalize readings = readings
  induction readings with
  | nil => rfl
  | cons reading readings ih =>
    rw [List.flatMap_cons, List.filter_append, List.map_append, ih, List.filter_map]
    by_cases hid : reading.1 = runId
    · rw [List.filter_cons_of_pos (by simpa using hid)]
      simp [Function.comp_def, bucketRow, hid]
    · rw [List.filter_cons_of_neg (by simpa using hid)]
      simp [Function.comp_def, bucketRow, hid]

theorem sum_map_indicator {ids : List ℕ} (hnodup : ids.Nodup) (id n : ℕ) :
    (ids.map fun i => if id = i then n else 0).sum = if id ∈ ids then n else 0 := by
  induction ids with
  | nil => rfl
  | cons i ids ih =>
    obtain ⟨hi, hnodup⟩ := List.nodup_cons.mp hnodup
    rw [List.map_cons, List.sum_cons, ih hnodup]
    by_cases hid : id = i
    · subst hid
      simp [hi]
    · simp [hid]

/-- Adding up by run id what each run has is adding up what is under one of the ids. -/
theorem sum_map_filter {ids : List ℕ} (hnodup : ids.Nodup) (readings : List (ℕ × List ℕ)) :
    (ids.map fun id => ((readings.filter fun r => r.1 = id).map fun r => r.2.sum).sum).sum =
      (readings.map fun r => if r.1 ∈ ids then r.2.sum else 0).sum := by
  induction readings with
  | nil => simp
  | cons reading readings ih =>
    have hfilter : ∀ id, (((reading :: readings).filter fun r => r.1 = id).map
        fun r => r.2.sum).sum = (if reading.1 = id then reading.2.sum else 0) +
          ((readings.filter fun r => r.1 = id).map fun r => r.2.sum).sum := by
      intro id
      by_cases hid : reading.1 = id <;> simp [hid]
    simp only [hfilter]
    rw [List.sum_map_add, sum_map_indicator hnodup, ih, List.map_cons, List.sum_cons]

/-- The report adds up the readings of its runs. -/
theorem Whole.reportedCount {rows : List LatencyRow} {method : Text}
    {readings : List (ℕ × List ℕ)} (h : Whole rows method readings) (startRunId endRunId : ℕ) :
    Contender.reportedCount rows startRunId endRunId method =
      (readings.map fun reading =>
        if reading.1 ∈ runIds startRunId endRunId then reading.2.sum else 0).sum := by
  have hmerge : canonicalLatency rows startRunId endRunId method =
      Histogram.merge [] (((runIds startRunId endRunId).flatMap fun runId =>
        (readings.filter fun reading => reading.1 = runId).map Prod.snd).flatMap
          (Histogram.buckets latencyBounds)) := by
    rw [List.flatMap_assoc, Histogram.merge, List.foldl_flatMap, canonicalLatency]
    simp only [h.getLatencyMetrics]
    rfl
  have hlength : ∀ counts ∈ (runIds startRunId endRunId).flatMap (fun runId =>
      (readings.filter fun reading => reading.1 = runId).map Prod.snd),
      counts.length = latencyBounds.length := by
    intro counts hcounts
    obtain ⟨runId, -, hmem⟩ := List.mem_flatMap.mp hcounts
    obtain ⟨reading, hreading, rfl⟩ := List.mem_map.mp hmem
    exact h.length reading (List.mem_of_mem_filter hreading)
  have hnodup : (runIds startRunId endRunId).Nodup := List.nodup_range'
  rw [Contender.reportedCount, hmerge, Histogram.total_merge (by decide) hlength,
    ← sum_map_filter hnodup, List.map_flatMap, List.flatMap_def, List.sum_flatten]
  simp [Function.comp_def]

/-! ### What the readings amount to -/

theorem mem_runIds {startRunId endRunId runId : ℕ} :
    runId ∈ runIds startRunId endRunId ↔ startRunId ≤ runId ∧ runId ≤ endRunId := by
  rw [runIds, List.mem_range'_1]
  omega

/-- The counts in the readings of the reported runs. -/
def readTotal (startRunId endRunId : ℕ) (method : Text) : List RpcRequest → List SpamCall → ℕ
  | _, [] => 0
  | seen, call :: calls =>
    (if call.Reported startRunId endRunId ∧ call.stores then
      countedOf method (seen ++ call.before ++ call.during) else 0) +
      readTotal startRunId endRunId method
        (seen ++ call.before ++ call.during ++ call.after) calls

/-- A call adds its reading to the report, when it is about the run of the call. -/
theorem reportedCount_spamRpc {s : LatencyState} {seen : List RpcRequest}
    (hcounts : s.registry.Counts seen) {method : Text} {readings : List (ℕ × List ℕ)}
    (h : Whole s.rows method readings) (call : SpamCall) (startRunId endRunId : ℕ) :
    (s.spamRpc call).registry.Counts (seen ++ call.before ++ call.during ++ call.after) ∧
      (∃ readings', Whole (s.spamRpc call).rows method readings') ∧
      reportedCount (s.spamRpc call).rows startRunId endRunId method =
        reportedCount s.rows startRunId endRunId method +
          if call.Reported startRunId endRunId ∧ call.stores then
            countedOf method (seen ++ call.before ++ call.during) else 0 := by
  have hduring := (hcounts.observeAll call.before).observeAll call.during
  have hafter := hduring.observeAll call.after
  obtain ⟨runId, before, during, stores, after⟩ := call
  cases stores with
  | false =>
    refine ⟨hafter, ⟨readings, h⟩, ?_⟩
    simp [LatencyState.spamRpc, LatencyState.observe]
  | true =>
    obtain ⟨more, hmore, hids, hsum⟩ :=
      Whole.store (s := (s.observe before).observe during) hduring h runId
    refine ⟨hafter, ⟨readings ++ more, hmore⟩, ?_⟩
    have hnew : (more.map fun reading =>
        if reading.1 ∈ runIds startRunId endRunId then reading.2.sum else 0).sum =
          if runId ∈ runIds startRunId endRunId then countedOf method (seen ++ before ++ during)
          else 0 := by
      rw [← hsum, List.map_congr_left fun reading hreading => by rw [hids reading hreading]]
      split_ifs <;> simp
    have hreport := hmore.reportedCount startRunId endRunId
    rw [List.map_append, List.sum_append, ← h.reportedCount, hnew] at hreport
    have hrows : (s.spamRpc ⟨runId, before, during, true, after⟩).rows =
        (((s.observe before).observe during).store runId).rows := rfl
    rw [hrows]
    simpa [SpamCall.Reported, mem_runIds] using hreport

theorem reportedCount_run {s : LatencyState} {seen : List RpcRequest}
    (hcounts : s.registry.Counts seen) {method : Text} {readings : List (ℕ × List ℕ)}
    (h : Whole s.rows method readings) (calls : List SpamCall) (startRunId endRunId : ℕ) :
    reportedCount (s.run calls).rows startRunId endRunId method =
      reportedCount s.rows startRunId endRunId method +
        readTotal startRunId endRunId method seen calls := by
  induction calls generalizing s seen readings with
  | nil => rfl
  | cons call calls ih =>
    obtain ⟨hcounts', ⟨readings', h'⟩, hcall⟩ :=
      reportedCount_spamRpc hcounts h call startRunId endRunId
    have hrun : s.run (call :: calls) = (s.spamRpc call).run calls := rfl
    rw [hrun, ih hcounts' h', hcall, readTotal, Nat.add_assoc]

/-- The requests of the reported runs that are in the reading of their call. -/
def readDuring (startRunId endRunId : ℕ) (method : Text) (calls : List SpamCall) : ℕ :=
  (calls.map fun call =>
    if call.Reported startRunId endRunId ∧ call.stores then countedOf method call.during
    else 0).sum

theorem readTotal_eq (startRunId endRunId : ℕ) (method : Text) (seen : List RpcRequest)
    (calls : List SpamCall) :
    readTotal startRunId endRunId method seen calls =
      carriedOver startRunId endRunId method seen calls +
        readDuring startRunId endRunId method calls := by
  induction calls generalizing seen with
  | nil => rfl
  | cons call calls ih =>
    have hread : readDuring startRunId endRunId method (call :: calls) =
        (if call.Reported startRunId endRunId ∧ call.stores then countedOf method call.during
          else 0) + readDuring startRunId endRunId method calls := by
      simp [readDuring]
    rw [readTotal, ih, carriedOver, hread, countedOf_append]
    split_ifs <;> omega

theorem requestsDuring_eq (startRunId endRunId : ℕ) (method : Text) (calls : List SpamCall) :
    requestsDuring startRunId endRunId method calls =
      missed startRunId endRunId method calls +
        readDuring startRunId endRunId method calls := by
  induction calls with
  | nil => rfl
  | cons call calls ih =>
    unfold requestsDuring missed readDuring at ih ⊢
    rw [List.map_cons, List.sum_cons, List.map_cons, List.sum_cons, List.map_cons, List.sum_cons,
      ih, requestsOf_append]
    by_cases hreported : call.Reported startRunId endRunId
    · cases hstores : call.stores with
      | false =>
        simp only [hreported, if_true, Bool.false_eq_true, and_false, if_false]
        omega
      | true =>
        have hsplit := requestsOf_eq method call.during
        rw [if_pos hreported, if_pos hreported, if_pos rfl, if_pos ⟨hreported, rfl⟩]
        omega
    · simp only [hreported, if_false, false_and]
      omega

/-- The report has the number of requests of its runs exactly when the counted requests from
before these runs that their readings carry over, once for each reading, are as many as the
requests of the runs that the readings miss. -/
theorem countsPerRun_iff (calls : List SpamCall) (startRunId endRunId : ℕ) (method : Text) :
    CountsPerRun calls startRunId endRunId method ↔
      carriedOver startRunId endRunId method [] calls =
        missed startRunId endRunId method calls := by
  have hwhole : Whole LatencyState.initial.rows method [] := ⟨by simp, rfl⟩
  have hrun := reportedCount_run (s := .initial) Registry.Counts.empty hwhole calls startRunId
    endRunId
  have hnone : reportedCount LatencyState.initial.rows startRunId endRunId method = 0 := by
    rw [hwhole.reportedCount]
    rfl
  rw [CountsPerRun, hrun, hnone, readTotal_eq, requestsDuring_eq]
  omega

namespace TwoRuns

def sendRawTransaction : Text := "eth_sendRawTransaction".toList

/-- Two runs that each send one transaction, answered within two milliseconds. -/
def calls : List SpamCall :=
  [⟨1, [], [⟨sendRawTransaction, 2_000_000⟩], true, []⟩,
   ⟨2, [], [⟨sendRawTransaction, 2_000_000⟩], true, []⟩]

/-- The report counts three requests where there were two. -/
theorem not_countsPerRun :
    ¬ CountsPerRun calls 1 2 sendRawTransaction ∧
      reportedCount (LatencyState.initial.run calls).rows 1 2 sendRawTransaction = 3 ∧
      requestsDuring 1 2 sendRawTransaction calls = 2 := by
  have hreported : reportedCount (LatencyState.initial.run calls).rows 1 2 sendRawTransaction =
      3 := by decide +kernel
  have hrequests : requestsDuring 1 2 sendRawTransaction calls = 2 := by decide +kernel
  refine ⟨?_, hreported, hrequests⟩
  rw [CountsPerRun, hreported, hrequests]
  decide

end TwoRuns

end Contender
