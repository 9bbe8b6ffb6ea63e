import Contender.Scenario.BatchNonces
import Contender.Scenario.BatchOutcomes
import Contender.Spammer.RowOrigins

/-!
# From a task to the actor

A task of `execute_spam` reads the clock, sends its transactions, and reports each of
them to the callback with a `RuntimeTxInfo`. The callback hands the transaction to the
actor; what the actor is told about it comes from the info alone.
-/

namespace Contender

/-- `RuntimeTxInfo`. -/
structure RuntimeTxInfo where
  startTimestampMs : Nat
  endTimestampMs : Option Nat := none
  kind : Option String := none
  error : Option String := none
  deriving DecidableEq, Repr

namespace RuntimeTxInfo

def now (ms : Nat) : RuntimeTxInfo := { startTimestampMs := ms }

def withError (info : RuntimeTxInfo) (error : Text) : RuntimeTxInfo :=
  { info with error := some (String.ofList error) }

def withEndTimestamp (info : RuntimeTxInfo) (ms : Nat) : RuntimeTxInfo :=
  { info with endTimestampMs := some ms }

/-- What a callback tells the actor. -/
def cacheTx (info : RuntimeTxInfo) (txHash : TxHash) : CacheTx where
  txHash := txHash
  startTimestampMs := info.startTimestampMs
  endTimestampMs := info.endTimestampMs
  kind := info.kind
  error := info.error

end RuntimeTxInfo

/-- `NilCallback`, which only records failed sends, and `LogCallback`. -/
inductive TxCallback
  | nil
  | log
  deriving DecidableEq, Repr

/-- `on_tx_sent`: what the task that it spawns hands to the actor, unless it is
cancelled. The request is not looked at. -/
def TxCallback.onTxSent (callback : TxCallback) (txHash : TxHash) (_req : NamedTxRequest)
    (extra : RuntimeTxInfo) : Option CacheTx :=
  match callback with
  | .nil => if extra.error.isSome then some (extra.cacheTx txHash) else none
  | .log => some (extra.cacheTx txHash)

/-- What becomes of a report: `handle_tx_outcome` adds the error to the info, and the
task of a bundle passes the info on as it is. -/
def SpamReport.onTxSent (callback : TxCallback) (extra : RuntimeTxInfo) :
    SpamReport → Option CacheTx
  | .txOutcome txHash req error =>
    callback.onTxSent txHash req (error.elim extra extra.withError)
  | .bundleSent _ => none
  | .bundleTx txHash req => callback.onTxSent txHash req extra

/-- Whether the report is one on a transaction. -/
def SpamReport.isOnTx : SpamReport → Bool
  | .bundleSent _ => false
  | .txOutcome _ _ _ | .bundleTx _ _ => true

/-- The request that a callback gets with the transaction. -/
def SpamReport.req? : SpamReport → Option NamedTxRequest
  | .bundleSent _ => none
  | .txOutcome _ req _ | .bundleTx _ req => some req

theorem TxCallback.eq_of_onTxSent {callback : TxCallback} {txHash : TxHash} (req : NamedTxRequest)
    {extra : RuntimeTxInfo} {tx : CacheTx}
    (h : callback.onTxSent txHash req extra = some tx) : tx = extra.cacheTx txHash := by
  unfold TxCallback.onTxSent at h
  split at h
  · split_ifs at h
    exact (Option.some.inj h).symm
  · exact (Option.some.inj h).symm

/-- `LogCallback` hands every transaction on that `handle_tx_outcome` is called for. -/
theorem SpamReport.onTxSent_log {report : SpamReport} {tx : TxHash × NamedTxRequest}
    (h : report.handled? = some tx) (extra : RuntimeTxInfo) :
    ∃ cached, report.onTxSent .log extra = some cached ∧ cached.txHash = tx.1 := by
  cases report with
  | txOutcome txHash req error =>
    obtain rfl := Option.some.inj h
    exact ⟨_, rfl, rfl⟩
  | bundleSent error => cases h
  | bundleTx txHash req => cases h

/-! ### Tasks -/

/-- What a task sends. -/
inductive TaskBody
  | payload (content : ExecutionPayload)
  | chunk (payloads : List ExecutionPayload)
  deriving DecidableEq, Repr

/-- What the tasks of a batch send, one after another (`spamTasks_eq_map`). -/
def taskBodies (cfg : DispatchConfig) (payloads : List ExecutionPayload) : List TaskBody :=
  if shouldBatchRpc cfg payloads then (payloads.chunksOf cfg.rpcBatchSize).map .chunk
  else payloads.map .payload

/-- The system times a task reads: before it sends, and in sync mode after it. -/
structure TaskClock where
  start : Nat
  stop : Nat
  deriving DecidableEq, Repr

/-- What a task does, as far as its transactions are concerned. -/
inductive TaskEvent
  | now (ms : Nat)
  | send (txHashes : List TxHash)
  | cacheTx (tx : CacheTx)
  deriving DecidableEq, Repr

/-- How often `retry_once` makes a call. -/
def attempts {ε α : Type} (op : Nat → Except ε α) : Nat :=
  match op 0 with
  | .ok _ => 1
  | .error _ => 2

namespace TaskBody

/-- The transactions of a task, each by its payload and its number in the payload. -/
def members : TaskBody → List (ExecutionPayload × Nat)
  | .payload content => (List.range content.txHashes.length).map fun call => (content, call)
  | .chunk payloads => payloads.map fun payload => (payload, 0)

def txHashes : TaskBody → List TxHash
  | .payload content => content.txHashes
  | .chunk payloads => payloads.flatMap ExecutionPayload.txHashes

variable (cfg : DispatchConfig) (net : Network) (trigger : SpamTrigger) (callback : TxCallback)
  (clock : TaskClock) (i : Nat)

/-- The reports of the `i`-th task. -/
def reports : TaskBody → Option (List SpamReport)
  | .payload content => sendPayload cfg net trigger i content
  | .chunk payloads =>
    some (sendChunk (net.postBatch i) (payloads.filterMap ExecutionPayload.signed?))

/-- How often the task sends its transactions. -/
def tries : TaskBody → Nat
  | .payload (.signedTx _ _) =>
    if cfg.sendRawTxSync then 1 else attempts (net.sendTxEnvelope i)
  | .payload (.signedTxBundle _ _) => 1
  | .chunk _ => attempts (net.postBatch i)

/-- The info a task starts its reports from. -/
def extra : TaskBody → RuntimeTxInfo
  | .payload (.signedTx _ _) =>
    if cfg.sendRawTxSync then (RuntimeTxInfo.now clock.start).withEndTimestamp clock.stop
    else RuntimeTxInfo.now clock.start
  | .payload (.signedTxBundle _ _) | .chunk _ => RuntimeTxInfo.now clock.start

/-- What the `i`-th task does; without a result it has panicked. -/
def trace (body : TaskBody) : Option (List TaskEvent) :=
  (body.reports cfg net trigger i).map fun reports =>
    .now clock.start :: List.replicate (body.tries cfg net i) (.send body.txHashes) ++
      (reports.filterMap (SpamReport.onTxSent callback (body.extra cfg clock))).map .cacheTx

/-- The report on the transaction at a position of the task. -/
def report (body : TaskBody) (position : Nat) : Option SpamReport :=
  (body.reports cfg net trigger i).bind fun reports =>
    (reports.filter SpamReport.isOnTx)[position]?

end TaskBody

/-- The tasks of a batch are those of its bodies. -/
theorem spamTasks_eq_map (cfg : DispatchConfig) (net : Network) (trigger : SpamTrigger)
    (payloads : List ExecutionPayload) :
    spamTasks cfg net trigger payloads = (taskBodies cfg payloads).zipIdx.map fun (body, i) =>
      body.reports cfg net trigger i := by
  unfold spamTasks taskBodies
  split_ifs
  · rw [List.zipIdx_map, List.map_map]
    rfl
  · rw [List.zipIdx_map, List.map_map]
    rfl

/-! ### Start timestamps -/

/-- The trace reads this time before it sends the transaction for the first time. -/
def CapturedBeforeSend (trace : List TaskEvent) (ms : Nat) (txHash : TxHash) : Prop :=
  ∃ before after, trace = before ++ .now ms :: after ∧
    (∀ txHashes, .send txHashes ∈ before → txHash ∉ txHashes) ∧
    ∃ txHashes, .send txHashes ∈ after ∧ txHash ∈ txHashes

section Trace

variable {cfg : DispatchConfig} {net : Network} {trigger : SpamTrigger} {callback : TxCallback}
  {clock : TaskClock} {i : Nat} {body : TaskBody} {events : List TaskEvent}

theorem attempts_pos {ε α : Type} (op : Nat → Except ε α) : 0 < attempts op := by
  unfold attempts
  split
  · exact Nat.one_pos
  · exact Nat.two_pos

theorem TaskBody.tries_pos (body : TaskBody) : 0 < body.tries cfg net i := by
  unfold TaskBody.tries
  split
  · split_ifs
    · exact Nat.one_pos
    · exact attempts_pos _
  · exact Nat.one_pos
  · exact attempts_pos _

/-- The times of the infos are the times of the task. -/
theorem TaskBody.startTimestampMs_extra (body : TaskBody) :
    (body.extra cfg clock).startTimestampMs = clock.start := by
  unfold TaskBody.extra
  split
  · split_ifs <;> rfl
  · rfl
  · rfl

theorem TaskBody.kind_extra (body : TaskBody) : (body.extra cfg clock).kind = none := by
  unfold TaskBody.extra
  split
  · split_ifs <;> rfl
  · rfl
  · rfl

theorem TaskBody.error_extra (body : TaskBody) : (body.extra cfg clock).error = none := by
  unfold TaskBody.extra
  split
  · split_ifs <;> rfl
  · rfl
  · rfl

/-- A task reads the clock before it sends any of its transactions. -/
theorem capturedBeforeSend_of_trace (h : body.trace cfg net trigger callback clock i = some events)
    {txHash : TxHash} (hmem : txHash ∈ body.txHashes) :
    CapturedBeforeSend events clock.start txHash := by
  obtain ⟨reports, -, rfl⟩ := Option.map_eq_some_iff.mp h
  refine ⟨[], _, rfl, fun _ hsend => absurd hsend List.not_mem_nil, body.txHashes, ?_, hmem⟩
  apply List.mem_append_left
  exact List.mem_replicate.mpr ⟨(body.tries_pos).ne', rfl⟩

/-- What is handed to the actor is made from a report. -/
theorem cacheTx_mem_trace (h : body.trace cfg net trigger callback clock i = some events)
    {tx : CacheTx} : .cacheTx tx ∈ events ↔ ∃ reports report,
      body.reports cfg net trigger i = some reports ∧ report ∈ reports ∧
        report.onTxSent callback (body.extra cfg clock) = some tx := by
  obtain ⟨reports, hreports, rfl⟩ := Option.map_eq_some_iff.mp h
  rw [List.cons_append, List.mem_cons, List.mem_append, List.mem_replicate]
  constructor
  · rintro (hnow | ⟨-, hsend⟩ | hcache)
    · cases hnow
    · cases hsend
    · obtain ⟨tx', htx, htx'⟩ := List.mem_map.mp hcache
      obtain rfl := TaskEvent.cacheTx.inj htx'
      obtain ⟨report, hreport, hsent⟩ := List.mem_filterMap.mp htx
      exact ⟨reports, report, hreports, hreport, hsent⟩
  · rintro ⟨reports', report, hreports', hreport, hsent⟩
    obtain rfl := Option.some.inj (hreports.symm.trans hreports')
    exact .inr (.inr (List.mem_map.mpr ⟨tx, List.mem_filterMap.mpr ⟨report, hreport, hsent⟩, rfl⟩))

end Trace

end Contender
