import Contender.Generator.Authorizations
import Contender.Scenario.DeferredBatch
import Contender.Scenario.TxCallbacks

/-!
# The metadata of recorded transactions

A row of the database names the kind of the call a transaction was generated from, its
error, and the time at which it was sent. The start timestamp is read by the task that
sends the transaction, before it does. The error is the one that the task has read from
an answer; a receipt with a failure replaces it. The kind is in the request that comes
with the transaction up to the callback, which hands on the info without it.

## Main results

* `exists_dispatch` — a transaction that is handed to the actor was generated from a call
  definition, prepared, and sent by a task
* `ownMetadata_iff` — when the metadata of a row are those of the transaction
-/

namespace Contender

open Semantics

/-! ### What becomes of a transaction -/

/-- How the node or the builder has answered: a rejection may be without a text. -/
inductive SendOutcome
  | accepted
  | rejected (message : Option Text)
  deriving DecidableEq, Repr

instance (response : Json) : Decidable (HasError response) :=
  inferInstanceAs (Decidable (∃ e ∈ response.get "error".toList, ¬e.IsNull))

namespace SendOutcome

/-- What a JSON-RPC response says. -/
def ofResponse (response : Json) : SendOutcome :=
  if HasError response then .rejected (responseError response) else .accepted

/-- A call without an error response has not been answered by the node. -/
def ofSend : Except SendError Unit → Option SendOutcome
  | .ok _ => some .accepted
  | .error (.errorResp message) => some (.rejected (some message))
  | .error .other => none

def ofSync : HttpResult → Option SendOutcome
  | .ok (.ok body) => some (ofResponse body)
  | .ok (.error _) | .error _ => none

def ofBundle : Except Text Unit → SendOutcome
  | .ok _ => .accepted
  | .error message => .rejected (some message)

/-- The error is the one of a rejection, and there is none for a transaction that was
accepted. -/
def Records (outcome : SendOutcome) (error : Option String) : Prop :=
  match outcome with
  | .accepted => error = none
  | .rejected message => message.isSome ∧ error = message.map String.ofList

theorem records_ofResponse {response : Json} {error : Option Text} :
    (ofResponse response).Records (error.map String.ofList) ↔
      error = responseError response ∧ (HasError response → (responseError response).isSome) := by
  have hinjective : Function.Injective (Option.map String.ofList) :=
    Option.map_injective fun _ _ => String.ofList_injective
  unfold ofResponse
  split_ifs with herror
  · simp only [Records, hinjective.eq_iff, herror, true_imp_iff]
    exact and_comm
  · have hnone : responseError response = none := by
      by_contra hsome
      exact herror (hasError_of_responseError (Option.isSome_iff_ne_none.mpr hsome))
    simp [Records, hnone, herror]

end SendOutcome

/-- How sending a bundle ends, once its target block is known. -/
def bundleResult (cfg : DispatchConfig) (net : Network) (trigger : SpamTrigger) (i : Nat)
    (txHashes : List TxHash) : Option (Except Text Unit) :=
  (bundleBlock net trigger i).bind fun block =>
    (typedBundle cfg.bundleType txHashes block).bind (net.sendBundle i)

namespace TaskBody

variable (cfg : DispatchConfig) (net : Network) (trigger : SpamTrigger) (i position : Nat)

/-- The answers to a transaction of the `i`-th task; in a chunk they are the responses
with its id. -/
def outcomes : TaskBody → List SendOutcome
  | .payload (.signedTx _ _) =>
    if cfg.sendRawTxSync then ((net.postSync i).bind SendOutcome.ofSync).toList
    else (SendOutcome.ofSend (retryOnce (net.sendTxEnvelope i))).toList
  | .payload (.signedTxBundle txHashes _) =>
    ((bundleResult cfg net trigger i txHashes).map SendOutcome.ofBundle).toList
  | .chunk _ =>
    (((batchResponses (net.postBatch i)).getD []).filter fun response =>
      responseId response = some position).map SendOutcome.ofResponse

/-- The error that a transaction is reported with. -/
def sentError : TaskBody → Option Text
  | .payload (.signedTx _ _) =>
    if cfg.sendRawTxSync then (net.postSync i).bind syncError
    else sendError (retryOnce (net.sendTxEnvelope i))
  | .payload (.signedTxBundle _ _) => none
  | .chunk _ => (((batchResponses (net.postBatch i)).getD [])[position]?).bind responseError

/-- The answers to a transaction are such that its error is kept: in sync mode an error
has a text; in a chunk the response that stands at the position of the transaction has
the error text of the response with its id, and an error has a text; and a bundle is not
refused. -/
def KeepsError : TaskBody → Prop
  | .payload (.signedTx _ _) =>
    cfg.sendRawTxSync = true → ∀ body, net.postSync i = some (.ok (.ok body)) → HasError body →
      (responseError body).isSome
  | .payload (.signedTxBundle txHashes _) =>
    ∀ message, bundleResult cfg net trigger i txHashes ≠ some (.error message)
  | .chunk _ =>
    ∀ responses, batchResponses (net.postBatch i) = some responses → ∀ response ∈ responses,
      responseId response = some position →
        (responses[position]?).bind responseError = responseError response ∧
          (HasError response → (responseError response).isSome)

variable {cfg net trigger i position}

theorem records_single (result : Except SendError Unit) :
    ∀ outcome ∈ (SendOutcome.ofSend result).toList,
      outcome.Records ((sendError result).map String.ofList) := by
  intro outcome houtcome
  rw [Option.mem_toList] at houtcome
  cases result with
  | ok value =>
    obtain rfl := Option.some.inj houtcome
    rfl
  | error e =>
    cases e with
    | errorResp message =>
      obtain rfl := Option.some.inj houtcome
      exact ⟨rfl, rfl⟩
    | other => cases houtcome

theorem records_sync_iff (result : Option HttpResult) :
    (∀ outcome ∈ (result.bind SendOutcome.ofSync).toList,
      outcome.Records ((result.bind syncError).map String.ofList)) ↔
      ∀ body, result = some (.ok (.ok body)) → HasError body → (responseError body).isSome := by
  constructor
  · rintro h body rfl herror
    have hrecords := h (SendOutcome.ofResponse body) (Option.mem_toList.mpr rfl)
    exact (SendOutcome.records_ofResponse.mp hrecords).2 herror
  · intro h outcome houtcome
    rw [Option.mem_toList] at houtcome
    obtain ⟨answer, rfl, hanswer⟩ := Option.bind_eq_some_iff.mp houtcome
    cases answer with
    | error e => cases hanswer
    | ok parsed =>
      cases parsed with
      | error e => cases hanswer
      | ok body =>
        obtain rfl := Option.some.inj hanswer
        exact SendOutcome.records_ofResponse.mpr ⟨rfl, h body rfl⟩

theorem records_bundle_iff (result : Option (Except Text Unit)) :
    (∀ outcome ∈ (result.map SendOutcome.ofBundle).toList, outcome.Records none) ↔
      ∀ message, result ≠ some (.error message) := by
  constructor
  · rintro h message rfl
    have hrecords := h (.rejected (some message)) (Option.mem_toList.mpr rfl)
    cases hrecords.2
  · intro h outcome houtcome
    rw [Option.mem_toList] at houtcome
    obtain ⟨answer, rfl, rfl⟩ := Option.map_eq_some_iff.mp houtcome
    cases answer with
    | ok value => rfl
    | error message => exact absurd rfl (h message)

/-- The error of a report is the own one of the transaction exactly when it is kept. -/
theorem records_iff_keepsError (body : TaskBody) :
    (∀ outcome ∈ body.outcomes cfg net trigger i position,
      outcome.Records ((body.sentError cfg net i position).map String.ofList)) ↔
      body.KeepsError cfg net trigger i position := by
  cases body with
  | payload content =>
    cases content with
    | signedTx txHash req =>
      cases hsync : cfg.sendRawTxSync with
      | true =>
        simp only [outcomes, sentError, KeepsError, hsync, if_true, true_imp_iff]
        exact records_sync_iff (net.postSync i)
      | false =>
        simp only [outcomes, sentError, KeepsError, hsync, Bool.false_eq_true, if_false,
          false_imp_iff, iff_true]
        exact records_single _
    | signedTxBundle txHashes reqs => exact records_bundle_iff _
  | chunk payloads =>
    simp only [outcomes, sentError, KeepsError]
    cases batchResponses (net.postBatch i) with
    | none => simp
    | some responses =>
      simp only [Option.getD_some, List.forall_mem_map, List.mem_filter, decide_eq_true_eq,
        SendOutcome.records_ofResponse, Option.some.injEq, forall_eq', and_imp]

end TaskBody

/-! ### Ticks -/

/-- The call definition of a transaction of a generated request. -/
def Generator.definition (g : Generator) (generated : Generator.Generated) (call : Nat) :
    Option FunctionCallDefinition :=
  (g.spamSteps[generated.step]?).bind fun step => step.calls[call]?

/-- One tick of a spam run: a chunk of a plan, the payloads that were prepared from it, and
all that decides what becomes of them. -/
structure SpamTick where
  generator : Generator
  txsPerPeriod : Nat
  numPeriods : Nat
  number : Nat
  chunks : List (List Generator.Generated)
  chunk : List Generator.Generated
  planned : generator.getSpamTxChunks txsPerPeriod numPeriods = .ok chunks
  scheduled : Generator.chunkAt chunks number = some chunk
  env : Env
  scenario : TestScenario
  payloads : List ExecutionPayload
  prepared : ∃ t, TestScenario.prepareSpam env (chunk.map Generator.Generated.request) scenario =
    .ok payloads t
  sorted : List ExecutionPayload
  sorts : sortPayloads payloads = some sorted
  cfg : DispatchConfig
  net : Network
  trigger : SpamTrigger
  callback : TxCallback
  clock : Nat → TaskClock

namespace SpamTick

variable (tick : SpamTick)

/-- What the `i`-th task of the tick sends. -/
def body (i : Nat) : Option TaskBody := (taskBodies tick.cfg tick.sorted)[i]?

def trace (i : Nat) : Option (List TaskEvent) :=
  (tick.body i).bind fun body =>
    body.trace tick.cfg tick.net tick.trigger tick.callback (tick.clock i) i

/-- A task of the tick hands the transaction to the actor. -/
def Caches (tx : CacheTx) : Prop :=
  ∃ i events, tick.trace i = some events ∧ .cacheTx tx ∈ events

/-- A transaction on its way: generated from a call definition, prepared in a payload,
sent at a position of a task, and handed to the actor. -/
structure Dispatch where
  request : Nat
  call : Nat
  task : Nat
  position : Nat
  generated : Generator.Generated
  definition : FunctionCallDefinition
  payload : ExecutionPayload
  txHash : TxHash
  body : TaskBody
  report : SpamReport
  cached : CacheTx
  hgenerated : tick.chunk[request]? = some generated
  hdefinition : tick.generator.definition generated call = some definition
  hpayload : tick.payloads[request]? = some payload
  htxHash : payload.txHashes[call]? = some txHash
  hbody : tick.body task = some body
  hmember : body.members[position]? = some (payload, call)
  hreport : body.report tick.cfg tick.net tick.trigger task position = some report
  hcached : report.onTxSent tick.callback (body.extra tick.cfg (tick.clock task)) = some cached

end SpamTick

/-! ### Reports and positions -/

namespace TaskBody

variable {cfg : DispatchConfig} {net : Network} {trigger : SpamTrigger} {callback : TxCallback}
  {i position : Nat} {sorted : List ExecutionPayload} {body : TaskBody}

/-- Payloads without bundles, each by its transaction. -/
theorem eq_map_signedTx {payloads : List ExecutionPayload}
    (h : ∀ payload ∈ payloads, payload.signed?.isSome) :
    payloads = (payloads.filterMap ExecutionPayload.signed?).map fun tx =>
      .signedTx tx.1 tx.2 := by
  induction payloads with
  | nil => rfl
  | cons payload payloads ih =>
    have hrest := ih fun other hmem => h other (List.mem_cons_of_mem payload hmem)
    cases payload with
    | signedTx txHash req =>
      have hcons : (ExecutionPayload.signedTx txHash req :: payloads).filterMap
          ExecutionPayload.signed? =
            (txHash, req) :: payloads.filterMap ExecutionPayload.signed? := rfl
      rw [hcons, List.map_cons, ← hrest]
    | signedTxBundle txHashes reqs => cases h _ List.mem_cons_self

/-- The payloads of a chunk are single transactions. -/
theorem signed_of_chunk {payloads : List ExecutionPayload}
    (h : .chunk payloads ∈ taskBodies cfg sorted) :
    ∀ payload ∈ payloads, payload.signed?.isSome := by
  unfold taskBodies at h
  split_ifs at h with hbatch
  · obtain ⟨chunk, hchunk, heq⟩ := List.mem_map.mp h
    obtain rfl := TaskBody.chunk.inj heq
    unfold shouldBatchRpc at hbatch
    intro payload hmem
    exact List.all_eq_true.mp (of_decide_eq_true hbatch).2.2 payload
      (List.mem_of_mem_chunksOf hchunk payload hmem)
  · obtain ⟨payload, -, heq⟩ := List.mem_map.mp h
    cases heq

/-- A single transaction has one report, or none when its call was cancelled. -/
theorem report_single {txHash : TxHash} {req : NamedTxRequest} {report : SpamReport}
    (h : (payload (.signedTx txHash req)).report cfg net trigger i position = some report) :
    position = 0 ∧ report = .txOutcome txHash req
      ((payload (.signedTx txHash req)).sentError cfg net i position) := by
  obtain ⟨reports, hreports, hreport⟩ := Option.bind_eq_some_iff.mp h
  have hone : ∀ error : Option Text,
      ([SpamReport.txOutcome txHash req error].filter SpamReport.isOnTx)[position]? = some report →
        position = 0 ∧ report = .txOutcome txHash req error := by
    intro error hget
    obtain ⟨hlt, heq⟩ := List.getElem?_eq_some_iff.mp hget
    have hzero : position = 0 := Nat.lt_one_iff.mp hlt
    subst hzero
    exact ⟨rfl, heq.symm⟩
  simp only [TaskBody.reports, sendPayload] at hreports
  unfold sentError
  split_ifs at hreports ⊢ with hsync
  · obtain rfl := Option.some.inj hreports
    cases hpost : net.postSync i with
    | none =>
      rw [hpost] at hreport
      cases hreport
    | some answer =>
      rw [hpost] at hreport
      exact hone _ hreport
  · obtain rfl := Option.some.inj hreports
    exact hone _ hreport

/-- The reports of a bundle, for its transactions one after another. -/
theorem report_bundle {txHashes : List TxHash} {reqs : List NamedTxRequest} {report : SpamReport}
    (h : (payload (.signedTxBundle txHashes reqs)).report cfg net trigger i position =
      some report) :
    ∃ txHash req, txHashes[position]? = some txHash ∧ reqs[position]? = some req ∧
      report = .bundleTx txHash req := by
  obtain ⟨reports, hreports, hreport⟩ := Option.bind_eq_some_iff.mp h
  have hshape : ∃ error, reports = .bundleSent error ::
      (txHashes.zip reqs).map fun tx => .bundleTx tx.1 tx.2 := by
    simp only [TaskBody.reports, sendPayload, sendBundle, Option.bind_eq_bind,
      Option.bind_eq_some_iff] at hreports
    obtain ⟨block, -, bundle, -, hsend⟩ := hreports
    split_ifs at hsend
    obtain ⟨result, -, hsend⟩ := Option.bind_eq_some_iff.mp hsend
    obtain rfl := Option.some.inj hsend
    exact ⟨_, rfl⟩
  obtain ⟨error, rfl⟩ := hshape
  rw [List.filter_cons_of_neg Bool.false_ne_true, List.filter_eq_self.mpr, List.getElem?_map]
    at hreport
  · obtain ⟨⟨txHash, req⟩, htx, rfl⟩ := Option.map_eq_some_iff.mp hreport
    obtain ⟨hhash, hreq⟩ := List.getElem?_zip_eq_some.mp htx
    exact ⟨txHash, req, hhash, hreq, rfl⟩
  · intro other hother
    obtain ⟨tx, -, rfl⟩ := List.mem_map.mp hother
    rfl

/-- The reports of a chunk, for its transactions one after another. -/
theorem report_chunk {payloads : List ExecutionPayload}
    (hsigned : ∀ payload ∈ payloads, payload.signed?.isSome) {report : SpamReport}
    (h : (chunk payloads).report cfg net trigger i position = some report) :
    ∃ txHash req, payloads[position]? = some (.signedTx txHash req) ∧
      report = .txOutcome txHash req ((chunk payloads).sentError cfg net i position) := by
  obtain ⟨reports, hreports, hreport⟩ := Option.bind_eq_some_iff.mp h
  obtain rfl := Option.some.inj hreports
  have hget : payloads[position]? = (payloads.filterMap ExecutionPayload.signed?)[position]?.map
      fun tx => .signedTx tx.1 tx.2 := by
    rw [← List.getElem?_map, ← eq_map_signedTx hsigned]
  rw [hget]
  unfold sendChunk at hreport
  unfold sentError
  cases hresponses : batchResponses (net.postBatch i) with
  | none =>
    rw [hresponses] at hreport
    cases hreport
  | some responses =>
    rw [hresponses] at hreport
    dsimp only at hreport
    rw [List.filter_eq_self.mpr, getElem?_alignResponses] at hreport
    · obtain ⟨⟨txHash, req⟩, htx, rfl⟩ := Option.map_eq_some_iff.mp hreport
      exact ⟨txHash, req, by rw [htx]; rfl, rfl⟩
    · intro other hother
      obtain ⟨tx, -, rfl⟩ := List.mem_map.mp hother
      rfl

/-- **Reports** are made on the transactions of a task, position by position. -/
theorem report_eq_some (hbody : body ∈ taskBodies cfg sorted) {report : SpamReport}
    (h : body.report cfg net trigger i position = some report) :
    ∃ payload call txHash req, body.members[position]? = some (payload, call) ∧
      payload.txHashes[call]? = some txHash ∧ payload.reqs[call]? = some req ∧
      (report = .txOutcome txHash req (body.sentError cfg net i position) ∨
        report = .bundleTx txHash req ∧ body.sentError cfg net i position = none) := by
  cases body with
  | payload content =>
    cases content with
    | signedTx txHash req =>
      obtain ⟨rfl, rfl⟩ := report_single h
      exact ⟨.signedTx txHash req, 0, txHash, req, rfl, rfl, rfl, .inl rfl⟩
    | signedTxBundle txHashes reqs =>
      obtain ⟨txHash, req, hhash, hreq, rfl⟩ := report_bundle h
      have hlt : position < txHashes.length := (List.getElem?_eq_some_iff.mp hhash).1
      refine ⟨.signedTxBundle txHashes reqs, position, txHash, req, ?_, hhash, hreq,
        .inr ⟨rfl, rfl⟩⟩
      simp [members, ExecutionPayload.txHashes, hlt]
  | chunk payloads =>
    obtain ⟨txHash, req, hget, rfl⟩ := report_chunk (signed_of_chunk hbody) h
    refine ⟨.signedTx txHash req, 0, txHash, req, ?_, rfl, rfl, .inl rfl⟩
    rw [members, List.getElem?_map, hget]
    rfl

theorem mem_of_members (hbody : body ∈ taskBodies cfg sorted) {payload : ExecutionPayload}
    {call : Nat} (h : body.members[position]? = some (payload, call)) : payload ∈ sorted := by
  have hmem : (payload, call) ∈ body.members := List.mem_of_getElem? h
  unfold taskBodies at hbody
  split_ifs at hbody
  · obtain ⟨chunk, hchunk, rfl⟩ := List.mem_map.mp hbody
    obtain ⟨other, hother, heq⟩ := List.mem_map.mp hmem
    obtain ⟨rfl, -⟩ := Prod.mk.inj heq
    exact List.mem_of_mem_chunksOf hchunk other hother
  · obtain ⟨content, hcontent, rfl⟩ := List.mem_map.mp hbody
    obtain ⟨j, -, heq⟩ := List.mem_map.mp hmem
    obtain ⟨rfl, -⟩ := Prod.mk.inj heq
    exact hcontent

theorem txHash_mem_of_members {payload : ExecutionPayload} {call : Nat} {txHash : TxHash}
    (h : body.members[position]? = some (payload, call))
    (hhash : payload.txHashes[call]? = some txHash) : txHash ∈ body.txHashes := by
  have hmem : (payload, call) ∈ body.members := List.mem_of_getElem? h
  cases body with
  | payload content =>
    obtain ⟨j, -, heq⟩ := List.mem_map.mp hmem
    obtain ⟨rfl, -⟩ := Prod.mk.inj heq
    exact List.mem_of_getElem? hhash
  | chunk payloads =>
    obtain ⟨other, hother, heq⟩ := List.mem_map.mp hmem
    obtain ⟨rfl, -⟩ := Prod.mk.inj heq
    exact List.mem_flatMap.mpr ⟨other, hother, List.mem_of_getElem? hhash⟩

end TaskBody

/-! ### Where a dispatched transaction comes from -/

namespace TestScenario

open EStateM ScenarioM

theorem kind_of_prepareSigned {env : Env} {gasPrice blobGasPrice : Nat} {req : NamedTxRequest}
    {signed : TxHash × NamedTxRequest} {s t : TestScenario}
    (h : prepareSigned env gasPrice blobGasPrice req s = .ok signed t) :
    signed.2.kind = req.kind := by
  simp only [prepareSigned, bind_eq_ok, pure_eq_ok] at h
  obtain ⟨⟨tx, signer⟩, _, -, txHash, _, -, rfl, -⟩ := h
  rfl

/-- A payload has a hash and a request for each transaction, of its kind. -/
theorem preparePayload_kinds {env : Env} {gasPrice blobGasPrice : Nat}
    {request : ExecutionRequest} {payload : ExecutionPayload} {s t : TestScenario}
    (h : preparePayload env gasPrice blobGasPrice request s = .ok payload t) :
    payload.txHashes.length = request.txs.length ∧
      payload.reqs.map NamedTxRequest.kind = request.txs.map NamedTxRequest.kind := by
  rw [preparePayload_eq_map, map_eq_ok] at h
  obtain ⟨traced, htraced, rfl⟩ := h
  cases request with
  | tx req =>
    obtain ⟨signed, hsigned, rfl⟩ := prepareTraced_tx_eq_ok.mp htraced
    exact ⟨rfl, congrArg (fun kind => [kind]) (kind_of_prepareSigned hsigned)⟩
  | bundle reqs =>
    obtain ⟨-, signed, hsigned, rfl⟩ := prepareTraced_bundle_eq_ok.mp htraced
    refine ⟨?_, rfl⟩
    change (signed.map Prod.fst).length = reqs.length
    rw [List.length_map]
    exact length_of_mapM_eq_ok hsigned

end TestScenario

namespace Generator

variable {g : Generator}

/-- A generated request has one transaction for each call of its step. -/
theorem calls_of_loadSpam {numTxs : Nat} {generated : List Generated}
    (h : g.loadSpam numTxs = .ok generated) {e : Generated} (he : e ∈ generated) :
    ∃ step placeholderMap fuzzMap, g.spamSteps[e.step]? = some step ∧
      List.Forall₂ (fun call req => g.prepareTx placeholderMap fuzzMap e.round call = .ok req)
        step.calls e.request.txs := by
  simp only [loadSpam, Except.bind_eq_ok_iff, orError_eq_ok] at h
  obtain ⟨total, -, ⟨placeholderMap, fuzzMap⟩, -, hloop⟩ := h
  obtain ⟨⟨k, i⟩, -, hentry⟩ := (List.mapM_eq_ok_iff.mp hloop).exists_of_mem_right he
  simp only [Except.bind_eq_ok_iff, Except.pure_eq_ok_iff, orError_eq_ok] at hentry
  obtain ⟨step, hstep, request, hrequest, rfl⟩ := hentry
  exact ⟨step, placeholderMap, fuzzMap, hstep, prepareStep_ok hrequest⟩

theorem kind_of_prepareTx {placeholderMap : AssocMap Text Text} {fuzzMap : FuzzMap} {i : Nat}
    {call : FunctionCallDefinition} {req : NamedTxRequest}
    (h : g.prepareTx placeholderMap fuzzMap i call = .ok req) : req.kind = call.kind := by
  simp only [prepareTx, Except.bind_eq_ok_iff, Except.pure_eq_ok_iff] at h
  obtain ⟨filled, -, strict, -, tx, -, rfl⟩ := h
  rfl

/-- The chunk of a tick is a part of the plan. -/
theorem mem_of_chunkAt {txsPerPeriod numPeriods tick : Nat} {chunks : List (List Generated)}
    {chunk : List Generated} (hchunks : g.getSpamTxChunks txsPerPeriod numPeriods = .ok chunks)
    (hchunk : chunkAt chunks tick = some chunk) :
    ∃ numTxs generated, g.loadSpam numTxs = .ok generated ∧ ∀ e ∈ chunk, e ∈ generated := by
  simp only [getSpamTxChunks, Except.bind_eq_ok_iff, orError_eq_ok] at hchunks
  obtain ⟨numTxs, -, generated, hload, hcut⟩ := hchunks
  split_ifs at hcut with htxs
  obtain rfl := Except.pure_eq_ok_iff.mp hcut
  exact ⟨numTxs, generated, hload, List.mem_of_mem_chunksOf (List.mem_of_getElem? hchunk)⟩

end Generator

namespace SpamTick

variable {tick : SpamTick}

/-- The payload of a request, transaction by transaction. -/
theorem forall₂_prepared (tick : SpamTick) :
    List.Forall₂ (fun request payload => payload.txHashes.length = request.txs.length ∧
      payload.reqs.map NamedTxRequest.kind = request.txs.map NamedTxRequest.kind)
      (tick.chunk.map Generator.Generated.request) tick.payloads := by
  obtain ⟨t, hprepared⟩ := tick.prepared
  obtain ⟨⟨gasPrice, blobGasPrice⟩, u, -, hloop⟩ := EStateM.bind_eq_ok.mp hprepared
  refine EStateM.forall₂_of_mapM_eq_ok
    (f := TestScenario.preparePayload tick.env gasPrice blobGasPrice) ?_ hloop
  exact fun _ _ _ _ hpayload => TestScenario.preparePayload_kinds hpayload

/-- A request of the chunk and its payload. -/
theorem exists_generated {k : Nat} {payload : ExecutionPayload}
    (h : tick.payloads[k]? = some payload) :
    ∃ generated, tick.chunk[k]? = some generated ∧
      payload.txHashes.length = generated.request.txs.length ∧
      payload.reqs.map NamedTxRequest.kind =
        generated.request.txs.map NamedTxRequest.kind := by
  obtain ⟨request, hrequest, hpayload⟩ := (forall₂_prepared tick).getElem?_right h
  rw [List.getElem?_map] at hrequest
  obtain ⟨generated, hgenerated, rfl⟩ := Option.map_eq_some_iff.mp hrequest
  exact ⟨generated, hgenerated, hpayload⟩

theorem exists_calls {generated : Generator.Generated} (h : generated ∈ tick.chunk) :
    ∃ step placeholderMap fuzzMap, tick.generator.spamSteps[generated.step]? = some step ∧
      List.Forall₂ (fun call req =>
        tick.generator.prepareTx placeholderMap fuzzMap generated.round call = .ok req)
        step.calls generated.request.txs := by
  obtain ⟨numTxs, plan, hload, hplan⟩ := Generator.mem_of_chunkAt tick.planned tick.scheduled
  exact Generator.calls_of_loadSpam hload (hplan generated h)

/-- **Provenance.** A transaction that is handed to the actor was generated from a call
definition, prepared, and sent by a task. -/
theorem exists_dispatch {tx : CacheTx} (h : tick.Caches tx) :
    ∃ d : tick.Dispatch, d.cached = tx := by
  obtain ⟨i, events, htrace, hmem⟩ := h
  obtain ⟨body, hbody, hevents⟩ := Option.bind_eq_some_iff.mp htrace
  obtain ⟨reports, report, hreports, hreport, hsent⟩ := (cacheTx_mem_trace hevents).mp hmem
  have hbodies : body ∈ taskBodies tick.cfg tick.sorted := List.mem_of_getElem? hbody
  have honTx : report.isOnTx := by
    cases report with
    | bundleSent error => cases hsent
    | txOutcome txHash req error => rfl
    | bundleTx txHash req => rfl
  obtain ⟨position, hposition⟩ :=
    List.mem_iff_getElem?.mp (List.mem_filter.mpr ⟨hreport, honTx⟩)
  have hat : body.report tick.cfg tick.net tick.trigger i position = some report :=
    Option.bind_eq_some_iff.mpr ⟨reports, hreports, hposition⟩
  obtain ⟨payload, call, txHash, req, hmember, hhash, -, -⟩ := TaskBody.report_eq_some hbodies hat
  -- the payload stands for a request of the chunk
  have hpayload : payload ∈ tick.payloads :=
    (List.perm_of_sortByKey? tick.sorts).mem_iff.mp (TaskBody.mem_of_members hbodies hmember)
  obtain ⟨k, hk⟩ := List.mem_iff_getElem?.mp hpayload
  obtain ⟨generated, hgenerated, hlength, -⟩ := exists_generated hk
  -- and the request for the calls of a step
  obtain ⟨step, placeholderMap, fuzzMap, hstep, hcalls⟩ :=
    exists_calls (List.mem_of_getElem? hgenerated)
  have hcall : call < step.calls.length := by
    rw [hcalls.length_eq, ← hlength]
    exact (List.getElem?_eq_some_iff.mp hhash).1
  have hdefinition :
      tick.generator.definition generated call = some (step.calls.get ⟨call, hcall⟩) :=
    Option.bind_eq_some_iff.mpr ⟨step, hstep, List.getElem?_eq_getElem hcall⟩
  exact ⟨⟨k, call, i, position, generated, _, payload, txHash, body, report, tx, hgenerated,
    hdefinition, hk, hhash, hbody, hmember, hat, hsent⟩, rfl⟩

namespace Dispatch

variable (d : tick.Dispatch)

/-- What the actor is told about the transaction. -/
theorem cached_fields :
    d.cached.txHash = d.txHash ∧ d.cached.startTimestampMs = (tick.clock d.task).start ∧
      d.cached.kind = none ∧ d.cached.error =
        (d.body.sentError tick.cfg tick.net d.task d.position).map String.ofList := by
  obtain ⟨payload, call, txHash, req, hmember, hhash, -, hreport⟩ :=
    TaskBody.report_eq_some (List.mem_of_getElem? d.hbody) d.hreport
  obtain ⟨rfl, rfl⟩ := Prod.mk.inj (Option.some.inj (hmember.symm.trans d.hmember))
  obtain rfl := Option.some.inj (hhash.symm.trans d.htxHash)
  have hcached := d.hcached
  rcases hreport with hreport | ⟨hreport, hnone⟩
  · rw [hreport] at hcached
    rw [TxCallback.eq_of_onTxSent req hcached]
    cases herror : d.body.sentError tick.cfg tick.net d.task d.position with
    | none => exact ⟨rfl, d.body.startTimestampMs_extra, d.body.kind_extra, d.body.error_extra⟩
    | some text => exact ⟨rfl, d.body.startTimestampMs_extra, d.body.kind_extra, rfl⟩
  · rw [hreport] at hcached
    rw [TxCallback.eq_of_onTxSent req hcached, hnone]
    exact ⟨rfl, d.body.startTimestampMs_extra, d.body.kind_extra, d.body.error_extra⟩

/-- The callback gets a request of the kind of the call definition. -/
theorem kind_of_report : (d.report.req?.bind NamedTxRequest.kind) = d.definition.kind := by
  obtain ⟨payload, call, txHash, req, hmember, -, hreq, hreport⟩ :=
    TaskBody.report_eq_some (List.mem_of_getElem? d.hbody) d.hreport
  obtain ⟨rfl, rfl⟩ := Prod.mk.inj (Option.some.inj (hmember.symm.trans d.hmember))
  have hreq? : d.report.req? = some req := by
    rcases hreport with hreport | ⟨hreport, -⟩
    · rw [hreport]
      rfl
    · rw [hreport]
      rfl
  obtain ⟨generated, hgenerated, -, hkinds⟩ := exists_generated d.hpayload
  obtain rfl := Option.some.inj (hgenerated.symm.trans d.hgenerated)
  obtain ⟨step, hstep, hcall⟩ := Option.bind_eq_some_iff.mp d.hdefinition
  obtain ⟨step', placeholderMap, fuzzMap, hstep', hcalls⟩ :=
    exists_calls (List.mem_of_getElem? d.hgenerated)
  obtain rfl := Option.some.inj (hstep'.symm.trans hstep)
  have hcopied : d.generated.request.txs.map NamedTxRequest.kind =
      step'.calls.map FunctionCallDefinition.kind :=
    hcalls.map_eq fun _ _ hprepared => Generator.kind_of_prepareTx hprepared
  have hkind := congrArg (fun kinds => kinds[d.call]?) (hkinds.trans hcopied)
  simp only [List.getElem?_map, hreq, hcall, Option.map_some, Option.some.injEq] at hkind
  rw [hreq?]
  exact hkind

/-- The metadata of a row are those of the transaction: the kind of its call definition
(which the callback is given with it, `kind_of_report`), the error of its own answers or of
its receipt, and a time that its task has read before it sent the transaction. -/
structure OwnMetadata (failed : Bool) (row : RunTx) : Prop where
  txHash : row.txHash = d.txHash
  kind : row.kind = d.definition.kind.map String.ofList
  error : if failed then row.error = some "execution reverted"
    else ∀ outcome ∈ d.body.outcomes tick.cfg tick.net tick.trigger d.task d.position,
      outcome.Records row.error
  start : ∃ events, tick.trace d.task = some events ∧
    CapturedBeforeSend events row.startTimestampMs d.txHash

/-- The answers are such that the error of the transaction is kept. -/
def KeepsError : Prop := d.body.KeepsError tick.cfg tick.net tick.trigger d.task d.position

variable {d}

/-- The start timestamp is always the own one. -/
theorem capturedBeforeSend (d : tick.Dispatch) : ∃ events, tick.trace d.task = some events ∧
    CapturedBeforeSend events d.cached.startTimestampMs d.txHash := by
  obtain ⟨reports, hreports, -⟩ := Option.bind_eq_some_iff.mp d.hreport
  obtain ⟨events, hevents⟩ : ∃ events, d.body.trace tick.cfg tick.net tick.trigger tick.callback
      (tick.clock d.task) d.task = some events := ⟨_, Option.map_eq_some_iff.mpr ⟨_, hreports, rfl⟩⟩
  refine ⟨events, Option.bind_eq_some_iff.mpr ⟨d.body, d.hbody, hevents⟩, ?_⟩
  rw [d.cached_fields.2.1]
  exact capturedBeforeSend_of_trace hevents
    (TaskBody.txHash_mem_of_members d.hmember d.htxHash)

theorem ownMetadata_iff_of_writtenFor {chain : Chain} {failed : Bool} {row : RunTx}
    (h : WrittenFor chain d.cached failed row) :
    d.OwnMetadata failed row ↔ d.definition.kind = none ∧ (failed = true ∨ d.KeepsError) := by
  obtain ⟨hhash, hstart, hkind, herror⟩ := h.fields
  obtain ⟨hhash', -, hkind', herror'⟩ := d.cached_fields
  rw [hkind'] at hkind
  rw [herror'] at herror
  constructor
  · intro hown
    refine ⟨Option.map_eq_none_iff.mp (hown.kind.symm.trans hkind), ?_⟩
    cases failed with
    | true => exact .inl rfl
    | false =>
      have hown := hown.error
      rw [herror] at hown
      exact .inr ((TaskBody.records_iff_keepsError d.body).mp hown)
  · rintro ⟨hnone, hkeeps⟩
    refine ⟨hhash.trans hhash', by rw [hkind, hnone, Option.map_none], ?_, ?_⟩
    · rw [herror]
      cases failed with
      | true => rfl
      | false =>
        have hkept : d.KeepsError := hkeeps.resolve_left Bool.false_ne_true
        exact (TaskBody.records_iff_keepsError d.body).mpr hkept
    · rw [hstart]
      exact capturedBeforeSend d

end Dispatch

/-- **Metadata.** In every run of the actor whose messages come from the tasks of spam
ticks, each row is written for a dispatched transaction, and its metadata are those of the
transaction exactly when the call definition is without a kind, and the receipt has failed
or the answers keep the error. -/
theorem ownMetadata_iff {chain : Chain} {actions : List Action} {t : System}
    (hrun : Execution.run (System.step chain) System.init actions = some t)
    (hsends : ∀ action ∈ actions, ∀ s,
      System.Sends (fun tx => ∃ tick : SpamTick, tick.Caches tx) s action)
    {row : RunRow} (hrow : row ∈ t.db) :
    (∃ (tick : SpamTick) (d : tick.Dispatch) (failed : Bool),
      WrittenFor chain d.cached failed row.2) ∧
      ∀ (tick : SpamTick) (d : tick.Dispatch) (failed : Bool),
        WrittenFor chain d.cached failed row.2 →
          (d.OwnMetadata failed row.2 ↔
            d.definition.kind = none ∧ (failed = true ∨ d.KeepsError)) := by
  refine ⟨?_, fun tick d failed h => Dispatch.ownMetadata_iff_of_writtenFor h⟩
  obtain ⟨tx, ⟨tick, hcaches⟩, failed, hwritten⟩ := System.writtenFor_of_run hrun hsends hrow
  obtain ⟨d, rfl⟩ := exists_dispatch hcaches
  exact ⟨tick, d, failed, hwritten⟩

end SpamTick

/-! ### A transfer with and without a kind -/

namespace OneTransfer

/-- The kind of the only call of the plan. -/
def kind (named : Bool) : Option Text := if named then some ['a'] else none

def transfer (named : Bool) : FunctionCallDefinition :=
  { Generator.FourSteps.transfer [] with kind := kind named }

def generator (named : Bool) : Generator :=
  { Generator.FourSteps.generator with spamSteps := [.tx (transfer named)] }

def generated (named : Bool) : Generator.Generated where
  step := 0
  round := 0
  request := .tx
    { kind := kind named
      tx := { fromAddr := some 0xdead, toKind := some (.call 0xdead), input := some [] } }

/-- The prepared transfer; the node accepts it. -/
def payload (named : Bool) : ExecutionPayload :=
  .signedTx 5 { FourTransfers.sent 'a' 0 with kind := kind named }

def tick (named : Bool) : SpamTick where
  generator := generator named
  txsPerPeriod := 1
  numPeriods := 1
  number := 0
  chunks := [[generated named]]
  chunk := [generated named]
  planned := by cases named <;> decide +kernel
  scheduled := rfl
  env := FailingBuilder.env
  scenario := FourTransfers.scenario
  payloads := [payload named]
  prepared := by cases named <;> exact ⟨_, rfl⟩
  sorted := [payload named]
  sorts := by cases named <;> decide +kernel
  cfg := FailingBuilder.cfg
  net := FailingBuilder.net
  trigger := .tick 0
  callback := .log
  clock _ := ⟨10, 20⟩

/-- What the actor is told, whatever the kind. -/
def cached : CacheTx := ⟨5, 10, none, none, none⟩

def dispatch (named : Bool) : (tick named).Dispatch where
  request := 0
  call := 0
  task := 0
  position := 0
  generated := generated named
  definition := transfer named
  payload := payload named
  txHash := 5
  body := .payload (payload named)
  report := .txOutcome 5 { FourTransfers.sent 'a' 0 with kind := kind named } none
  cached := cached
  hgenerated := rfl
  hdefinition := rfl
  hpayload := rfl
  htxHash := rfl
  hbody := rfl
  hmember := rfl
  hreport := rfl
  hcached := rfl

/-- The transfer is handed to the actor, and the cache is dumped for run 7. -/
def actions : List Action :=
  [.message (cached.message .listening) true, .message (.dumpCache 7 .listening) true]

def row : RunTx := ⟨5, 10, none, none, none, none, none, none, none⟩

theorem db_eq_of_actions :
    ∃ t, Execution.run (System.step Chain.empty) System.init actions = some t ∧
      t.db = [(7, row)] := by
  have hdb : (Execution.run (System.step Chain.empty) System.init actions).map System.db =
      some [(7, row)] := by decide +kernel
  exact Option.map_eq_some_iff.mp hdb

theorem caches (named : Bool) : (tick named).Caches cached :=
  ⟨0, [.now 10, .send [5], .cacheTx cached], rfl, by decide⟩

theorem sends_of_actions (named : Bool) : ∀ action ∈ actions, ∀ s,
    System.Sends (fun tx => ∃ tick : SpamTick, tick.Caches tx) s action := by
  intro action haction s tx onReceive inserted heq
  subst heq
  rcases List.mem_cons.mp haction with hsent | hdump
  · have htx : tx = cached := by
      simp only [Action.message.injEq, CacheTx.message, TxActorMessage.sentRunTx.injEq] at hsent
      obtain ⟨⟨h₁, h₂, h₃, h₄, h₅, -⟩, -⟩ := hsent
      exact CacheTx.ext h₁ h₂ h₃ h₄ h₅
    exact ⟨tick named, htx ▸ caches named⟩
  · cases List.mem_singleton.mp hdump

theorem writtenFor (named : Bool) : WrittenFor Chain.empty (dispatch named).cached false row :=
  @WrittenFor.dumped Chain.empty cached ⟨5, 10, none, none, none, none, none⟩ row rfl rfl

/-- The row of a transfer of kind `a` has no kind. -/
theorem not_ownMetadata_of_kind :
    (∃ t, Execution.run (System.step Chain.empty) System.init actions = some t ∧ (7, row) ∈ t.db) ∧
      (tick true).Caches cached ∧ WrittenFor Chain.empty (dispatch true).cached false row ∧
      (dispatch true).definition.kind = some ['a'] ∧ row.kind = none ∧
      ¬(dispatch true).OwnMetadata false row := by
  obtain ⟨t, hrun, hdb⟩ := db_eq_of_actions
  refine ⟨⟨t, hrun, by rw [hdb]; exact List.mem_cons_self⟩, caches true, writtenFor true, rfl, rfl,
    fun hown => ?_⟩
  have hkind := hown.kind
  cases hkind

/-- The row of a transfer without a kind says all there is to say. -/
theorem ownMetadata_of_noKind :
    ∃ t, Execution.run (System.step Chain.empty) System.init actions = some t ∧ (7, row) ∈ t.db ∧
      (dispatch false).OwnMetadata false row := by
  obtain ⟨t, hrun, hdb⟩ := db_eq_of_actions
  have hrow : (7, row) ∈ t.db := by
    rw [hdb]
    exact List.mem_cons_self
  obtain ⟨-, hiff⟩ := SpamTick.ownMetadata_iff hrun (sends_of_actions false) hrow
  refine ⟨t, hrun, hrow, (hiff (tick false) (dispatch false) false (writtenFor false)).mpr ?_⟩
  exact ⟨rfl, .inr fun hsync => absurd hsync Bool.false_ne_true⟩

end OneTransfer

end Contender
