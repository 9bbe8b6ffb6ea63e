import Contender.Scenario.ExecuteSpam
import Mathlib.Algebra.Order.BigOperators.Group.List
import Mathlib.Algebra.Order.Group.Nat

/-!
# Outcomes of batched transactions

In batch mode the transactions of a chunk go out as one JSON-RPC batch, in which
request `i` has id `i`. JSON-RPC lets the responses come back in any order, but
the task of the chunk reads them by position. A response is also read as a
success when it has an error without a text, and when there is none at all; and a
call that fails altogether leaves no report behind.

## Main results

* `attributedById_iff` — when each transaction gets the error of its own response
* `accounts_iff` — when every transaction is reported once, and a success is one,
  in all three modes
-/

namespace Contender

/-! ### Responses by id -/

def responseId (response : Json) : Option Nat := (response.get "id".toList).bind Json.asNat

/-- The response has an error, with or without a text. -/
def HasError (response : Json) : Prop := ∃ e ∈ response.get "error".toList, ¬e.IsNull

/-- The array has exactly one response for each id below `n`, in any order. -/
def OnePerId (n : Nat) (responses : List Json) : Prop :=
  (responses.map responseId).Perm ((List.range n).map some)

instance (n : Nat) (responses : List Json) : Decidable (OnePerId n responses) :=
  inferInstanceAs (Decidable (List.Perm _ _))

/-- The responses in the order of the requests. -/
def sortById (responses : List Json) : List Json :=
  responses.insertionSort fun r s => (responseId r).getD 0 ≤ (responseId s).getD 0

theorem hasError_of_responseError {response : Json} (h : (responseError response).isSome) :
    HasError response := by
  obtain ⟨text, htext⟩ := Option.isSome_iff_exists.mp h
  obtain ⟨message, hmessage, -⟩ := Option.bind_eq_some_iff.mp htext
  obtain ⟨e, he, hget⟩ := Option.bind_eq_some_iff.mp hmessage
  refine ⟨e, he, fun hnull => ?_⟩
  -- a null has no members
  cases e with
  | null => cases hget
  | bool | num | str | arr | obj => exact hnull

namespace OnePerId

variable {n : Nat} {responses : List Json}

theorem length_eq (h : OnePerId n responses) : responses.length = n := by
  simpa using List.Perm.length_eq h

theorem exists_id (h : OnePerId n responses) {response : Json} (hmem : response ∈ responses) :
    ∃ i < n, responseId response = some i := by
  have hid := h.mem_iff.mp (List.mem_map_of_mem hmem)
  obtain ⟨i, hi, hid⟩ := List.mem_map.mp hid
  exact ⟨i, List.mem_range.mp hi, hid.symm⟩

/-- Sorting puts the response with id `i` at position `i`. -/
theorem map_responseId_sortById (h : OnePerId n responses) :
    (sortById responses).map responseId = (List.range n).map some := by
  have hsorted : (sortById responses).Perm responses := List.perm_insertionSort _ _
  have hids : ((sortById responses).map fun r => (responseId r).getD 0) = List.range n := by
    refine List.Perm.eq_of_pairwise' (r := (· ≤ ·)) ?_ List.pairwise_le_range ?_
    · apply List.pairwise_map.mpr
      have : IsTrans Json fun r s => (responseId r).getD 0 ≤ (responseId s).getD 0 :=
        ⟨fun _ _ _ => le_trans⟩
      have : Std.Total fun r s : Json => (responseId r).getD 0 ≤ (responseId s).getD 0 :=
        ⟨fun r s => le_total _ _⟩
      exact List.pairwise_insertionSort _ responses
    · have hperm := (hsorted.map responseId).trans h
      simpa [Function.comp_def] using hperm.map fun id => id.getD 0
  rw [← hids, List.map_map]
  apply List.map_congr_left
  intro r hr
  obtain ⟨i, -, hi⟩ := h.exists_id (hsorted.mem_iff.mp hr)
  simp [hi]

/-- The response with id `i` is the one that sorting puts there. -/
theorem sortById_getElem? (h : OnePerId n responses) {response : Json} {i : Nat}
    (hmem : response ∈ responses) (hid : responseId response = some i) :
    (sortById responses)[i]? = some response := by
  have hsorted : response ∈ sortById responses := (List.mem_insertionSort _).mpr hmem
  obtain ⟨j, hj⟩ := List.mem_iff_getElem?.mp hsorted
  have hids := congrArg (fun l => l[j]?) h.map_responseId_sortById
  simp only [List.getElem?_map, hj, Option.map_some, hid] at hids
  obtain ⟨m, hm, hmi⟩ := Option.map_eq_some_iff.mp hids.symm
  obtain ⟨hjn, rfl⟩ := List.getElem?_eq_some_iff.mp hm
  rw [List.getElem_range, Option.some.injEq] at hmi
  rw [← hmi]
  exact hj

end OnePerId

/-! ### Attribution -/

/-- Each transaction is reported with the error of the response that has its id,
and as a success exactly when that response has no error. -/
def AttributedById (chunk : List (TxHash × NamedTxRequest)) (responses : List Json)
    (reports : List SpamReport) : Prop :=
  ∀ i tx, chunk[i]? = some tx → ∀ response ∈ responses, responseId response = some i →
    ∃ error, reports[i]? = some (.txOutcome tx.1 tx.2 error) ∧
      error = responseError response ∧ (error = none ↔ ¬HasError response)

theorem getElem?_alignResponses (chunk : List (TxHash × NamedTxRequest)) (responses : List Json)
    (i : Nat) : (alignResponses chunk responses)[i]? =
      chunk[i]?.map fun tx => .txOutcome tx.1 tx.2 (responses[i]?.bind responseError) := by
  rw [alignResponses, List.getElem?_map, List.getElem?_zipIdx, Option.map_map, Nat.zero_add]
  rfl

/-- **Attribution.** When the node answers a chunk with one response per id, each
transaction gets the error of its own response exactly when sorting the responses
by id does not change the list of their error texts, and every error has a
text. -/
theorem attributedById_iff {post : Nat → HttpResult} {chunk : List (TxHash × NamedTxRequest)}
    {responses : List Json} (hpost : batchResponses post = some responses)
    (hids : OnePerId chunk.length responses) :
    AttributedById chunk responses (sendChunk post chunk) ↔
      (sortById responses).map responseError = responses.map responseError ∧
        ∀ response ∈ responses, HasError response → (responseError response).isSome := by
  have hreports : sendChunk post chunk = alignResponses chunk responses := by
    rw [sendChunk, hpost]
  have hlength := hids.length_eq
  have hsorted : (sortById responses).length = responses.length :=
    List.length_insertionSort _ responses
  rw [hreports]
  constructor
  · intro hattributed
    have hown : ∀ response ∈ responses, ∀ i, responseId response = some i → i < chunk.length →
        (responses[i]?.bind responseError) = responseError response ∧
          (responseError response = none ↔ ¬HasError response) := by
      intro response hmem i hid hi
      obtain ⟨error, hreport, rfl, hnone⟩ := hattributed i _ (List.getElem?_eq_getElem hi) response
        hmem hid
      rw [getElem?_alignResponses, List.getElem?_eq_getElem hi, Option.map_some,
        Option.some.injEq, SpamReport.txOutcome.injEq] at hreport
      exact ⟨hreport.2.2, hnone⟩
    refine ⟨List.ext_getElem (by simp [hsorted]) fun i hi hi' => ?_, fun response hmem herror => ?_⟩
    · rw [List.length_map] at hi hi'
      have hmem : (sortById responses)[i] ∈ responses :=
        (List.mem_insertionSort _).mp (List.getElem_mem hi)
      have hid : responseId (sortById responses)[i] = some i := by
        have := congrArg (fun l => l[i]?) hids.map_responseId_sortById
        simpa [List.getElem?_eq_getElem hi, hlength ▸ hi'] using this
      have := (hown _ hmem i hid (hlength ▸ hi')).1
      rw [List.getElem?_eq_getElem hi', Option.bind_some] at this
      simpa using this.symm
    · obtain ⟨i, hi, hid⟩ := hids.exists_id hmem
      have hnone := (hown response hmem i hid hi).2
      rw [Option.isSome_iff_ne_none]
      exact fun h => hnone.mp h herror
  · rintro ⟨horder, htexts⟩ i tx htx response hmem hid
    obtain ⟨hi, -⟩ := List.getElem?_eq_some_iff.mp htx
    -- the response at position `i` has the same text as the one with id `i`
    have htext := congrArg (fun l => l[i]?) horder
    simp only [List.getElem?_map, hids.sortById_getElem? hmem hid, Option.map_some] at htext
    obtain ⟨other, hother, hsame⟩ := Option.map_eq_some_iff.mp htext.symm
    refine ⟨responseError response, ?_, rfl, ?_⟩
    · rw [getElem?_alignResponses, htx, hother, Option.map_some, Option.bind_some, hsame]
    · constructor
      · intro hnone herror
        have := htexts response hmem herror
        rw [hnone] at this
        cases this
      · intro hnone
        rw [← Option.not_isSome_iff_eq_none]
        exact fun hsome => hnone (hasError_of_responseError hsome)

namespace TwoTxs

/-- Two transactions, each with its response. -/
def chunk : List (TxHash × NamedTxRequest) := [(1, { tx := {} }), (2, { tx := {} })]

def accepted (i : Nat) : Json :=
  .obj [("id".toList, .num i), ("result".toList, .str "0x".toList)]

def rejected (i : Nat) : Json :=
  .obj [("id".toList, .num i),
    ("error".toList, .obj [("message".toList, .str "nonce too low".toList)])]

/-- A node that answers with the given responses. -/
def answering (responses : List Json) (_ : Nat) : HttpResult := .ok (.ok (.arr responses))

/-- The first transaction was accepted, but the response to the second one comes
first. -/
theorem not_attributedById_of_swapped :
    OnePerId chunk.length [rejected 1, accepted 0] ∧
      ¬AttributedById chunk [rejected 1, accepted 0]
        (sendChunk (answering [rejected 1, accepted 0]) chunk) := by
  refine ⟨by decide +kernel, fun hattributed => ?_⟩
  obtain ⟨error, hreport, herror, -⟩ := hattributed 0 (1, { tx := {} }) rfl (accepted 0)
    (by simp) (by decide +kernel)
  have hnone : responseError (accepted 0) = none := by decide +kernel
  have hfirst : (sendChunk (answering [rejected 1, accepted 0]) chunk)[0]? =
      some (.txOutcome 1 { tx := {} } (some "nonce too low".toList)) := by
    decide +kernel
  rw [hfirst, herror, hnone] at hreport
  exact absurd hreport (by decide)

/-- Responses in the order of the requests. -/
theorem attributedById_of_inOrder :
    AttributedById chunk [accepted 0, rejected 1]
      (sendChunk (answering [accepted 0, rejected 1]) chunk) := by
  refine (attributedById_iff rfl (by decide +kernel)).mpr ⟨by decide +kernel, ?_⟩
  intro response hmem herror
  rcases List.mem_pair.mp hmem with rfl | rfl
  · obtain ⟨e, he, -⟩ := herror
    exact absurd he (by rintro ⟨⟩)
  · decide +kernel

end TwoTxs

/-! ### Every transaction once -/

def SpamReport.handled? : SpamReport → Option (TxHash × NamedTxRequest)
  | .txOutcome txHash req _ => some (txHash, req)
  | _ => none

/-- The transaction is reported as sent without an error. -/
def SpamReport.Succeeded : SpamReport → Prop
  | .txOutcome _ _ none => True
  | _ => False

/-- Whether single transactions are sent in chunks. -/
def DispatchConfig.Batches (cfg : DispatchConfig) : Prop :=
  0 < cfg.rpcBatchSize ∧ cfg.sendRawTxSync = false

instance (cfg : DispatchConfig) : Decidable cfg.Batches := inferInstanceAs (Decidable (_ ∧ _))

/-- The node has answered the `j`-th transaction sent, and without an error. -/
def AnsweredWithoutError (cfg : DispatchConfig) (net : Network) (j : Nat) : Prop :=
  if cfg.Batches then
    ∃ responses, batchResponses (net.postBatch (j / cfg.rpcBatchSize)) = some responses ∧
      ∃ response ∈ responses,
        responseId response = some (j % cfg.rpcBatchSize) ∧ ¬HasError response
  else if cfg.sendRawTxSync then
    ∃ body, net.postSync j = some (.ok (.ok body)) ∧ ¬HasError body
  else retryOnce (net.sendTxEnvelope j) = .ok ()

/-- The reports of all tasks. -/
def allReports (tasks : List (Option (List SpamReport))) : List SpamReport :=
  tasks.flatMap fun task => task.getD []

/-- Every single transaction is handled once, and those reported as successful
were answered without an error. -/
def Accounts (cfg : DispatchConfig) (net : Network) (trigger : SpamTrigger)
    (singles : List (TxHash × NamedTxRequest)) : Prop :=
  ∃ tasks, executeSpam cfg net trigger (singles.map fun tx => .signedTx tx.1 tx.2) = some tasks ∧
    ((allReports tasks).filterMap SpamReport.handled?).Perm singles ∧
      ∀ j report, (allReports tasks)[j]? = some report → report.Succeeded →
        AnsweredWithoutError cfg net j

/-- What the network must do for that. In batch mode every chunk must get an array
in two tries, and where the array has no error text at the position of a
transaction, it must have a response with its id and without an error. In sync
mode every error must have a text. -/
def Answers (cfg : DispatchConfig) (net : Network) (n : Nat) : Prop :=
  if cfg.Batches then
    ∀ j < n, ∃ responses,
      batchResponses (net.postBatch (j / cfg.rpcBatchSize)) = some responses ∧
        (responses[j % cfg.rpcBatchSize]?.bind responseError = none →
          ∃ response ∈ responses,
            responseId response = some (j % cfg.rpcBatchSize) ∧ ¬HasError response)
  else if cfg.sendRawTxSync then
    ∀ j < n, ∀ body, net.postSync j = some (.ok (.ok body)) → HasError body →
      (responseError body).isSome
  else True

section Accounts

variable {cfg : DispatchConfig} {net : Network} {trigger : SpamTrigger}
  {singles sorted : List (TxHash × NamedTxRequest)}

/-- Single transactions are never in the way of the sort. -/
theorem exists_sorted (singles : List (TxHash × NamedTxRequest)) :
    ∃ sorted : List (TxHash × NamedTxRequest), sorted.Perm singles ∧
      sortPayloads (singles.map fun tx => .signedTx tx.1 tx.2) =
        some (sorted.map fun tx => .signedTx tx.1 tx.2) := by
  rw [sortPayloads, List.sortByKey?_map]
  have hsome : (singles.sortByKey? fun tx =>
      (ExecutionPayload.signedTx tx.1 tx.2).sortNonce).isSome :=
    List.sortByKey?_isSome.mpr (.inr fun _ _ => rfl)
  obtain ⟨sorted, hsorted⟩ := Option.isSome_iff_exists.mp hsome
  exact ⟨sorted, List.perm_of_sortByKey? hsorted, by rw [hsorted, Option.map_some]⟩

theorem shouldBatchRpc_singles (cfg : DispatchConfig) (txs : List (TxHash × NamedTxRequest)) :
    shouldBatchRpc cfg (txs.map fun tx => .signedTx tx.1 tx.2) = true ↔ cfg.Batches := by
  simp [shouldBatchRpc, DispatchConfig.Batches, ExecutionPayload.signed?]

/-- One report for each transaction, in order, with the error found for its
position. -/
def reportsAt (err : Nat → Option Text) (txs : List (TxHash × NamedTxRequest)) :
    List SpamReport :=
  txs.zipIdx.map fun p => .txOutcome p.1.1 p.1.2 (err p.2)

/-- With such reports, only the successes are left to check. -/
theorem accounts_reportsAt_iff {err : Nat → Option Text} {answered : Nat → Prop}
    (hperm : sorted.Perm singles) :
    (((reportsAt err sorted).filterMap SpamReport.handled?).Perm singles ∧
        ∀ j report, (reportsAt err sorted)[j]? = some report → report.Succeeded → answered j) ↔
      ∀ j < singles.length, err j = none → answered j := by
  have hhandled : (reportsAt err sorted).filterMap SpamReport.handled? = sorted := by
    rw [reportsAt, List.filterMap_map]
    have : (SpamReport.handled? ∘ fun p : (TxHash × NamedTxRequest) × Nat =>
        .txOutcome p.1.1 p.1.2 (err p.2)) = fun p => some p.1 := rfl
    rw [this, List.filterMap_eq_map', List.zipIdx_map_fst]
  have hget : ∀ j, (reportsAt err sorted)[j]? =
      sorted[j]?.map fun tx => SpamReport.txOutcome tx.1 tx.2 (err j) := by
    intro j
    rw [reportsAt, List.getElem?_map, List.getElem?_zipIdx, Option.map_map, Nat.zero_add]
    rfl
  rw [hhandled, ← hperm.length_eq]
  constructor
  · rintro ⟨-, hsuccess⟩ j hj hnone
    refine hsuccess j (.txOutcome sorted[j].1 sorted[j].2 none) ?_ trivial
    rw [hget, List.getElem?_eq_getElem hj, Option.map_some, hnone]
  · intro hanswered
    refine ⟨hperm, fun j report hreport hsucceeded => ?_⟩
    rw [hget] at hreport
    obtain ⟨tx, htx, rfl⟩ := Option.map_eq_some_iff.mp hreport
    obtain ⟨hj, -⟩ := List.getElem?_eq_some_iff.mp htx
    apply hanswered j hj
    cases herr : err j with
    | none => rfl
    | some text =>
      rw [herr] at hsucceeded
      exact absurd hsucceeded id

/-- The error text a chunk's array has at the position of the `j`-th
transaction. -/
def batchError (cfg : DispatchConfig) (net : Network) (j : Nat) : Option Text :=
  (((batchResponses (net.postBatch (j / cfg.rpcBatchSize))).getD [])[j % cfg.rpcBatchSize]?).bind
    responseError

theorem allReports_batch (hbatch : cfg.Batches) :
    allReports (spamTasks cfg net trigger (sorted.map fun tx => .signedTx tx.1 tx.2)) =
      (sorted.chunksOf cfg.rpcBatchSize).zipIdx.flatMap fun c =>
        sendChunk (net.postBatch c.2) c.1 := by
  have hsigned : ∀ chunk : List (TxHash × NamedTxRequest),
      (chunk.map fun tx => ExecutionPayload.signedTx tx.1 tx.2).filterMap
        ExecutionPayload.signed? = chunk := by
    intro chunk
    rw [List.filterMap_map]
    exact List.filterMap_some
  rw [spamTasks, if_pos ((shouldBatchRpc_singles cfg sorted).mpr hbatch), allReports,
    List.chunksOf_map, List.zipIdx_map, List.map_map, List.flatMap_map]
  simp only [Function.comp_apply, Prod.map_fst, Prod.map_snd, id, Option.getD_some, hsigned]

/-- When every chunk gets an array, each transaction is reported. -/
theorem allReports_batch_of_answered (hbatch : cfg.Batches)
    (hanswered : ∀ j < sorted.length,
      (batchResponses (net.postBatch (j / cfg.rpcBatchSize))).isSome) :
    allReports (spamTasks cfg net trigger (sorted.map fun tx => .signedTx tx.1 tx.2)) =
      reportsAt (batchError cfg net) sorted := by
  have hchunk : ∀ c ∈ (sorted.chunksOf cfg.rpcBatchSize).zipIdx,
      sendChunk (net.postBatch c.2) c.1 = c.1.zipIdx.map fun p => .txOutcome p.1.1 p.1.2
        ((((batchResponses (net.postBatch c.2)).getD [])[p.2]?).bind responseError) := by
    intro c hc
    have := hanswered _ (List.mul_lt_of_mem_zipIdx_chunksOf hbatch.1 hc)
    rw [Nat.mul_div_cancel _ hbatch.1] at this
    obtain ⟨responses, hresponses⟩ := Option.isSome_iff_exists.mp this
    rw [sendChunk, hresponses]
    rfl
  rw [allReports_batch hbatch, List.flatMap_congr hchunk]
  exact List.flatMap_zipIdx_chunksOf hbatch.1 (fun k i tx => SpamReport.txOutcome tx.1 tx.2
    ((((batchResponses (net.postBatch k)).getD [])[i]?).bind responseError)) sorted

/-- A chunk reports all of its transactions or none. -/
theorem length_sendChunk_le (post : Nat → HttpResult) (chunk : List (TxHash × NamedTxRequest)) :
    (sendChunk post chunk).length ≤ chunk.length := by
  unfold sendChunk
  split
  · simp [alignResponses]
  · exact Nat.zero_le _

/-- When a chunk gets no array, its transactions are missing. -/
theorem answered_of_length (hbatch : cfg.Batches)
    (hlength : sorted.length ≤
      (allReports (spamTasks cfg net trigger (sorted.map fun tx => .signedTx tx.1 tx.2))).length)
    {j : Nat} (hj : j < sorted.length) :
    (batchResponses (net.postBatch (j / cfg.rpcBatchSize))).isSome := by
  by_contra hnone
  rw [Option.not_isSome_iff_eq_none] at hnone
  obtain ⟨c, hc, hk, hchunk⟩ := List.exists_mem_zipIdx_chunksOf hbatch.1 hj
  rw [allReports_batch hbatch, List.length_flatMap] at hlength
  have hall : ((sorted.chunksOf cfg.rpcBatchSize).zipIdx.map fun c => c.1.length).sum =
      sorted.length := by
    have := congrArg List.length
      (List.flatMap_zipIdx_chunksOf hbatch.1 (fun _ _ tx => tx) sorted)
    simpa [List.length_flatMap] using this
  -- the others report at most all of theirs
  have hless : ((sorted.chunksOf cfg.rpcBatchSize).zipIdx.map fun c =>
      (sendChunk (net.postBatch c.2) c.1).length).sum <
        ((sorted.chunksOf cfg.rpcBatchSize).zipIdx.map fun c => c.1.length).sum := by
    refine List.sum_lt_sum _ _ (fun c _ => length_sendChunk_le _ _) ⟨c, hc, ?_⟩
    rw [hk, sendChunk, hnone]
    exact List.length_pos_iff.mpr hchunk
  omega

theorem accounts_batch_iff (hbatch : cfg.Batches) (hperm : sorted.Perm singles) :
    (((allReports (spamTasks cfg net trigger
        (sorted.map fun tx => .signedTx tx.1 tx.2))).filterMap SpamReport.handled?).Perm singles ∧
      ∀ j report, (allReports (spamTasks cfg net trigger
        (sorted.map fun tx => .signedTx tx.1 tx.2)))[j]? = some report → report.Succeeded →
          AnsweredWithoutError cfg net j) ↔ Answers cfg net singles.length := by
  have hcond : Answers cfg net singles.length ↔
      (∀ j < sorted.length, (batchResponses (net.postBatch (j / cfg.rpcBatchSize))).isSome) ∧
        ∀ j < singles.length, batchError cfg net j = none → AnsweredWithoutError cfg net j := by
    simp only [Answers, AnsweredWithoutError, batchError, if_pos hbatch, hperm.length_eq]
    constructor
    · intro h
      refine ⟨fun j hj => ?_, fun j hj hnone => ?_⟩
      · obtain ⟨responses, hresponses, -⟩ := h j hj
        rw [hresponses]
        rfl
      · obtain ⟨responses, hresponses, hown⟩ := h j hj
        rw [hresponses] at hnone
        exact ⟨responses, hresponses, hown hnone⟩
    · rintro ⟨hsome, hown⟩ j hj
      obtain ⟨responses, hresponses⟩ := Option.isSome_iff_exists.mp (hsome j hj)
      refine ⟨responses, hresponses, fun hnone => ?_⟩
      obtain ⟨responses', hresponses', hfound⟩ := hown j hj (by rw [hresponses]; exact hnone)
      obtain rfl := Option.some.inj (hresponses.symm.trans hresponses')
      exact hfound
  rw [hcond]
  constructor
  · intro haccounts
    have hlength : sorted.length ≤ (allReports (spamTasks cfg net trigger
        (sorted.map fun tx => .signedTx tx.1 tx.2))).length := by
      rw [hperm.length_eq, ← haccounts.1.length_eq]
      exact List.length_filterMap_le _ _
    have hsome : ∀ j < sorted.length,
        (batchResponses (net.postBatch (j / cfg.rpcBatchSize))).isSome :=
      fun j hj => answered_of_length hbatch hlength hj
    refine ⟨hsome, ?_⟩
    rw [allReports_batch_of_answered hbatch hsome] at haccounts
    exact (accounts_reportsAt_iff hperm).mp haccounts
  · rintro ⟨hsome, hsuccess⟩
    rw [allReports_batch_of_answered hbatch hsome]
    exact (accounts_reportsAt_iff hperm).mpr hsuccess

/-- In sync mode each transaction is reported by its own response. -/
theorem allReports_sync (hsync : cfg.sendRawTxSync = true)
    (hcancel : ∀ j < sorted.length, (net.postSync j).isSome) :
    allReports (spamTasks cfg net trigger (sorted.map fun tx => .signedTx tx.1 tx.2)) =
      reportsAt (fun j => (net.postSync j).bind syncError) sorted := by
  have hsingle : ¬shouldBatchRpc cfg (sorted.map fun tx => .signedTx tx.1 tx.2) = true := by
    rw [shouldBatchRpc_singles]
    exact fun hbatch => nomatch hsync.symm.trans hbatch.2
  rw [spamTasks, if_neg hsingle, allReports, List.zipIdx_map, List.map_map, List.flatMap_map,
    reportsAt, List.map_eq_flatMap]
  apply List.flatMap_congr
  intro p hp
  have hp' := List.snd_lt_of_mem_zipIdx hp
  obtain ⟨res, hres⟩ := Option.isSome_iff_exists.mp (hcancel p.2 (by simpa using hp'))
  simp [sendPayload, hsync, hres]

theorem allReports_single (hsize : ¬cfg.Batches) (hsync : cfg.sendRawTxSync = false) :
    allReports (spamTasks cfg net trigger (sorted.map fun tx => .signedTx tx.1 tx.2)) =
      reportsAt (fun j => sendError (retryOnce (net.sendTxEnvelope j))) sorted := by
  rw [← shouldBatchRpc_singles cfg sorted] at hsize
  rw [spamTasks, if_neg hsize, allReports, List.zipIdx_map, List.map_map, List.flatMap_map,
    reportsAt, List.map_eq_flatMap]
  apply List.flatMap_congr
  intro p _
  simp [sendPayload, hsync]

theorem sendError_eq_none {result : Except SendError Unit} :
    sendError result = none ↔ result = .ok () := by
  cases result with
  | ok u => simp [sendError]
  | error e => cases e <;> simp [sendError]

/-- **Accounting.** Without a cancellation, every list of single transactions is
accounted for, in each mode, exactly when the network answers in the way the mode
needs; in single mode it always is. -/
theorem accounts_iff (cfg : DispatchConfig) (net : Network) (trigger : SpamTrigger)
    (singles : List (TxHash × NamedTxRequest))
    (hcancel : ∀ j < singles.length, (net.postSync j).isSome) :
    Accounts cfg net trigger singles ↔ Answers cfg net singles.length := by
  obtain ⟨sorted, hperm, hsort⟩ := exists_sorted singles
  have hexecute : executeSpam cfg net trigger (singles.map fun tx => .signedTx tx.1 tx.2) =
      some (spamTasks cfg net trigger (sorted.map fun tx => .signedTx tx.1 tx.2)) := by
    rw [executeSpam, hsort, Option.map_some]
  simp only [Accounts, hexecute, Option.some.injEq, exists_eq_left']
  by_cases hbatch : cfg.Batches
  · exact accounts_batch_iff hbatch hperm
  · cases hsync : cfg.sendRawTxSync with
    | true =>
      rw [allReports_sync hsync (hperm.length_eq ▸ hcancel), accounts_reportsAt_iff hperm]
      simp only [Answers, AnsweredWithoutError, if_neg hbatch, hsync, if_true]
      apply forall₂_congr
      intro j hj
      obtain ⟨res, hres⟩ := Option.isSome_iff_exists.mp (hcancel j hj)
      simp only [hres, Option.bind_some, Option.some.injEq]
      constructor
      · rintro hsuccess body rfl herror
        rw [Option.isSome_iff_ne_none]
        intro hnone
        obtain ⟨body', hbody, hclean⟩ := hsuccess hnone
        obtain rfl := Except.ok.inj (Except.ok.inj hbody)
        exact hclean herror
      · intro htexts hnone
        -- only a body that is JSON is read as a success
        cases res with
        | error e => cases hnone
        | ok parsed =>
          cases parsed with
          | error e => cases hnone
          | ok body =>
            refine ⟨body, rfl, fun herror => ?_⟩
            have := htexts body rfl herror
            rw [show responseError body = none from hnone] at this
            cases this
    | false =>
      rw [allReports_single hbatch hsync, accounts_reportsAt_iff hperm]
      simp only [Answers, AnsweredWithoutError, if_neg hbatch, hsync, Bool.false_eq_true,
        if_false, iff_true]
      exact fun j _ hnone => sendError_eq_none.mp hnone

end Accounts

namespace TwoTxs

/-- Batching in chunks of two. -/
def inPairs : DispatchConfig where
  rpcBatchSize := 2
  sendRawTxSync := false
  bundleType := .l1
  hasBundleClient := false

/-- A network whose batches are answered by `post`. -/
def network (post : Nat → HttpResult) : Network where
  sendTxEnvelope _ _ := .ok ()
  postSync _ := some (.ok (.ok (accepted 1)))
  postBatch _ := post
  blockByHash _ := .ok none
  latestBlock _ := .ok 0
  sendBundle _ _ := some (.ok ())

/-- The connection is refused twice: no transaction of the chunk is handled. -/
theorem not_accounts_of_refused :
    ¬Accounts inPairs (network fun _ => .error "connection refused".toList) .nil chunk := by
  rintro ⟨tasks, htasks, hperm, -⟩
  have hreports : (executeSpam inPairs (network fun _ => .error "connection refused".toList) .nil
      (chunk.map fun tx => .signedTx tx.1 tx.2)).map allReports = some [] := by
    decide +kernel
  rw [htasks, Option.map_some, Option.some.injEq] at hreports
  rw [hreports] at hperm
  exact absurd hperm.length_eq (by decide)

/-- A node that answers the chunk in order. -/
theorem accounts_of_inOrder :
    Accounts inPairs (network (answering [accepted 0, rejected 1])) .nil chunk := by
  refine (accounts_iff _ _ _ _ fun _ _ => rfl).mpr ?_
  rw [Answers, if_pos (by decide)]
  intro j hj
  refine ⟨[accepted 0, rejected 1], rfl, fun hnone => ?_⟩
  have hj' : j = 0 ∨ j = 1 := by
    change j < 2 at hj
    omega
  rcases hj' with rfl | rfl
  · refine ⟨accepted 0, by simp, by decide +kernel, ?_⟩
    rintro ⟨e, he, -⟩
    cases he
  · exact absurd hnone (by decide +kernel)

end TwoTxs

end Contender
