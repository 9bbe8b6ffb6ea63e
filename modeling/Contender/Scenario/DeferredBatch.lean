import Contender.Generator.StepCoverage
import Contender.Scenario.BatchCollection
import Contender.Scenario.BatchOutcomes

/-!
# The channels of a deferred batch

`execute_spammer` gives each batch channels with room for one message of every
payload, and for as many nonce shifts as the first chunk of the plan has requests.
No chunk is longer than the first one, and a payload leads to at most one message
whatever becomes of it, so no task of a batch ever waits for room, and the collector
counts no more successes than payloads.

The errors of bundles go through a channel with room for one. Two failed bundles
are always noticed, since the second one waits for the collector; a single one is
not, when its task has ended before the collector looks at the channel.
-/

namespace Contender

open Semantics

/-- The batch of `execute_spammer` with the tasks of `execute_spam`. -/
def spamBatch (env : Env) (tasks : List (Option (List SpamReport))) (numPayloads shifts : Nat)
    (onBatchSent : Option (Except Text Unit)) : SpamBatch where
  tasks := tasks.map (taskMessages env)
  capacity := batchCapacity numPayloads shifts
  onBatchSent := onBatchSent

section Messages

variable {env : Env} {cfg : DispatchConfig} {net : Network} {trigger : SpamTrigger}

/-! ### One message for each payload -/

theorem filterMap_message_bundleTx (env : Env) (txs : List (TxHash × NamedTxRequest)) :
    (txs.map fun (txHash, req) => SpamReport.bundleTx txHash req).filterMap
      (SpamReport.message env) = [] := by
  rw [List.filterMap_map, List.filterMap_eq_nil_iff]
  exact fun _ _ => rfl

/-- The task of a bundle sends one message, or panics before. -/
theorem taskMessages_sendBundle (env : Env) (i : Nat) (txHashes : List TxHash)
    (reqs : List NamedTxRequest) :
    sendBundle cfg net trigger i txHashes reqs = none ∨
      ∃ error rest, sendBundle cfg net trigger i txHashes reqs = some (.bundleSent error :: rest) ∧
        rest.filterMap (SpamReport.message env) = [] := by
  cases hsend : sendBundle cfg net trigger i txHashes reqs with
  | none => exact .inl rfl
  | some reports =>
    unfold sendBundle at hsend
    obtain ⟨block, -, hsend⟩ := Option.bind_eq_some_iff.mp hsend
    obtain ⟨bundle, -, hsend⟩ := Option.bind_eq_some_iff.mp hsend
    split_ifs at hsend
    obtain ⟨result, -, hsend⟩ := Option.bind_eq_some_iff.mp hsend
    obtain rfl := Option.some.inj hsend
    exact .inr ⟨_, _, rfl, filterMap_message_bundleTx env _⟩

theorem length_taskMessages_sendPayload (i : Nat) (payload : ExecutionPayload) :
    (taskMessages env (sendPayload cfg net trigger i payload)).length ≤ 1 := by
  cases payload with
  | signedTx txHash req =>
    unfold sendPayload taskMessages
    split_ifs
    · refine (List.length_filterMap_le _ _).trans ?_
      rw [Option.getD_some, List.length_map]
      exact Option.length_toList_le
    · exact List.length_filterMap_le _ _
  | signedTxBundle txHashes reqs =>
    rw [sendPayload]
    rcases taskMessages_sendBundle env i txHashes reqs with hnone | ⟨error, rest, hsome, hrest⟩
    · rw [hnone]
      exact Nat.zero_le 1
    · rw [hsome, taskMessages, Option.getD_some, List.filterMap_cons, hrest]
      cases error <;> simp [SpamReport.message]

/-- **One message for each payload.** Whatever becomes of the transactions and bundles
of a batch, its tasks send at most one message for each payload. -/
theorem length_messages_le {payloads : List ExecutionPayload}
    {tasks : List (Option (List SpamReport))}
    (htasks : executeSpam cfg net trigger payloads = some tasks) :
    (tasks.flatMap (taskMessages env)).length ≤ payloads.length := by
  obtain ⟨sorted, hsorted, rfl⟩ := Option.map_eq_some_iff.mp htasks
  rw [← (List.perm_of_sortByKey? hsorted).length_eq]
  unfold spamTasks
  split_ifs with hbatch
  · have hn : 0 < cfg.rpcBatchSize := by
      unfold shouldBatchRpc at hbatch
      exact (of_decide_eq_true hbatch).1
    calc (((sorted.chunksOf cfg.rpcBatchSize).zipIdx.map fun c =>
          some (sendChunk (net.postBatch c.2) (c.1.filterMap ExecutionPayload.signed?))).flatMap
            (taskMessages env)).length
        ≤ ((sorted.chunksOf cfg.rpcBatchSize).zipIdx.map fun c => c.1.length).sum := by
          rw [List.length_flatMap, List.map_map]
          refine List.sum_le_sum fun c _ => ?_
          exact ((List.length_filterMap_le _ _).trans (length_sendChunk_le _ _)).trans
            (List.length_filterMap_le _ _)
      _ = (sorted.chunksOf cfg.rpcBatchSize).flatten.length := by
          rw [List.length_flatten]
          congr 1
          change (sorted.chunksOf cfg.rpcBatchSize).zipIdx.map (List.length ∘ Prod.fst) = _
          rw [← List.map_map, List.zipIdx_map_fst]
      _ = sorted.length := List.length_flatten_chunksOf hn sorted
  · calc ((sorted.zipIdx.map fun p => sendPayload cfg net trigger p.2 p.1).flatMap
          (taskMessages env)).length
        ≤ (sorted.zipIdx.map fun _ => 1).sum := by
          rw [List.length_flatMap, List.map_map]
          exact List.sum_le_sum fun p _ => length_taskMessages_sendPayload p.2 p.1
      _ = sorted.length := by simp

theorem messages_spamBatch (tasks : List (Option (List SpamReport))) (numPayloads shifts : Nat)
    (onBatchSent : Option (Except Text Unit)) :
    (spamBatch env tasks numPayloads shifts onBatchSent).messages =
      tasks.flatMap (taskMessages env) := by
  simp [SpamBatch.messages, spamBatch, List.flatMap_def]

/-! ### Bundles -/

/-- The bundles of a batch whose send failed. -/
def failedSends (tasks : List (Option (List SpamReport))) : Nat :=
  (allReports tasks).countP fun report =>
    match report with
    | .bundleSent (some _) => true
    | _ => false

/-- A report leads to a message in the error channel when it is that of a failed
bundle. -/
theorem channel_message_eq_error (env : Env) (report : SpamReport) :
    ((report.message env).elim false fun message => decide (message.channel = .error)) =
      match report with
      | .bundleSent (some _) => true
      | _ => false := by
  cases report with
  | txOutcome txHash req error =>
    simp only [SpamReport.message]
    cases (handleTxOutcome env req error).message with
    | none => rfl
    | some message => cases message <;> rfl
  | bundleSent error => cases error <;> rfl
  | bundleTx txHash req => rfl

theorem failures_spamBatch (tasks : List (Option (List SpamReport))) (numPayloads shifts : Nat)
    (onBatchSent : Option (Except Text Unit)) :
    (spamBatch env tasks numPayloads shifts onBatchSent).failures = failedSends tasks := by
  rw [SpamBatch.failures, messages_spamBatch, failedSends, allReports]
  have hmessages : tasks.flatMap (taskMessages env) =
      (tasks.flatMap fun task => task.getD []).filterMap (SpamReport.message env) := by
    rw [List.filterMap_flatMap]
    rfl
  rw [hmessages, List.countP_filterMap]
  congr 1
  funext report
  rw [← channel_message_eq_error env report]
  cases report.message env <;> rfl

/-- A task without single transactions sends no gas bumps and no nonce shifts. -/
theorem channel_of_bundles {payloads : List ExecutionPayload}
    {tasks : List (Option (List SpamReport))}
    (hbundles : ∀ payload ∈ payloads, payload.signed? = none)
    (htasks : executeSpam cfg net trigger payloads = some tasks) {message : TaskMessage}
    (hmessage : message ∈ tasks.flatMap (taskMessages env)) :
    message.channel = .error ∨ message.channel = .success := by
  obtain ⟨sorted, hsorted, rfl⟩ := Option.map_eq_some_iff.mp htasks
  have hnone : ∀ payload ∈ sorted, payload.signed? = none := fun payload hmem =>
    hbundles payload ((List.perm_of_sortByKey? hsorted).mem_iff.mp hmem)
  obtain ⟨task, htask, hmessage⟩ := List.mem_flatMap.mp hmessage
  unfold spamTasks at htask
  split_ifs at htask
  · -- a chunk of bundles has no transactions to send
    obtain ⟨⟨chunk, k⟩, hchunk, rfl⟩ := List.mem_map.mp htask
    have hchunk := List.mem_of_mem_chunksOf (List.fst_mem_of_mem_zipIdx hchunk)
    have hempty : chunk.filterMap ExecutionPayload.signed? = [] :=
      List.filterMap_eq_nil_iff.mpr fun payload hmem => hnone payload (hchunk payload hmem)
    have hlength := length_sendChunk_le (net.postBatch k) []
    dsimp only at hmessage
    rw [hempty, taskMessages, List.eq_nil_of_length_eq_zero (Nat.le_zero.mp hlength)] at hmessage
    cases hmessage
  · obtain ⟨⟨payload, i⟩, hpayload, rfl⟩ := List.mem_map.mp htask
    cases payload with
    | signedTx txHash req =>
      have hsome := hnone _ (List.fst_mem_of_mem_zipIdx hpayload)
      cases hsome
    | signedTxBundle txHashes reqs =>
      change message ∈ taskMessages env (sendBundle cfg net trigger i txHashes reqs) at hmessage
      rcases taskMessages_sendBundle env i txHashes reqs with hpanic | ⟨error, rest, hsome, hrest⟩
      · rw [hpanic] at hmessage
        cases hmessage
      · rw [hsome, taskMessages, Option.getD_some, List.filterMap_cons, hrest] at hmessage
        cases error with
        | none =>
          obtain rfl := List.mem_singleton.mp hmessage
          exact .inr rfl
        | some error =>
          obtain rfl := List.mem_singleton.mp hmessage
          exact .inl rfl

/-- A batch of bundles has room for its successes, and nothing else to send. -/
theorem roomy_of_bundles {payloads : List ExecutionPayload}
    {tasks : List (Option (List SpamReport))}
    (hbundles : ∀ payload ∈ payloads, payload.signed? = none)
    (htasks : executeSpam cfg net trigger payloads = some tasks) (shifts : Nat)
    (onBatchSent : Option (Except Text Unit)) :
    (spamBatch env tasks payloads.length shifts onBatchSent).Roomy := by
  refine ⟨rfl, fun channel hchannel => ?_⟩
  rw [messages_spamBatch]
  by_cases hsuccess : channel = .success
  · subst hsuccess
    exact List.countP_le_length.trans (length_messages_le htasks)
  · have hzero : ((tasks.flatMap (taskMessages env)).countP
        fun message => message.channel = channel) = 0 := by
      refine List.countP_eq_zero.mpr fun message hmessage heq => ?_
      rw [decide_eq_true_eq] at heq
      rcases channel_of_bundles hbundles htasks hmessage with h | h
      · exact hchannel (heq.symm.trans h)
      · exact hsuccess (heq.symm.trans h)
    rw [hzero]
    exact Nat.zero_le _

/-- **Failed bundles.** Under every schedule the failure of a bundle surfaces, exactly
when it is not the only one of the batch, or the callback fails as well. -/
theorem surfacesFailure_iff {payloads : List ExecutionPayload}
    {tasks : List (Option (List SpamReport))}
    (hbundles : ∀ payload ∈ payloads, payload.signed? = none)
    (htasks : executeSpam cfg net trigger payloads = some tasks) (shifts : Nat)
    (onBatchSent : Option (Except Text Unit)) :
    (spamBatch env tasks payloads.length shifts onBatchSent).SurfacesFailure ↔
      failedSends tasks ≠ 1 ∨ onBatchSent.getD (.ok ()) ≠ .ok () := by
  rw [SpamBatch.surfacesFailure_iff_of_roomy (roomy_of_bundles hbundles htasks shifts onBatchSent),
    failures_spamBatch]
  rfl

end Messages

namespace FailingBuilder

def cfg : DispatchConfig where
  rpcBatchSize := 0
  sendRawTxSync := false
  bundleType := .revertProtected
  hasBundleClient := true

/-- Every bundle is refused. -/
def net : Network where
  sendTxEnvelope _ _ := .ok ()
  postSync _ := none
  postBatch _ _ := .error []
  blockByHash _ := .ok none
  latestBlock _ := .ok 1
  sendBundle _ _ := some (.error "refused".toList)

/-- The libraries, on empty call data. -/
def env : Env where
  keccak256 _ := 0xc5d2460186f7233c927e7db2dcc703c0e500b653ca82273b7bfad8045d85a470
  toLowercase := List.map Char.toLower
  build _ _ := .ok 5
  node _ := { getGasPrice := .ok 1000, getBlobBaseFee := .ok 1, getCodeAt := fun _ => .ok [],
              estimateGas := fun _ => .ok 21000 }

/-- A bundle of one transaction. -/
def bundle : ExecutionPayload := .signedTxBundle [5] [{ tx := { nonce := some 0 } }]

/-- The tasks of `n` bundles. -/
def tasks (n : Nat) : List (Option (List SpamReport)) :=
  List.replicate n
    (some [.bundleSent (some "refused".toList), .bundleTx 5 { tx := { nonce := some 0 } }])

/-- The failure of a single bundle is missed when its task has ended before the
collector looks at the error channel. -/
theorem not_surfacesFailure_of_one :
    executeSpam cfg net (.tick 0) [bundle] = some (tasks 1) ∧ failedSends (tasks 1) = 1 ∧
      ¬(spamBatch env (tasks 1) 1 1 none).SurfacesFailure := by
  have htasks : executeSpam cfg net (.tick 0) [bundle] = some (tasks 1) := by decide +kernel
  have hbundles : ∀ payload ∈ [bundle], payload.signed? = none := by decide
  refine ⟨htasks, by decide, fun hsurfaces => ?_⟩
  have hroomy : (spamBatch env (tasks 1) 1 1 none).Roomy := roomy_of_bundles hbundles htasks 1 none
  rcases (SpamBatch.surfacesFailure_iff_of_roomy hroomy).mp hsurfaces with hne | hsent
  · exact hne (by decide +kernel)
  · exact hsent rfl

/-- The second of two failures waits for the collector. -/
theorem surfacesFailure_of_two :
    0 < failedSends (tasks 2) ∧ (spamBatch env (tasks 2) 2 1 none).SurfacesFailure := by
  have htasks : executeSpam cfg net (.tick 0) [bundle, bundle] = some (tasks 2) := by
    decide +kernel
  exact ⟨by decide, (surfacesFailure_iff (by decide) htasks 1 none).mpr (.inl (by decide))⟩

end FailingBuilder

/-! ### Room for every message -/

section Room

open TestScenario Generator

variable {env : Env} {cfg : DispatchConfig} {net : Network} {trigger : SpamTrigger}

theorem length_prepareSpam {requests : List ExecutionRequest} {payloads : List ExecutionPayload}
    {s s' : TestScenario} (h : prepareSpam env requests s = .ok payloads s') :
    payloads.length = requests.length := by
  obtain ⟨⟨gasPrice, blobGasPrice⟩, t, -, hloop⟩ := EStateM.bind_eq_ok.mp h
  exact EStateM.length_of_mapM_eq_ok hloop

/-- The chunk of a tick is no longer than the first one. -/
theorem length_chunkAt_le {g : Generator} {txsPerPeriod numPeriods tick : Nat}
    {chunks : List (List Generated)} {chunk : List Generated}
    (hchunks : g.getSpamTxChunks txsPerPeriod numPeriods = .ok chunks)
    (hchunk : chunkAt chunks tick = some chunk) :
    ∃ first rest, chunks = first :: rest ∧ chunk.length ≤ first.length := by
  simp only [getSpamTxChunks, Except.bind_eq_ok_iff, orError_eq_ok] at hchunks
  obtain ⟨numTxs, -, generated, -, hcut⟩ := hchunks
  split_ifs at hcut with htxs
  obtain rfl := Except.pure_eq_ok_iff.mp hcut
  have hmem := List.mem_of_getElem? hchunk
  cases hcons : generated.chunksOf txsPerPeriod with
  | nil =>
    rw [hcons] at hmem
    cases hmem
  | cons first rest => exact ⟨first, rest, rfl, List.length_le_of_mem_chunksOf hcons hmem⟩

/-- No send of a task waits for room, but for the errors of bundles. -/
def BatchRun.NeverWaits (batch : SpamBatch) (r : BatchRun) : Prop :=
  ∀ i message rest, r.tasks[i]? = some ⟨message :: rest, false⟩ → message.channel ≠ .error →
    (r.step batch (.send i)).isSome

theorem BatchRun.neverWaits_of_roomy {batch : SpamBatch} {r : BatchRun} (hroomy : batch.Roomy)
    (h : r.Accounted batch) : r.NeverWaits batch := by
  intro i message rest htask hchannel
  simp only [BatchRun.step, htask, Option.isSome_map]
  unfold BatchRun.put
  split_ifs with hresult hroom
  · rfl
  · rfl
  · have hnone : r.result = none := by simpa using hresult
    exact absurd (h.room hnone htask (hroomy.others _ hchannel)) hroom

/-- The collector counts no more successes than the success channel holds. -/
theorem BatchRun.successes_pending_le {batch : SpamBatch} {r : BatchRun}
    (h : r.Accounted batch) (numPayloads : Nat) :
    (r.pending numPayloads).successes ≤ batch.capacity .success := by
  refine le_trans ?_ (h.held .success)
  unfold BatchRun.pending BatchRun.held
  rw [List.count, List.countP_filterMap]
  refine List.countP_mono_left fun message _ hsuccess => ?_
  cases message with
  | error e => cases hsuccess
  | spam message =>
    cases message with
    | success => rfl
    | addGas gas => cases hsuccess
    | shiftNonce a shift => cases hsuccess

/-- **Deferred batches.** For every tick of a plan and every outcome of its
transactions and bundles, the tasks send no more messages than their channels hold,
so that none of them waits although the channels are read only after all of them have
been awaited; and no more successes are counted than there are payloads. -/
theorem deferredBatch_fits {g : Generator} {txsPerPeriod numPeriods tick : Nat}
    {chunks : List (List Generated)} {chunk : List Generated}
    (hchunks : g.getSpamTxChunks txsPerPeriod numPeriods = .ok chunks)
    (hchunk : chunkAt chunks tick = some chunk) {s s' : TestScenario}
    {payloads : List ExecutionPayload}
    (hprepare : prepareSpam env (chunk.map Generated.request) s = .ok payloads s')
    {tasks : List (Option (List SpamReport))}
    (htasks : executeSpam cfg net trigger payloads = some tasks)
    (onBatchSent : Option (Except Text Unit)) :
    ∃ first ∈ chunks.head?,
      let batch := spamBatch env tasks payloads.length first.length onBatchSent
      (∀ channel, channel ≠ .error →
        (batch.messages.countP fun message => message.channel = channel) ≤
          batchCapacity payloads.length first.length channel) ∧
      ∀ events r, Execution.run (BatchRun.step batch) batch.spawn events = some r →
        r.NeverWaits batch ∧ (r.pending payloads.length).successes ≤ payloads.length := by
  obtain ⟨first, rest, rfl, hfirst⟩ := length_chunkAt_le hchunks hchunk
  refine ⟨first, rfl, ?_⟩
  have hpayloads : payloads.length ≤ first.length := by
    rw [length_prepareSpam hprepare, List.length_map]
    exact hfirst
  have hroomy : (spamBatch env tasks payloads.length first.length onBatchSent).Roomy := by
    refine ⟨rfl, fun channel hchannel => ?_⟩
    rw [messages_spamBatch]
    refine (List.countP_le_length.trans (length_messages_le htasks)).trans ?_
    cases channel with
    | error => exact absurd rfl hchannel
    | success => exact le_rfl
    | gas => exact le_rfl
    | nonce => exact hpayloads
  refine ⟨hroomy.others, fun events r hrun => ?_⟩
  have haccounted := BatchRun.accounted_of_run hrun
  exact ⟨BatchRun.neverWaits_of_roomy hroomy haccounted,
    BatchRun.successes_pending_le haccounted payloads.length⟩

end Room

namespace FourTransfers

def scenario : TestScenario where
  nonces := (AList.insert (0xdead : Address) 0 ∅).insert 1 0
  gasLimits := ∅
  signerMap := AList.insert (0xdead : Address) ⟨7, 0xdead⟩ ∅
  setcodeSigner := ⟨1, 1⟩
  txType := .legacy
  chainId := 1
  gasPrice := some 1000
  gasPriceAdder := 0
  lastFetchedGasPrice := none
  lastFetchedBlobGasPrice := none
  hasBundleClient := false
  rpcCalls := 0

/-- The request of each step, as it is sent with a nonce of its own. -/
def sent (kind : Char) (nonce : Nat) : NamedTxRequest where
  kind := some [kind]
  tx :=
    { fromAddr := some 0xdead, toKind := some (.call 0xdead), input := some []
      nonce := some nonce, gasPrice := some 1000, gas := some 21000 }

def txs : List NamedTxRequest := [sent 'a' 0, sent 'b' 1, sent 'c' 2, sent 'd' 3]

def prepared : TestScenario :=
  { scenario with
    nonces := (((scenario.nonces.insert 0xdead 1).insert 0xdead 2).insert 0xdead 3).insert 0xdead 4
    gasLimits := AList.insert (FailingBuilder.env.keccak256 []) 21000 ∅
    rpcCalls := 1 }

/-- Four transfers in one period: the tasks send four messages. -/
theorem deferredBatch_fits_four :
    let tasks := txs.map fun req => some [SpamReport.txOutcome 5 req none]
    let batch := spamBatch FailingBuilder.env tasks 4 4 none
    (∀ channel, channel ≠ .error →
      (batch.messages.countP fun message => message.channel = channel) ≤
        batchCapacity 4 4 channel) ∧
    ∀ events r, Execution.run (BatchRun.step batch) batch.spawn events = some r →
      r.NeverWaits batch ∧ (r.pending 4).successes ≤ 4 := by
  have hprepare : TestScenario.prepareSpam FailingBuilder.env
      (Generator.FourSteps.fourChunks[0].map Generator.Generated.request) scenario =
        .ok (txs.map fun req => .signedTx 5 req) prepared := rfl
  have hchunks : Generator.FourSteps.generator.getSpamTxChunks 4 1 =
      .ok Generator.FourSteps.fourChunks := by decide +kernel
  have hchunk : Generator.chunkAt Generator.FourSteps.fourChunks 0 =
      some Generator.FourSteps.fourChunks[0] := rfl
  have htasks : executeSpam FailingBuilder.cfg FailingBuilder.net (.tick 0)
      (txs.map fun req => .signedTx 5 req) =
        some (txs.map fun req => some [.txOutcome 5 req none]) := by decide +kernel
  obtain ⟨first, hfirst, hfits⟩ := deferredBatch_fits hchunks hchunk hprepare htasks none
  obtain rfl := Option.some.inj hfirst
  exact hfits

end FourTransfers

end Contender
