import Contender.Engine.AuthProvider
import Mathlib.Data.List.Chain

/-!
# Advancing the chain

`advance_chain` lets the node build one block: it asks for a payload on top of the latest block,
fetches the payload, sends it back to be executed and makes it the head of the chain. The tasks that
advance the chain do so again and again.

## Main results

* `advances_linked` — the blocks that repeated advances build on a node that follows its forkchoice
  form a chain
-/

namespace Contender.Engine

open EStateM (Triple)
open EngineM

namespace AuthProvider

variable (p : AuthProvider) (node : Node) (rounds : ℕ)

/-- The call of `engine_getPayload` for the message version. -/
def getPayload (payloadId : BitVec 64) : EngineM ExecutionPayload := do
  match p.messageVersion with
  | .v1 =>
    let calls ← record (.getPayload .v1 payloadId)
    return .v1 (← ofAnswer (node.getPayloadV1 calls))
  | .v2 =>
    let calls ← record (.getPayload .v2 payloadId)
    match ← ofAnswer (node.getPayloadV2 calls) with
    | .inl payload => return .v1 payload
    | .inr payload => return .v2 payload
  | .v3 =>
    let calls ← record (.getPayload .v3 payloadId)
    return .v3 (← ofAnswer (node.getPayloadV3 calls))
  | .v4 =>
    let calls ← record (.getPayload .v4 payloadId)
    return .v3 (← ofAnswer (node.getPayloadV4 calls))
  | .v5 => throw (.panicked "V5 is not yet supported")
  | .v6 => throw (.panicked "V6 is not yet supported")

def advanceChain (blockTimeSecs : ℕ) : EngineM Unit := do
  let block ← ofAnswer (node.latestBlock (← get).calls)
  let block ← expect "no block found" block
  let header := block.header
  -- the first call has the same hash for the parent and the new head
  let timestamp ← expect "attempt to add with overflow" (addU64 header.timestamp blockTimeSecs)
  let res ← p.callFcuDefault node rounds header.hash header.hash (some timestamp)
  let payloadId ← expect "need payload ID" res.payloadId
  let rq := header.requestsHash.getD 0
  let payload ← p.getPayload node payloadId
  let _ ← p.callNewPayload node rounds payload (some 0) [] (some rq)
  let _ ← p.callFcuDefault node rounds header.hash payload.toV1.blockHash none

/-- The task that advances the chain, in as many turns as it gets. -/
def advanceTask (blockTimeSecs turns : ℕ) : EngineM Unit :=
  (List.replicate turns blockTimeSecs).forM (p.advanceChain node rounds)

end AuthProvider

/-! ### The calls of an advance -/

/-- One advance: the latest block, the payload the node was asked for, and what it built. -/
structure Advance where
  parent : Block
  attributes : PayloadAttributes
  payloadId : BitVec 64
  built : ExecutionPayload

namespace Advance

variable (p : AuthProvider) (a : Advance)

/-- The call that asks for a payload on top of the parent. -/
def buildCall : EngineCall :=
  .forkchoiceUpdated p.messageVersion.forkchoice
    ⟨a.parent.header.hash, a.parent.header.hash, a.parent.header.hash⟩ (some a.attributes)

def fetchCall : EngineCall := .getPayload p.messageVersion a.payloadId

def executeCall : Option EngineCall :=
  newPayloadCall a.built (some 0) [] (some (a.parent.header.requestsHash.getD 0))

/-- The call that makes the payload the head. -/
def headCall : EngineCall :=
  .forkchoiceUpdated p.messageVersion.forkchoice
    ⟨a.built.toV1.blockHash, a.parent.header.hash, a.parent.header.hash⟩ none

def calls : List EngineCall :=
  a.buildCall p :: a.fetchCall p :: (a.executeCall.toList ++ [a.headCall p])

end Advance

/-- Some answer to this call is that the forkchoice is VALID. -/
def AnsweredValid (node : Node) (calls : List EngineCall) (updated : ForkchoiceUpdated) : Prop :=
  updated.status = .valid ∧ ∃ n, (node.forkchoiceUpdated calls).get? n = some (.ok updated)

/-- The node has gone through this advance, after the calls `before`. -/
structure HasAdvanced (p : AuthProvider) (node : Node) (blockTimeSecs : ℕ)
    (before : List EngineCall) (a : Advance) : Prop where
  parent : node.latestBlock before = .ok (some a.parent)
  timestamp : a.attributes.timestamp = a.parent.header.timestamp + blockTimeSecs
  op : a.attributes.op.isSome = p.isOp
  payloadId : ∃ updated, AnsweredValid node (before ++ [a.buildCall p]) updated ∧
    updated.payloadId = some a.payloadId
  executed : a.executeCall.isSome
  head : ∃ updated, AnsweredValid node (before ++ a.calls p) updated

/-- The advance has not come to its end: nothing was called, or the first calls of one on top of the
latest block. -/
def StoppedAdvance (p : AuthProvider) (node : Node) (s t : EngineState) : Prop :=
  t = s ∨ ∃ (a : Advance) (part : List EngineCall), node.latestBlock s.calls = .ok (some a.parent) ∧
    part <+: a.calls p ∧ t = ⟨s.calls ++ part, s.gasUsed⟩

section Advance

variable {s t : EngineState} {p : AuthProvider} {node : Node} {rounds : ℕ}

theorem ofAnswer_eq_ok {α : Type} {answer : Answer α} {a : α} :
    ofAnswer answer s = .ok a t ↔ answer = .ok a ∧ s = t := by
  cases answer with
  | ok b =>
    rw [ofAnswer, EStateM.pure_eq_ok, Except.ok.injEq]
  | error e => simp only [ofAnswer, EStateM.throw_eq_ok, reduceCtorEq, false_and]

theorem ofAnswer_eq_error {α : Type} {answer : Answer α} {e : AuthProviderError}
    (h : (ofAnswer answer : EngineM α) s = .error e t) : t = s := by
  cases answer with
  | ok b => exact (EStateM.pure_eq_error h).elim
  | error e' => exact (EStateM.throw_eq_error.mp h).2.symm

theorem expect_eq_ok {α : Type} {text : String} {o : Option α} {a : α} :
    expect text o s = .ok a t ↔ o = some a ∧ s = t := by
  cases o with
  | none => simp only [expect, EStateM.throw_eq_ok, reduceCtorEq, false_and]
  | some b => rw [expect, EStateM.pure_eq_ok, Option.some.injEq]

theorem expect_eq_error {α : Type} {text : String} {o : Option α} {e : AuthProviderError}
    (h : (expect text o : EngineM α) s = .error e t) : t = s := by
  cases o with
  | none => exact (EStateM.throw_eq_error.mp h).2.symm
  | some b => exact (EStateM.pure_eq_error h).elim

/-- The wait has ended with an answer of the node that is VALID. -/
theorem valid_of_ofWait_forkchoice {calls : List EngineCall} {updated : ForkchoiceUpdated}
    {text : String} {onSyncing : Option (WaitOutcome ForkchoiceUpdated)}
    (hsyncing : onSyncing ≠ some (.ok updated))
    (h : ofWait (Polling.poll (round ForkchoiceUpdated.status (.panicked text) onSyncing) rounds
      (node.forkchoiceUpdated calls)) s = .ok updated t) :
    AnsweredValid node calls updated := by
  generalize hwait : Polling.poll _ rounds (node.forkchoiceUpdated calls) = wait at h
  match wait, h with
  | some (.ok status), h =>
    obtain ⟨rfl, -⟩ := EStateM.pure_eq_ok.mp h
    obtain ⟨m, answer, hanswer, hround⟩ := Polling.exists_of_poll_eq_some hwait
    obtain ⟨rfl, hvalid⟩ := eq_ok_of_round_eq_ok (fun _ heq => by cases heq) hsyncing hround
    exact ⟨hvalid, m, hanswer⟩
  | some (.err _), h | some (.panicked _ _), h | none, h => exact (EStateM.throw_eq_ok h).elim

theorem callForkchoiceUpdated_eq_ok {state : ForkchoiceState}
    {attributes : Option PayloadAttributes} {updated : ForkchoiceUpdated}
    (h : p.callForkchoiceUpdated node rounds state attributes s = .ok updated t) :
    t = s.after (.forkchoiceUpdated p.messageVersion.forkchoice state attributes) ∧
      AnsweredValid node t.calls updated := by
  have ht := triple_callForkchoiceUpdated.of_ok rfl h
  refine ⟨ht, ?_⟩
  have hwait {version : EngineApiMessageVersion}
      {wait : ℕ → Stream'.Seq (Answer ForkchoiceUpdated) → Option (WaitOutcome ForkchoiceUpdated)}
      {text : String} {onSyncing : Option (WaitOutcome ForkchoiceUpdated)}
      (hversion : p.messageVersion.forkchoice = version)
      (hpoll : wait = Polling.poll (round ForkchoiceUpdated.status (.panicked text) onSyncing))
      (hsyncing : onSyncing ≠ some (.ok updated))
      (hrun : (do
        let calls ← record (.forkchoiceUpdated version state attributes)
        ofWait (wait rounds (node.forkchoiceUpdated calls))) s = .ok updated t) :
      AnsweredValid node t.calls updated := by
    obtain ⟨calls, u, hrecord, hend⟩ := EStateM.bind_eq_ok.mp hrun
    subst hpoll hversion
    have hcalls : calls = t.calls := by
      rw [ht]
      cases hrecord
      rfl
    exact hcalls ▸ valid_of_ofWait_forkchoice hsyncing hend
  cases hversion : p.messageVersion with
  | v6 | v5 =>
    simp only [AuthProvider.callForkchoiceUpdated, hversion, EStateM.throw_eq_ok] at h
  | v4 | v3 | v2 | v1 =>
    simp only [AuthProvider.callForkchoiceUpdated, hversion] at h
    exact hwait (by rw [hversion]; rfl) rfl (fun heq => by cases heq) h

theorem opParams_eq_ok {op : Option OpPayloadParams} (h : p.opParams s = .ok op t) :
    t = s ∧ op.isSome = p.isOp := by
  rw [AuthProvider.opParams] at h
  split at h
  case isTrue hop =>
    split_ifs at h
    · exact (EStateM.throw_eq_ok h).elim
    · exact (EStateM.throw_eq_ok h).elim
    · obtain ⟨rfl, rfl⟩ := EStateM.pure_eq_ok.mp h
      exact ⟨rfl, hop.symm⟩
  case isFalse hop =>
    obtain ⟨rfl, rfl⟩ := EStateM.pure_eq_ok.mp h
    exact ⟨rfl, (Bool.eq_false_of_not_eq_true hop).symm⟩

theorem callFcuDefault_eq_ok {currentHead newHead : B256} {timestamp : Option ℕ}
    {updated : ForkchoiceUpdated}
    (h : p.callFcuDefault node rounds currentHead newHead timestamp s = .ok updated t) :
    ∃ op : Option OpPayloadParams, op.isSome = p.isOp ∧
      t = s.after (.forkchoiceUpdated p.messageVersion.forkchoice
        ⟨newHead, currentHead, currentHead⟩
        (timestamp.map fun timestamp => { timestamp, op })) ∧
      AnsweredValid node t.calls updated := by
  obtain ⟨op, u, hop, hcall⟩ := EStateM.bind_eq_ok.mp h
  obtain ⟨rfl, hsome⟩ := opParams_eq_ok hop
  obtain ⟨ht, hvalid⟩ := callForkchoiceUpdated_eq_ok hcall
  exact ⟨op, hsome, ht, hvalid⟩

theorem callFcuDefault_eq_error {currentHead newHead : B256} {timestamp : Option ℕ}
    {e : AuthProviderError}
    (h : p.callFcuDefault node rounds currentHead newHead timestamp s = .error e t) :
    t = s ∨ ∃ op : Option OpPayloadParams,
      t = s.after (.forkchoiceUpdated p.messageVersion.forkchoice
        ⟨newHead, currentHead, currentHead⟩
        (timestamp.map fun timestamp => { timestamp, op })) := by
  rcases EStateM.bind_eq_error.mp h with hop | ⟨op, u, hop, hcall⟩
  · exact .inl (triple_opParams.of_error (P := (· = s)) rfl hop)
  · obtain ⟨rfl, -⟩ := opParams_eq_ok hop
    exact (triple_callForkchoiceUpdated.of_error rfl hcall).imp_right fun ht => ⟨op, ht⟩

/-- Fetching the payload is one call. -/
theorem triple_getPayload {payloadId : BitVec 64} :
    Triple (· = s) (p.getPayload node payloadId)
      (· = s.after (.getPayload p.messageVersion payloadId))
      (fun t => t = s ∨ t = s.after (.getPayload p.messageVersion payloadId)) := by
  have hanswer {α : Type} {answer : Answer α} {u : EngineState} :
      Triple (· = u) (ofAnswer answer) (· = u) (fun t => t = s ∨ t = u) := by
    cases answer with
    | ok a => exact Triple.pure (fun _ h => h) _
    | error e => exact Triple.throw (fun _ h => .inr h) _
  unfold AuthProvider.getPayload
  cases p.messageVersion with
  | v1 | v3 | v4 =>
    exact triple_record.bind fun _ => hanswer.bind fun _ => Triple.pure (fun _ h => h) _
  | v2 =>
    refine triple_record.bind fun _ => hanswer.bind fun payload => ?_
    cases payload with
    | inl payload | inr payload => exact Triple.pure (fun _ h => h) _
  | v5 | v6 => exact Triple.throw (fun _ h => .inl h) _

theorem after_append {calls part : List EngineCall} {gasUsed : ℕ} {call : EngineCall} :
    EngineState.after ⟨calls ++ part, gasUsed⟩ call = ⟨calls ++ (part ++ [call]), gasUsed⟩ := by
  rw [EngineState.after, List.append_assoc]

/-- An advance goes through its four calls, or stops at one of them. -/
theorem triple_advanceChain (blockTimeSecs : ℕ) :
    Triple (· = s) (p.advanceChain node rounds blockTimeSecs)
      (fun t => ∃ a : Advance, HasAdvanced p node blockTimeSecs s.calls a ∧
        t = ⟨s.calls ++ a.calls p, s.gasUsed⟩)
      (StoppedAdvance p node s) := by
  rw [AuthProvider.advanceChain]
  intro u hu
  rw [hu, EStateM.run_get_bind]
  refine Triple.bind_run (fun e t h => .inl (ofAnswer_eq_error h)) (fun block t h => ?_) s rfl
  obtain ⟨hlatest, rfl⟩ := ofAnswer_eq_ok.mp h
  refine Triple.bind_run (fun e t h => .inl (expect_eq_error h)) fun block t h => ?_
  obtain ⟨rfl, rfl⟩ := expect_eq_ok.mp h
  refine Triple.bind_run (fun e t h => .inl (expect_eq_error h)) fun timestamp t h => ?_
  obtain ⟨htimestamp, rfl⟩ := expect_eq_ok.mp h
  refine Triple.bind_run (fun e t h => ?_) fun updated t h => ?_
  · rcases callFcuDefault_eq_error h with rfl | ⟨op, rfl⟩
    · exact .inl rfl
    · exact .inr ⟨⟨block, { timestamp, op }, 0, block.toPayload⟩, _, hlatest,
        List.prefix_append [_] _, rfl⟩
  obtain ⟨op, hop, rfl, hupdated⟩ := callFcuDefault_eq_ok h
  refine Triple.bind_run (fun e t h => ?_) fun payloadId t h => ?_
  · rw [expect_eq_error h]
    exact .inr ⟨⟨block, { timestamp, op }, 0, block.toPayload⟩, _, hlatest,
      List.prefix_append [_] _, rfl⟩
  obtain ⟨hpayloadId, rfl⟩ := expect_eq_ok.mp h
  refine Triple.bind_run (fun e t h => ?_) fun built t h => ?_
  · rcases triple_getPayload.of_error rfl h with rfl | rfl
    · exact .inr ⟨⟨block, { timestamp, op }, payloadId, block.toPayload⟩, _, hlatest,
        List.prefix_append [_] _, rfl⟩
    · exact .inr ⟨⟨block, { timestamp, op }, payloadId, block.toPayload⟩, _, hlatest,
        List.prefix_append [_, _] _, after_append⟩
  rw [triple_getPayload.of_ok rfl h]
  -- from here on the advance is known, but for its end
  let a : Advance := ⟨block, { timestamp, op }, payloadId, built⟩
  have hfetched : EngineState.after (s.after (a.buildCall p)) (a.fetchCall p) =
      ⟨s.calls ++ [a.buildCall p, a.fetchCall p], s.gasUsed⟩ := after_append
  change Triple (· = EngineState.after (s.after (a.buildCall p)) (a.fetchCall p)) _ _ _
  rw [hfetched]
  have hpart {call : EngineCall} (hcall : a.executeCall = some call) :
      a.calls p = [a.buildCall p, a.fetchCall p] ++ [call] ++ [a.headCall p] := by
    rw [Advance.calls, hcall]
    rfl
  refine Triple.bind_run (fun e t h => .inr ⟨a, ?_⟩) fun version t h => ?_
  · rcases triple_callNewPayload.of_error rfl h with rfl | ⟨call, hcall, rfl⟩
    · exact ⟨_, hlatest, List.prefix_append [_, _] _, rfl⟩
    · exact ⟨_, hlatest, hpart hcall ▸ List.prefix_append _ _, after_append⟩
  obtain ⟨call, hcall, rfl⟩ := triple_callNewPayload.of_ok rfl h
  rw [after_append]
  refine Triple.bind_run (fun e t h => .inr ⟨a, ?_⟩) fun last t h => Triple.pure ?_ _
  · rcases callFcuDefault_eq_error h with rfl | ⟨op', rfl⟩
    · exact ⟨_, hlatest, hpart hcall ▸ List.prefix_append _ _, rfl⟩
    · exact ⟨_, hlatest, hpart hcall ▸ List.prefix_rfl, after_append⟩
  · rintro _ rfl
    obtain ⟨op', -, rfl, hhead⟩ := callFcuDefault_eq_ok h
    have hcalls : s.calls ++ ([a.buildCall p, a.fetchCall p] ++ [call]) ++ [a.headCall p] =
        s.calls ++ a.calls p := by
      rw [hpart hcall, List.append_assoc]
    refine ⟨a, ⟨hlatest, ?_, hop, ⟨updated, hupdated, hpayloadId⟩, ?_, last, ?_⟩, ?_⟩
    · exact (addU64_eq_some.mp htimestamp).1
    · exact Option.isSome_of_eq_some hcall
    · exact hcalls ▸ hhead
    · exact after_append.trans (by rw [hpart hcall]; rfl)

/-- The advances, each on top of the calls of those before it. -/
structure HaveAdvanced (p : AuthProvider) (node : Node) (blockTimeSecs : ℕ) (s : EngineState)
    (as : List Advance) (t : EngineState) : Prop where
  calls : t = ⟨s.calls ++ as.flatMap (·.calls p), s.gasUsed⟩
  each : ForallPlaces (fun done a =>
    HasAdvanced p node blockTimeSecs (s.calls ++ done.flatMap (·.calls p)) a) as

theorem HaveAdvanced.concat {blockTimeSecs : ℕ} {as : List Advance} {a : Advance}
    (h : HaveAdvanced p node blockTimeSecs s as t)
    (ha : HasAdvanced p node blockTimeSecs t.calls a) :
    HaveAdvanced p node blockTimeSecs s (as ++ [a]) ⟨t.calls ++ a.calls p, t.gasUsed⟩ where
  calls := by
    rw [h.calls, List.flatMap_append, List.flatMap_singleton, List.append_assoc]
  each := h.each.concat (by rw [h.calls] at ha; exact ha)

/-- Every turn of the task is one advance; the task ends early with the first one that fails. -/
theorem triple_advanceTask (blockTimeSecs turns : ℕ) :
    Triple (· = s) (p.advanceTask node rounds blockTimeSecs turns)
      (fun t => ∃ as : List Advance, as.length = turns ∧
        HaveAdvanced p node blockTimeSecs s as t)
      (fun t => ∃ as u, as.length < turns ∧ HaveAdvanced p node blockTimeSecs s as u ∧
        StoppedAdvance p node u t) := by
  have hloop := Triple.forM (l := List.replicate turns blockTimeSecs)
    (f := p.advanceChain node rounds)
    (I := fun done t => ∃ as : List Advance, as.length = done.length ∧
      HaveAdvanced p node blockTimeSecs s as t)
    (E := fun t => ∃ as u, as.length < turns ∧ HaveAdvanced p node blockTimeSecs s as u ∧
      StoppedAdvance p node u t) ?_
  · intro u hu
    have hnil : HaveAdvanced p node blockTimeSecs s [] u := by
      refine ⟨?_, .nil⟩
      rw [hu, List.flatMap_nil, List.append_nil]
    have hrun := hloop u ⟨[], rfl, hnil⟩
    rwa [List.length_replicate] at hrun
  · rintro done seconds rest hsplit u ⟨as, hlength, has⟩
    obtain rfl : seconds = blockTimeSecs := by
      refine List.eq_of_mem_replicate (n := turns) ?_
      rw [hsplit]
      exact List.mem_append_right _ List.mem_cons_self
    have hturns : done.length < turns := by
      have := congrArg List.length hsplit
      rw [List.length_replicate, List.length_append, List.length_cons] at this
      omega
    refine ((triple_advanceChain seconds).mono ?_ ?_) u rfl
    · rintro t ⟨a, ha, rfl⟩
      exact ⟨as ++ [a], by rw [List.length_append, List.length_append, hlength]; rfl, has.concat ha⟩
    · intro t ht
      exact ⟨as, u, hlength ▸ hturns, has, ht⟩

end Advance

/-- The latest block is the one that the forkchoice has just been VALID for. -/
def FollowsForkchoice (node : Node) : Prop :=
  ∀ calls version state attributes updated blk,
    AnsweredValid node (calls ++ [.forkchoiceUpdated version state attributes]) updated →
      node.latestBlock (calls ++ [.forkchoiceUpdated version state attributes]) = .ok (some blk) →
        blk.header.hash = state.headBlockHash

/-- On a node that follows its forkchoice, each advance builds on the block that the one before it
has built. -/
theorem advances_linked (p : AuthProvider) (node : Node) (rounds blockTimeSecs turns : ℕ)
    (s t : EngineState) (hnode : FollowsForkchoice node)
    (h : p.advanceTask node rounds blockTimeSecs turns s = .ok ⟨⟩ t) :
    ∃ as : List Advance, as.length = turns ∧ HaveAdvanced p node blockTimeSecs s as t ∧
      as.IsChain fun a b => b.parent.header.hash = a.built.toV1.blockHash := by
  obtain ⟨as, hlength, has⟩ := (triple_advanceTask blockTimeSecs turns).of_ok rfl h
  refine ⟨as, hlength, has, ?_⟩
  rw [List.isChain_iff_forall_rel_of_append_cons_cons]
  intro a b done rest hsplit
  have ha := has.each done a (b :: rest) hsplit
  have hb := has.each (done ++ [a]) b rest (by rw [hsplit, List.append_cons])
  obtain ⟨updated, hvalid⟩ := ha.head
  have hcalls : s.calls ++ done.flatMap (·.calls p) ++ a.calls p =
      s.calls ++ done.flatMap (·.calls p) ++
        (a.buildCall p :: a.fetchCall p :: a.executeCall.toList) ++ [a.headCall p] := by
    rw [Advance.calls, List.append_assoc _ _ [a.headCall p]]
    rfl
  have hparent := hb.parent
  rw [List.flatMap_append, List.flatMap_singleton, ← List.append_assoc, hcalls] at hparent
  rw [hcalls] at hvalid
  exact hnode _ _ _ _ _ _ hvalid hparent

namespace CountingNode

/-- The blocks of this node are numbered by their hashes. -/
def block (hash : B256) : Block where
  header := {
    hash, parentHash := hash - 1, beneficiary := 0, stateRoot := 0, receiptsRoot := 0,
    logsBloom := [], mixHash := none, number := hash.toNat, gasLimit := 0, gasUsed := 0,
    timestamp := hash.toNat, extraData := [], baseFeePerGas := none, blobGasUsed := some 0,
    excessBlobGas := some 0, parentBeaconBlockRoot := some 0, requestsHash := none }
  transactions := []
  withdrawals := none

def payload (hash : B256) : ExecutionPayloadV3 where
  payloadInner := ⟨{
    blockHash := hash, parentHash := hash - 1, feeRecipient := 0, stateRoot := 0,
    receiptsRoot := 0, logsBloom := [], prevRandao := 0, blockNumber := hash.toNat, gasLimit := 0,
    gasUsed := 0, timestamp := hash.toNat, extraData := [], baseFeePerGas := 0,
    transactions := [] }, []⟩
  blobGasUsed := 0
  excessBlobGas := 0

/-- The head of the last forkchoice. -/
def head (calls : List EngineCall) : B256 :=
  calls.foldl (fun hash call =>
    match call with
    | .forkchoiceUpdated _ state _ => state.headBlockHash
    | _ => hash) 0

def node : Node where
  blockNumber calls := .ok (head calls).toNat
  latestBlock calls := .ok (some (block (head calls)))
  block _ number := .ok (some (block number))
  forkchoiceUpdated _ := .ofList [.ok ⟨⟨.valid, none⟩, some 1⟩]
  newPayload _ := .ofList [.ok ⟨.valid, none⟩]
  getPayloadV1 _ := .error (.transport "unsupported fork")
  getPayloadV2 _ := .error (.transport "unsupported fork")
  getPayloadV3 calls := .ok (payload (head calls + 1))
  getPayloadV4 _ := .error (.transport "unsupported fork")

def provider : AuthProvider where
  isOp := false
  genesisExtraData := []
  genesisGasLimit := 0
  messageVersion := .v3
  opBlockInfoTx := []
  kzgToVersionedHash _ := 0

theorem followsForkchoice : FollowsForkchoice node := by
  intro calls version state attributes updated blk _ hlatest
  have hhead : head (calls ++ [.forkchoiceUpdated version state attributes]) =
      state.headBlockHash := by
    rw [head, List.foldl_append]
    rfl
  rw [← Option.some.inj (Except.ok.inj hlatest)]
  exact hhead

/-- Two turns build the blocks 1 and 2. -/
theorem advances_linked_counting :
    ∃ as t, provider.advanceTask node 1 1 2 ⟨[], 0⟩ = .ok ⟨⟩ t ∧ head t.calls = 2 ∧
      as.length = 2 ∧ HaveAdvanced provider node 1 ⟨[], 0⟩ as t ∧
      as.IsChain fun a b => b.parent.header.hash = a.built.toV1.blockHash := by
  have hrun : provider.advanceTask node 1 1 2 ⟨[], 0⟩ =
      .ok ⟨⟩ (provider.advanceTask node 1 1 2 ⟨[], 0⟩).state := rfl
  obtain ⟨as, has⟩ := advances_linked provider node 1 1 2 _ _ followsForkchoice hrun
  exact ⟨as, _, hrun, rfl, has⟩

end CountingNode

end Contender.Engine
