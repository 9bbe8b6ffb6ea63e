import Mathlib.Data.Finset.Card
import Contender.Spammer.BlockCoverage
import Contender.Spammer.Representation
import Contender.Spammer.StaleBlocks

/-!
# Giving up on stale blocks

A cancelled flush loop gives up when `STALE_BLOCK_LIMIT` blocks left the number of pending
transactions as it was. Its counter adds the length of a range whether its blocks were processed
or not, and a block that failed is processed and counted again. Where no block of a cancelled
loop fails and no snapshot stays away, the counter stands for blocks that were processed.

That these blocks are distinct, and that nothing they confirmed is pending, rests on the actor: a
removal raises its target past the block and takes the confirmed transactions out of its cache. An
`InitCtx` that lowers the target again, and a `SentRunTx` that puts a confirmed transaction back,
undo it.
-/

namespace Contender

open Semantics

/-- The removal that a request asks for. -/
def FlushRequest.removal? : FlushRequest → Option (List TxHash × Nat)
  | .getSnapshot => none
  | .removeConfirmed confirmedTxHashes newTargetBlock => some (confirmedTxHashes, newTargetBlock)

/-- The removal that is about to be requested. -/
def FlushPc.removal? : FlushPc → Option (List TxHash × Nat)
  | .confirmed range hashes => some (hashes, range.bn + 1)
  | _ => none

/-- The target block that a message sets. -/
def TxActorMessage.newTarget? : TxActorMessage → Option Nat
  | .initCtx ctx => some ctx.targetBlock
  | _ => none

/-- The transaction that a message puts into the cache. -/
def TxActorMessage.sentTx? : TxActorMessage → Option TxHash
  | .sentRunTx txHash _ _ _ _ _ => some txHash
  | _ => none

namespace FlushLoop

variable {chain : Chain} {l l' : FlushLoop} {input : FlushInput} {rows : List RunRow}
  {ok : ProcessedBlocks} {a : TxActor}

/-- The removals that the actor has still to make for the loop. -/
def removals (l : FlushLoop) : List (List TxHash × Nat) :=
  l.pc.removal?.toList ++ l.queue.filterMap FlushRequest.removal?

theorem mem_removals {removal : List TxHash × Nat} : removal ∈ l.removals ↔
    l.pc.removal? = some removal ∨ ∃ request ∈ l.queue, request.removal? = some removal := by
  simp [removals]

/-- What the loop asks for reaches its channel and stays there. -/
theorem Move.mem_queue (hmove : Move chain l input l' rows) {request : FlushRequest}
    (h : request ∈ l.queue) : request ∈ l'.queue := by
  cases hmove with
  | ask hpc hopen heq =>
    subst heq
    exact List.mem_append_left _ h
  | record hpc hinput processed heq =>
    subst heq
    exact h
  | remove hpc heq =>
    subst heq
    dsimp only
    split_ifs
    · exact h
    · exact List.mem_append_left _ h
  | rest _ _ frame => exact frame.queue ▸ h
  | settle _ _ _ frame => exact frame.queue ▸ h
  | enter _ _ _ frame => exact frame.queue ▸ h
  | proceed _ _ _ frame => exact frame.queue ▸ h
  | skip _ _ frame => exact frame.queue ▸ h
  | giveUp _ _ frame => exact frame.queue ▸ h

private theorem removal?_eq_some {pc : FlushPc} {removal : List TxHash × Nat}
    (h : pc.removal? = some removal) :
    ∃ range hashes, pc = .confirmed range hashes ∧ removal = (hashes, range.bn + 1) := by
  cases pc with
  | confirmed range hashes => exact ⟨range, hashes, rfl, (Option.some.inj h).symm⟩
  | _ => cases h

theorem Move.mem_removals (hmove : Move chain l input l' rows) (hopen : l.receiver ≠ .closed)
    {removal : List TxHash × Nat} (h : removal ∈ l.removals) : removal ∈ l'.removals := by
  rw [FlushLoop.mem_removals] at h ⊢
  obtain hpc | ⟨request, hmem, hrequest⟩ := h
  · obtain ⟨range, hashes, hconfirmed, rfl⟩ := removal?_eq_some hpc
    right
    cases hmove with
    | @remove r hashes' hpc' heq =>
      obtain ⟨rfl, rfl⟩ := FlushPc.confirmed.inj (hconfirmed.symm.trans hpc')
      subst heq
      refine ⟨.removeConfirmed hashes (range.bn + 1), ?_, rfl⟩
      dsimp only
      rw [if_neg hopen]
      exact List.mem_append_right _ (List.mem_singleton_self _)
    | ask hpc' => rw [hconfirmed] at hpc'; cases hpc'
    | rest hpc' =>
      rw [hconfirmed] at hpc'
      obtain h | ⟨-, h | ⟨_, h⟩⟩ := hpc' <;> cases h
    | settle hpc' =>
      rw [hconfirmed] at hpc'
      obtain ⟨_, hasks⟩ := hpc'
      cases hasks
    | enter hpc' => rw [hconfirmed] at hpc'; cases hpc'
    | proceed hpc' => rw [hconfirmed] at hpc'; cases hpc'
    | record hpc' => rw [hconfirmed] at hpc'; cases hpc'
    | skip hpc' => rw [hconfirmed] at hpc'; cases hpc'
    | giveUp hpc' => rw [hconfirmed] at hpc'; cases hpc'
  · exact .inr ⟨request, hmove.mem_queue hmem, hrequest⟩

/-- The loop takes an answer and never leaves one. -/
theorem Move.reply_ne_sent (hmove : Move chain l input l' rows) (hsound : l.Sound)
    (snapshot : Snapshot) : l'.reply ≠ .sent snapshot := by
  have hshape := (hmove.sound hsound).shape
  have hresting : l'.pc.Resting → l'.reply ≠ .sent snapshot := by
    intro hpc
    rw [((shape_of_resting hpc _ _).mp hshape).2]
    simp
  cases hmove with
  | ask hpc hopen heq => simp [heq]
  | rest _ hpc' => exact hresting hpc'
  | settle _ _ hpc' => exact hresting hpc'
  | giveUp _ hpc' => exact hresting hpc'
  | enter _ _ _ _ hreply' => simp [hreply']
  | proceed _ _ _ _ hreply' => simp [hreply']
  | record hpc hinput processed heq =>
    subst heq
    rw [hshape.2]
    simp
  | skip _ hpc' =>
    rw [hpc'] at hshape
    rw [hshape.2]
    simp
  | remove hpc heq =>
    subst heq
    rw [hshape.1]
    simp

/-- The loop is inside a range only by an answer with a context. -/
theorem Move.nextBlock (hmove : Move chain l input l' rows) (h : l'.pc.nextBlock ≠ none) :
    l.pc.nextBlock ≠ none ∨ ∃ txs ctx, l.reply = .sent ⟨txs, some ctx⟩ := by
  cases hmove with
  | ask hpc hopen heq =>
    subst heq
    exact .inl (hpc.nextBlock ▸ h)
  | rest _ hpc' => exact absurd hpc'.nextBlock h
  | settle _ _ hpc' => exact absurd hpc'.nextBlock h
  | giveUp _ hpc' => exact absurd hpc'.nextBlock h
  | enter _ hreply => exact .inr ⟨_, _, hreply⟩
  | proceed _ hreply => exact .inr ⟨_, _, hreply⟩
  | record hpc => exact .inl (by simp [hpc, FlushPc.nextBlock])
  | skip hpc => exact .inl (by simp [hpc, FlushPc.nextBlock])
  | remove hpc => exact .inl (by simp [hpc, FlushPc.nextBlock])

/-! ### Outside the loop's own steps -/

/-- Only the channel differs, in which no answer arrived, and the cancel token may be set. -/
structure Alike (l l' : FlushLoop) : Prop where
  pc : l'.pc = l.pc
  counters : l.SameCounters l'
  cancelled : l'.cancelled = false → l.cancelled = false
  reply : ∀ snapshot, l'.reply = .sent snapshot → l.reply = .sent snapshot

theorem alike_close (l : FlushLoop) : l.Alike l.close := by
  refine ⟨rfl, ⟨rfl, rfl⟩, id, fun snapshot h => ?_⟩
  unfold close at h
  dsimp only at h
  split at h
  · cases h
  · exact h

theorem alike_attach (l : FlushLoop) : l.Alike { l with receiver := .attached } :=
  ⟨rfl, ⟨rfl, rfl⟩, id, fun _ => id⟩

theorem alike_cancel (l : FlushLoop) : l.Alike { l with cancelled := true } :=
  ⟨rfl, ⟨rfl, rfl⟩, fun h => (by cases h), fun _ => id⟩

theorem Counted.congr (hcounted : l.Counted ok) (halike : l.Alike l') : l'.Counted ok where
  before h := by
    rw [halike.counters.2]
    exact hcounted.before (halike.cancelled h)
  nodup := hcounted.nodup
  counted h := by
    rw [halike.counters.1, halike.pc]
    exact hcounted.counted (halike.counters.2 ▸ h)
  start range h := hcounted.start range (halike.pc ▸ h)
  below n h := hcounted.below n (halike.pc ▸ h)

/-- A request that the actor takes leaves the counters alone. -/
theorem Counted.answer (hcounted : l.Counted ok) {rest : List FlushRequest} {snapshot : Snapshot}
    {request : FlushRequest} : (System.answer l rest snapshot request).Counted ok := by
  cases request <;>
    exact ⟨hcounted.before, hcounted.nodup, hcounted.counted, hcounted.start, hcounted.below⟩

theorem Answered.congr (hanswered : l.Answered ok) (halike : l.Alike l') : l'.Answered ok where
  target txs ctx h := hanswered.target txs ctx (halike.reply _ h)
  removed snapshot h := hanswered.removed snapshot (halike.reply _ h)
  context range txs hpc h := hanswered.context range txs (halike.pc ▸ hpc) (halike.reply _ h)

/-- A loop that has not taken an answer yet. -/
theorem counted_nil (hlast : l.lastPendingCount = 2 ^ 64 - 1) (hpc : l.pc.Resting) :
    l.Counted [] where
  before _ := ⟨hlast, rfl⟩
  nodup := List.nodup_nil
  counted h := absurd hlast h
  start range h := by
    rw [hpc.range?] at h
    cases h
  below _ _ e he := absurd he List.not_mem_nil

theorem answered_nil (hpc : l.pc.Resting) : l.Answered [] where
  target _ _ _ e he := absurd he List.not_mem_nil
  removed _ _ e he := absurd he List.not_mem_nil
  context range txs h := by
    rw [h] at hpc
    rcases hpc with h | h | h | h <;> cases h

/-- The actor that serves the loop is past every block processed, and has removed what they
confirmed, or will have once the removals are made. -/
structure Settled (l : FlushLoop) (a : TxActor) (ok : ProcessedBlocks) : Prop where
  context : l.pc.nextBlock ≠ none ∨ (∃ txs ctx, l.reply = .sent ⟨txs, some ctx⟩) → a.ctx ≠ none
  target : ∀ e ∈ ok, (∃ ctx, a.ctx = some ctx ∧ e.1 < ctx.targetBlock) ∨
    ∃ removal ∈ l.removals, e.1 < removal.2
  removed : ∀ e ∈ ok, ∀ h ∈ e.2, h ∈ a.cache → ∃ removal ∈ l.removals, h ∈ removal.1

theorem settled_nil (hpc : l.pc.nextBlock = none) (hreply : ∀ snapshot, l.reply ≠ .sent snapshot) :
    l.Settled a [] where
  context h := by
    obtain h | ⟨txs, ctx, h⟩ := h
    · exact absurd hpc h
    · exact absurd h (hreply _)
  target _ he := absurd he List.not_mem_nil
  removed _ he := absurd he List.not_mem_nil

/-- A step of the loop adds at most the block it is about to have removed. -/
theorem Settled.step (hsettled : l.Settled a ok) (hsound : l.Sound) (hopen : l.receiver ≠ .closed)
    (hstep : l.step chain input = some (l', rows)) :
    l'.Settled a (ok ++ l.processedOk chain input) := by
  have hmove := move_of_step hstep
  have hnew : ∀ e ∈ l.processedOk chain input, (e.2, e.1 + 1) ∈ l'.removals := by
    intro e he
    obtain hnone | ⟨range, hashes, -, -, hok, hpc'⟩ := processedOk_cases hstep
    · rw [hnone] at he
      exact absurd he List.not_mem_nil
    · rw [hok] at he
      obtain rfl := List.mem_singleton.mp he
      exact mem_removals.mpr (.inl (by rw [hpc']; rfl))
  refine ⟨fun h => ?_, fun e he => ?_, fun e he h hh hcached => ?_⟩
  · obtain hnext | ⟨txs, ctx, hreply⟩ := h
    · exact hsettled.context (hmove.nextBlock hnext)
    · exact absurd hreply (hmove.reply_ne_sent hsound _)
  · obtain he | he := List.mem_append.mp he
    · exact (hsettled.target e he).imp_right fun ⟨removal, hmem, hlt⟩ =>
        ⟨removal, hmove.mem_removals hopen hmem, hlt⟩
    · exact .inr ⟨_, hnew e he, Nat.lt_succ_self _⟩
  · obtain he | he := List.mem_append.mp he
    · obtain ⟨removal, hmem, hin⟩ := hsettled.removed e he h hh hcached
      exact ⟨removal, hmove.mem_removals hopen hmem, hin⟩
    · exact ⟨_, hnew e he, hh⟩

/-- After a step of its own the loop has no answer to take. -/
theorem answered_of_step (hsound : l.Sound) (hstep : l.step chain input = some (l', rows)) :
    l'.Answered ok where
  target _ _ h := absurd h ((move_of_step hstep).reply_ne_sent hsound _)
  removed _ h := absurd h ((move_of_step hstep).reply_ne_sent hsound _)
  context _ _ _ h := absurd h ((move_of_step hstep).reply_ne_sent hsound _)

/-! ### The actor's steps -/

/-- What a message may do to the actor that serves the loop: it keeps the target past the blocks
processed, and sends nothing that they confirmed, unless the removal is still to be made. -/
def Keeps (l : FlushLoop) (ok : ProcessedBlocks) (m : TxActorMessage) : Prop :=
  (∀ target ∈ m.newTarget?, ∀ e ∈ ok, e.1 < target ∨ ∃ removal ∈ l.removals, e.1 < removal.2) ∧
    ∀ h ∈ m.sentTx?, ∀ e ∈ ok, h ∈ e.2 → ∃ removal ∈ l.removals, h ∈ removal.1

instance (l : FlushLoop) (ok : ProcessedBlocks) (m : TxActorMessage) :
    Decidable (l.Keeps ok m) :=
  have (h : TxHash) (hs : List TxHash) : Decidable (h ∈ hs) :=
    decidable_of_iff (hs.elem h = true) List.elem_iff
  -- the instance for a quantifier over all hashes would enumerate them
  @instDecidableAnd _ _ (Option.decidableForallMem _) (Option.decidableForallMem _)

/-- Only `SentRunTx` adds to the cache. -/
private theorem mem_cache_handleMessage {inserted : Bool} {m : TxActorMessage} {h : TxHash}
    (hmem : h ∈ (a.handleMessage inserted m).actor.cache) : h ∈ a.cache ∨ m.sentTx? = some h := by
  have htouch : TxActor.Touch a (.message m inserted) (a.handleMessage inserted m).actor :=
    TxActor.touch_handle a (.message m inserted)
  generalize (a.handleMessage inserted m).actor = b at htouch hmem
  cases htouch with
  | keep _ _ hcache => exact .inl (hcache ▸ hmem)
  | send hcache =>
    rw [hcache] at hmem
    obtain rfl | hold := (AList.mem_insert _).mp hmem
    · exact .inr rfl
    · exact .inl hold
  | remove _ _ removed hcache =>
    obtain ⟨tx, htx⟩ := AList.mem_iff_lookup.mp hmem
    rw [hcache] at htx
    split_ifs at htx
    exact .inl (AList.mem_iff_lookup.mpr ⟨tx, htx⟩)

theorem Settled.handleMessage (hsettled : l.Settled a ok) {inserted : Bool} {m : TxActorMessage}
    (hkeeps : l.Keeps ok m) : l.Settled (a.handleMessage inserted m).actor ok where
  context h := by
    rw [System.handleMessage_ctx]
    split
    · simp
    · exact hsettled.context h
  target e he := by
    rw [System.handleMessage_ctx]
    split
    · exact (hkeeps.1 _ rfl e he).imp_left fun hlt => ⟨_, rfl, hlt⟩
    · exact hsettled.target e he
  removed e he h hh hmem := by
    obtain hcached | hsent := mem_cache_handleMessage hmem
    · exact hsettled.removed e he h hh hcached
    · exact hkeeps.2 h hsent e he hh

/-- Handling a removal raises the target past its block and never lowers it. -/
private theorem target_of_removal (confirmed : List TxHash) (newTarget nowMs : Nat)
    (hctx : a.ctx ≠ none) :
    ∃ ctx, (a.handleFlushRequest nowMs (.removeConfirmed confirmed newTarget)).ctx = some ctx ∧
      newTarget ≤ ctx.targetBlock ∧
      ∀ before, a.ctx = some before → before.targetBlock ≤ ctx.targetBlock := by
  obtain ⟨before, hbefore⟩ := Option.ne_none_iff_exists'.mp hctx
  refine ⟨TxActor.advanceTarget newTarget before, ?_, ?_⟩
  · simp [TxActor.handleFlushRequest, hbefore]
  · simp only [hbefore, Option.some.injEq, forall_eq']
    refine ⟨?_, (TxActor.le_advanceTarget newTarget before).2⟩
    unfold TxActor.advanceTarget
    split_ifs with hlt
    · exact le_rfl
    · exact not_lt.mp hlt

/-- A snapshot is taken when no removal is left to make. -/
private theorem Settled.serve_getSnapshot (hsettled : l.Settled a ok) (hkeyed : a.Keyed)
    (hqueue : l.queue = [.getSnapshot]) (hawaits : l.pc.Awaits) :
    (System.answer l [] a.snapshot .getSnapshot).Answered ok ∧
      (System.answer l [] a.snapshot .getSnapshot).Settled a ok := by
  have hnone : l.removals = [] := by
    obtain ⟨origin, hasks⟩ := hawaits
    unfold removals
    rw [hqueue]
    generalize l.pc = pc at hasks
    cases hasks <;> rfl
  have htarget : ∀ e ∈ ok, ∃ ctx, a.ctx = some ctx ∧ e.1 < ctx.targetBlock := by
    intro e he
    refine (hsettled.target e he).resolve_right fun ⟨removal, hmem, _⟩ => ?_
    rw [hnone] at hmem
    exact absurd hmem List.not_mem_nil
  have hremoved : ∀ e ∈ ok, ∀ h ∈ e.2, h ∉ a.cache := by
    intro e he h hh hcached
    obtain ⟨removal, hmem, -⟩ := hsettled.removed e he h hh hcached
    rw [hnone] at hmem
    exact absurd hmem List.not_mem_nil
  constructor
  · refine ⟨fun txs ctx hreply e he => ?_, fun snapshot hreply e he h hh hmem => ?_,
      fun range txs hpc hreply => ?_⟩
    · obtain ⟨ctx', hctx, hlt⟩ := htarget e he
      have hsame : a.ctx = some ctx := congrArg Snapshot.ctx (SnapshotReply.sent.inj hreply)
      obtain rfl := Option.some.inj (hctx.symm.trans hsame)
      exact hlt
    · obtain rfl : a.snapshot = snapshot := SnapshotReply.sent.inj hreply
      exact hremoved e he h hh (hkeyed.mem_values.mp hmem)
    · -- inside a range the actor has a context
      have hctx : a.ctx = none := congrArg Snapshot.ctx (SnapshotReply.sent.inj hreply)
      have hpc' : l.pc = .refreshReply range := hpc
      exact hsettled.context (.inl (by simp [hpc', FlushPc.nextBlock])) hctx
  · refine ⟨fun h => ?_, fun e he => .inl (htarget e he),
      fun e he h hh hcached => absurd hcached (hremoved e he h hh)⟩
    obtain hnext | ⟨txs, ctx, hreply⟩ := h
    · exact hsettled.context (.inl hnext)
    · have hctx : a.ctx = some ctx := congrArg Snapshot.ctx (SnapshotReply.sent.inj hreply)
      simp [hctx]

/-- A removal settles the block it was requested for. -/
private theorem Settled.serve_removeConfirmed (hsettled : l.Settled a ok) {range : BlockRange}
    {confirmed : List TxHash} {rest : List FlushRequest} (nowMs : Nat)
    (hinside : l.pc.nextBlock ≠ none) (hone : l.removals = [(confirmed, range.bn + 1)]) :
    (System.answer l rest a.snapshot (.removeConfirmed confirmed (range.bn + 1))).Settled
      (a.handleFlushRequest nowMs (.removeConfirmed confirmed (range.bn + 1))) ok := by
  obtain ⟨ctx, hctx, hraised, hkept⟩ :=
    target_of_removal confirmed (range.bn + 1) nowMs (hsettled.context (.inl hinside))
  refine ⟨fun _ => by simp [hctx], fun e he => .inl ⟨ctx, hctx, ?_⟩, fun e he h hh hcached => ?_⟩
  · obtain ⟨before, hbefore, hlt⟩ | ⟨removal, hmem, hlt⟩ := hsettled.target e he
    · exact hlt.trans_le (hkept before hbefore)
    · rw [hone] at hmem
      obtain rfl := List.mem_singleton.mp hmem
      exact hlt.trans_le hraised
  · obtain ⟨hbefore, hconfirmed⟩ := AList.mem_eraseAll.mp hcached
    obtain ⟨removal, hmem, hin⟩ := hsettled.removed e he h hh hbefore
    rw [hone] at hmem
    obtain rfl := List.mem_singleton.mp hmem
    exact absurd hin hconfirmed

/-- **Serving the loop.** -/
theorem Settled.serve (hsettled : l.Settled a ok) (hanswered : l.Answered ok) (hsound : l.Sound)
    (hkeyed : a.Keyed) {request : FlushRequest} {rest : List FlushRequest}
    (hqueue : l.queue = request :: rest) (nowMs : Nat) :
    (System.answer l rest a.snapshot request).Answered ok ∧
      (System.answer l rest a.snapshot request).Settled
        (a.handleFlushRequest nowMs request) ok := by
  obtain ⟨rfl, rfl, hawaits, -⟩ | ⟨range, confirmed, rfl, hcases⟩ := hsound.request_cases hqueue
  · exact hsettled.serve_getSnapshot hkeyed hqueue hawaits
  · refine ⟨⟨hanswered.target, hanswered.removed, hanswered.context⟩,
      hsettled.serve_removeConfirmed nowMs ?_ ?_⟩
    · obtain ⟨hpc, -⟩ | ⟨hpc, -⟩ := hcases <;> simp [hpc, FlushPc.nextBlock]
    · -- the channel holds no other removal
      unfold removals
      rw [hqueue]
      obtain ⟨hpc, rfl, -⟩ | ⟨hpc, rfl, -⟩ := hcases <;> rw [hpc] <;> rfl

end FlushLoop

namespace System

variable {chain : Chain} {s t : System} {k : Nat} {ok : ProcessedBlocks}

/-- The block that loop `k` processes with `Ok` in an action, once it is cancelled. -/
def processedOk (chain : Chain) (k : Nat) (s : System) : Action → ProcessedBlocks
  | .flush j input => if j = k then (s.loops k).processedOk chain input else []
  | _ => []

/-- What is asked of an action for the sake of loop `k`. -/
def Steady (chain : Chain) (k : Nat) (p : System × ProcessedBlocks) : Action → Prop
  | .flush j input => j = k → (p.1.loops k).cancelled = true → (p.1.loops k).Steady chain input
  | .message m _ => ∀ a ∈ p.1.actor, a.flushReceiver = k → (p.1.loops k).Keeps p.2 m
  | _ => True

instance (chain : Chain) (k : Nat) (p : System × ProcessedBlocks) :
    ∀ action, Decidable (Steady chain k p action)
  | .flush j input => inferInstanceAs (Decidable
      (j = k → (p.1.loops k).cancelled = true → (p.1.loops k).Steady chain input))
  | .message m _ => inferInstanceAs (Decidable
      (∀ a ∈ p.1.actor, a.flushReceiver = k → (p.1.loops k).Keeps p.2 m))
  | .stopSignal => isTrue trivial
  | .flushRequest _ => isTrue trivial
  | .flashblockMark _ => isTrue trivial
  | .restartFlush => isTrue trivial
  | .cancel _ => isTrue trivial

/-- What is known of loop `k` and the blocks it processed. -/
structure Tracked (k : Nat) (s : System) (ok : ProcessedBlocks) : Prop where
  wellFormed : s.WellFormed
  counted : (s.loops k).Counted ok
  answered : (s.loops k).Answered ok
  unread : s.spawned ≤ k ∨ (s.loops k).receiver = .inTransit → ok = []
  settled : ∀ a, s.actor = some a → a.flushReceiver = k → (s.loops k).Settled a ok

theorem tracked_init (k : Nat) : init.Tracked k [] := by
  have hresting : (init.loops k).pc.Resting ∧ (init.loops k).lastPendingCount = 2 ^ 64 - 1 ∧
      (init.loops k).reply = .idle := by
    by_cases hk : k = 0
    · subst hk
      exact ⟨.inl rfl, rfl, rfl⟩
    · have hloop : init.loops k = FlushLoop.unspawned := by
        simp [init, Function.update_of_ne hk]
      rw [hloop]
      exact ⟨.inr (.inr (.inl rfl)), rfl, rfl⟩
  obtain ⟨hpc, hlast, hreply⟩ := hresting
  exact ⟨wellFormed_init, FlushLoop.counted_nil hlast hpc, FlushLoop.answered_nil hpc,
    fun _ => rfl, fun _ _ _ => FlushLoop.settled_nil hpc.nextBlock (by simp [hreply])⟩

/-- What is known of a loop does not depend on the rest of the system, the actor apart. -/
private theorem tracked_of_eq {l : FlushLoop} (hwf : t.WellFormed) (hloop : t.loops k = l)
    (hcounted : l.Counted ok) (hanswered : l.Answered ok)
    (hunread : t.spawned ≤ k ∨ l.receiver = .inTransit → ok = [])
    (hsettled : ∀ a, t.actor = some a → a.flushReceiver = k → l.Settled a ok) :
    t.Tracked k ok := by
  subst hloop
  exact ⟨hwf, hcounted, hanswered, hunread, hsettled⟩

/-- The outcome of a handled message, when the actor it leaves is settled. -/
private theorem tracked_deliver {l : FlushLoop} {handled : Handled}
    (hwf : (s.deliver handled).WellFormed) (hloop : s.loops k = l) (hcounted : l.Counted ok)
    (hanswered : l.Answered ok) (hunread : s.spawned ≤ k ∨ l.receiver = .inTransit → ok = [])
    (hsettled : handled.actor.flushReceiver = k → l.Settled handled.actor ok) :
    (s.deliver handled).Tracked k ok := by
  subst hloop
  unfold deliver at hwf ⊢
  cases hsurvivor : TxActor.survivor handled with
  | some a =>
    rw [hsurvivor] at hwf
    obtain ⟨-, -, rfl⟩ := TxActor.survivor_eq_some.mp hsurvivor
    refine ⟨hwf, hcounted, hanswered, hunread, fun a ha hread => ?_⟩
    obtain rfl := Option.some.inj ha
    exact hsettled hread
  | none =>
    rw [hsurvivor] at hwf
    have halike := FlushLoop.alike_close (s.loops k)
    refine ⟨hwf, hcounted.congr halike, hanswered.congr halike, fun h => hunread ?_,
      fun a ha => by cases ha⟩
    exact h.imp_right fun hclosed => by cases hclosed

/-- A loop in transit has no answer and is in no range. -/
private theorem settled_of_inTransit {l : FlushLoop} {a : TxActor} (hsound : l.Sound)
    (htransit : l.receiver = .inTransit) : l.Settled a [] := by
  obtain hpc | ⟨hpc, hreply⟩ := hsound.inTransit htransit
  · have hidle := hsound.shape
    rw [hpc] at hidle
    exact FlushLoop.settled_nil (by rw [hpc]; rfl) (by simp [hidle.2])
  · exact FlushLoop.settled_nil (by rw [hpc]; rfl) (by simp [hreply])

private theorem Tracked.message (htracked : s.Tracked k ok) {m : TxActorMessage} {inserted : Bool}
    (hsteady : Steady chain k (s, ok) (.message m inserted))
    (hstep : s.step chain (.message m inserted) = some t) : t.Tracked k ok := by
  have hwf := htracked.wellFormed.step hstep
  obtain ⟨a, received, hactor, hreceive, rfl⟩ := step_message.mp hstep
  have hreceiver := TxActor.handleMessage_flushReceiver a inserted m
  have hsettled : a.flushReceiver = k →
      (s.loops k).Settled (a.handleMessage inserted m).actor ok := fun hread =>
    (htracked.settled a hactor hread).handleMessage (hsteady a hactor hread)
  cases m with
  | replaceFlushReceiver j =>
    obtain ⟨htransit, rfl⟩ := receive_replaceFlushReceiver.mp hreceive
    by_cases hj : j = k
    · -- the loop that is served from now on has not read anything
      subst hj
      obtain rfl := htracked.unread (.inr htransit)
      have halike := FlushLoop.alike_attach (s.loops j)
      have hunsettled := settled_of_inTransit
        (a := (a.handleMessage inserted (.replaceFlushReceiver j)).actor)
        (htracked.wellFormed.sound j) htransit
      exact tracked_deliver hwf (Function.update_self ..) (htracked.counted.congr halike)
        (htracked.answered.congr halike) (fun _ => rfl)
        fun _ => ⟨hunsettled.context, hunsettled.target, hunsettled.removed⟩
    · have hother : Function.update (Function.update s.loops a.flushReceiver
          (s.loops a.flushReceiver).close) j { s.loops j with receiver := .attached } k =
          if k = a.flushReceiver then (s.loops k).close else s.loops k := by
        rw [Function.update_of_ne (Ne.symm hj), Function.update_apply]
        split_ifs with hread
        · rw [hread]
        · rfl
      have hunserved : (a.handleMessage inserted (.replaceFlushReceiver j)).actor.flushReceiver ≠
          k := fun hread => hj (hreceiver.symm.trans hread)
      split_ifs at hother
      · have halike := FlushLoop.alike_close (s.loops k)
        exact tracked_deliver hwf hother (htracked.counted.congr halike)
          (htracked.answered.congr halike)
          (fun h => htracked.unread (h.imp_right fun hopen => by cases hopen))
          fun hread => absurd hread hunserved
      · exact tracked_deliver hwf hother htracked.counted htracked.answered htracked.unread
          fun hread => absurd hread hunserved
  | _ =>
    obtain rfl := Option.some.inj hreceive
    exact tracked_deliver hwf rfl htracked.counted htracked.answered htracked.unread
      fun hread => hsettled (hreceiver.symm.trans hread)

private theorem Tracked.flushRequest (htracked : s.Tracked k ok) {nowMs : Nat}
    (hstep : s.step chain (.flushRequest nowMs) = some t) : t.Tracked k ok := by
  have hwf := htracked.wellFormed.step hstep
  obtain ⟨a, hactor, hserve⟩ := Option.bind_eq_some_iff.mp hstep
  obtain ⟨request, rest, hqueue, rfl⟩ := serve_eq_some.mp hserve
  have hreceiver := TxActor.handleFlushRequest_flushReceiver a nowMs request
  by_cases hread : a.flushReceiver = k
  · subst hread
    obtain ⟨hanswered, hsettled⟩ := (htracked.settled a hactor rfl).serve htracked.answered
      (htracked.wellFormed.sound _) (htracked.wellFormed.keyed a hactor) hqueue nowMs
    refine tracked_of_eq hwf (Function.update_self ..) htracked.counted.answer hanswered
      (fun h => htracked.unread (h.imp_right fun hopen => ?_)) fun b hb _ => ?_
    · cases request <;> exact hopen
    · obtain rfl := Option.some.inj hb
      exact hsettled
  · refine tracked_of_eq hwf (Function.update_of_ne (Ne.symm hread) _ _) htracked.counted
      htracked.answered htracked.unread fun b hb hread' => ?_
    obtain rfl := Option.some.inj hb
    exact absurd (hreceiver.symm.trans hread') hread

private theorem Tracked.flush (htracked : s.Tracked k ok) {j : Nat} {input : FlushInput}
    (hsteady : Steady chain k (s, ok) (.flush j input))
    (hstep : s.step chain (.flush j input) = some t) :
    t.Tracked k (ok ++ processedOk chain k s (.flush j input)) := by
  have hwf := htracked.wellFormed.step hstep
  obtain ⟨⟨l, rows⟩, hloop, rfl⟩ := Option.map_eq_some_iff.mp hstep
  by_cases hj : j = k
  · subst hj
    have hsound := htracked.wellFormed.sound j
    have hown : processedOk chain j s (.flush j input) = (s.loops j).processedOk chain input :=
      if_pos rfl
    rw [hown]
    refine tracked_of_eq hwf (Function.update_self ..)
      (htracked.counted.step htracked.answered (hsteady rfl) hloop)
      (FlushLoop.answered_of_step hsound hloop) (fun h => ?_) fun a ha hread => ?_
    · -- a loop whose channel nobody reads is in no range
      have hunread : s.spawned ≤ j ∨ (s.loops j).receiver = .inTransit :=
        h.imp_right (FlushLoop.move_of_step hloop).receiver.symm.trans
      rw [htracked.unread hunread, List.nil_append]
      obtain hnone | ⟨range, hashes, hpc, -⟩ := FlushLoop.processedOk_cases hloop
      · exact hnone
      · obtain hspawned | htransit := hunread
        · rw [(htracked.wellFormed.unspawned j hspawned).1] at hpc
          cases hpc
        · obtain hawait | ⟨hawait, -⟩ := hsound.inTransit htransit <;>
            rw [hpc] at hawait <;> cases hawait
    · have hattached := (htracked.wellFormed.attached_iff ha j).mpr hread
      exact (htracked.settled a ha hread).step hsound (by simp [hattached]) hloop
  · have hother : processedOk chain k s (.flush j input) = [] := if_neg hj
    rw [hother, List.append_nil]
    exact tracked_of_eq hwf (Function.update_of_ne (Ne.symm hj) _ _) htracked.counted
      htracked.answered htracked.unread htracked.settled

/-- **Every steady action keeps track of the loop.** -/
theorem Tracked.step (htracked : s.Tracked k ok) {action : Action}
    (hsteady : Steady chain k (s, ok) action) (hstep : s.step chain action = some t) :
    t.Tracked k (ok ++ processedOk chain k s action) := by
  have hwf := htracked.wellFormed.step hstep
  -- only a step of the loop adds to the record
  have hsame : processedOk chain k s action = [] → t.Tracked k ok →
      t.Tracked k (ok ++ processedOk chain k s action) := by
    intro hnone h
    rwa [hnone, List.append_nil]
  cases action with
  | flush j input => exact htracked.flush hsteady hstep
  | message m inserted =>
    refine hsame rfl ?_
    exact htracked.message hsteady hstep
  | flushRequest nowMs =>
    refine hsame rfl ?_
    exact htracked.flushRequest hstep
  | stopSignal =>
    obtain ⟨a, hactor, rfl⟩ := Option.map_eq_some_iff.mp hstep
    refine hsame rfl ?_
    apply tracked_deliver hwf rfl htracked.counted htracked.answered htracked.unread
    intro hread
    have hsettled := htracked.settled a hactor hread
    exact ⟨hsettled.context, hsettled.target, hsettled.removed⟩
  | flashblockMark mark =>
    obtain ⟨a, hactor, rfl⟩ := Option.map_eq_some_iff.mp hstep
    refine hsame rfl ?_
    refine ⟨hwf, htracked.counted, htracked.answered, htracked.unread, fun b hb hread => ?_⟩
    obtain rfl := Option.some.inj hb
    rw [TxActor.handleFlashblockMark_flushReceiver] at hread
    have hsettled := htracked.settled a hactor hread
    refine ⟨?_, ?_, fun e he h hh hmem => ?_⟩
    · rw [TxActor.handleFlashblockMark_ctx]
      exact hsettled.context
    · rw [TxActor.handleFlashblockMark_ctx]
      exact hsettled.target
    · exact hsettled.removed e he h hh (TxActor.mem_cache_handleFlashblockMark.mp hmem)
  | restartFlush =>
    obtain ⟨a, hactor, rfl⟩ := Option.map_eq_some_iff.mp hstep
    refine hsame rfl ?_
    by_cases hk : k = s.spawned
    · -- a new loop: its predecessor of that name was never spawned
      subst hk
      obtain rfl := htracked.unread (.inl le_rfl)
      have hpc : (FlushLoop.spawn .inTransit).pc.Resting := .inl rfl
      exact tracked_of_eq hwf (Function.update_self ..) (FlushLoop.counted_nil rfl hpc)
        (FlushLoop.answered_nil hpc) (fun _ => rfl)
        fun _ _ _ => FlushLoop.settled_nil rfl fun _ h => by cases h
    · refine tracked_of_eq hwf (Function.update_of_ne hk _ _) htracked.counted
        htracked.answered (fun h => htracked.unread (h.imp_left fun hle => ?_)) htracked.settled
      exact (Nat.le_succ _).trans hle
  | cancel j =>
    obtain rfl := Option.some.inj hstep
    refine hsame rfl ?_
    by_cases hj : k = j
    · subst hj
      have halike := FlushLoop.alike_cancel (s.loops k)
      refine tracked_of_eq hwf (Function.update_self ..) (htracked.counted.congr halike)
        (htracked.answered.congr halike) htracked.unread fun a ha hread => ?_
      have hsettled := htracked.settled a ha hread
      exact ⟨hsettled.context, hsettled.target, hsettled.removed⟩
    · exact tracked_of_eq hwf (Function.update_of_ne hj _ _) htracked.counted
        htracked.answered htracked.unread htracked.settled

/-- Along steady runs the loop is tracked. -/
theorem tracked_of_run {actions : List Action}
    (hrun : Execution.run (Execution.observed (System.step chain) (processedOk chain k)) (init, [])
      actions = some (s, ok))
    (hsteady : Execution.Along (Execution.observed (System.step chain) (processedOk chain k))
      (Steady chain k) (init, []) actions) : s.Tracked k ok := by
  refine Execution.invariant (I := fun p => p.1.Tracked k p.2) ?_ (tracked_init k) hrun hsteady
  rintro ⟨s, ok⟩ action ⟨t, ok'⟩ hok hstep htracked
  obtain ⟨hstep, rfl⟩ := Execution.observed_eq_some.mp hstep
  exact htracked.step hok hstep

/-- The loop gives up on the pending transactions only after it processed enough blocks with `Ok`,
none of which confirmed a transaction that is counted as pending. -/
def GivesUpLate (ok : ProcessedBlocks) (pending : List PendingRunTx) : Prop :=
  staleBlockLimit ≤ (ok.map Prod.fst).toFinset.card ∧
    ∀ e ∈ ok, ∀ h ∈ e.2, h ∉ hashes pending

/-- **The branch for stale blocks.** In every run whose actions are all steady for loop `k`, the
step by which the loop gives up comes late. -/
theorem givesUpLate_of_steady {actions : List Action} {input : FlushInput} {range : BlockRange}
    (hrun : Execution.run (Execution.observed (System.step chain) (processedOk chain k)) (init, [])
      actions = some (s, ok))
    (hsteady : Execution.Along (Execution.observed (System.step chain) (processedOk chain k))
      (Steady chain k) (init, []) (actions ++ [.flush k input]))
    (hexit : (s.loops k).ExitsStale chain input range) : GivesUpLate ok range.cacheSnapshot := by
  have htracked : s.Tracked k ok := tracked_of_run hrun hsteady.left
  have hlast : (s.loops k).Steady chain input :=
    (hsteady.right hrun).1 rfl hexit.cancelled
  constructor
  · -- the counter has reached the limit, and the blocks it stands for are distinct
    rw [List.toFinset_card_of_nodup htracked.counted.nodup, List.length_map]
    exact hexit.limit.trans
      (htracked.counted.trackStale_le htracked.answered hexit.cancelled hlast hexit.ends)
  · obtain ⟨r, txs, ctx, -, hreply, -, -, -, rfl⟩ :=
      FlushLoop.endedRange_of_steady hexit.cancelled hlast htracked.answered hexit.ends
    exact htracked.answered.removed _ hreply

/-- What the loop would give up on if it took the step: whether it was cancelled, the transactions
that are pending, and the counter. -/
def staleExit (chain : Chain) (k : Nat) (input : FlushInput) (p : System × ProcessedBlocks) :
    Option (Bool × List TxHash × Nat × ProcessedBlocks) :=
  ((p.1.loops k).endedRange chain input).map fun range =>
    ((p.1.loops k).cancelled, hashes range.cacheSnapshot,
      ((p.1.loops k).trackStale range).staleBlocks, p.2)

theorem exitsStale_of_staleExit {input : FlushInput} {p : System × ProcessedBlocks}
    {pending : List TxHash} {staleBlocks : Nat}
    (h : staleExit chain k input p = some (true, pending, staleBlocks, ok))
    (hpending : pending ≠ []) (hlimit : staleBlockLimit ≤ staleBlocks) :
    p.2 = ok ∧ ∃ range, (p.1.loops k).ExitsStale chain input range ∧
      hashes range.cacheSnapshot = pending := by
  obtain ⟨range, hends, hsame⟩ := Option.map_eq_some_iff.mp h
  simp only [Prod.mk.injEq] at hsame
  obtain ⟨hcancelled, rfl, rfl, hok⟩ := hsame
  exact ⟨hok, range, ⟨hends, hcancelled, fun hnil => hpending (by rw [hnil]; rfl), hlimit⟩, rfl⟩

/-- The next block of a range is processed, and the snapshot refreshed. -/
def processBlock : List Action :=
  [.flush 0 (.receipts ⟨true, [], true⟩), .flush 0 .tick, .flushRequest 0, .flush 0 .tick,
    .flushRequest 0]

/-- Block 5 and then the blocks 6 to 11 of a chain without transactions. -/
def emptyBlocks : List Action :=
  cancelledRun ++ [.flush 0 (.blockNumber (some 6)), .flushRequest 0, .flush 0 .tick] ++
    processBlock ++ [.flush 0 .tick, .flush 0 (.blockNumber (some 12)), .flushRequest 0,
      .flush 0 .tick] ++ (List.replicate 5 (processBlock ++ [.flush 0 .tick])).flatten ++
    processBlock

/-- A transaction that no block includes is given up on after seven blocks. -/
theorem givesUpLate_emptyBlocks :
    ∃ s ok range, Execution.run (Execution.observed (System.step Chain.empty)
        (processedOk Chain.empty 0)) (init, []) emptyBlocks = some (s, ok) ∧
      (s.loops 0).ExitsStale Chain.empty .tick range ∧ GivesUpLate ok range.cacheSnapshot := by
  have hprobe : (Execution.run (Execution.observed (System.step Chain.empty)
      (processedOk Chain.empty 0)) (init, []) emptyBlocks).bind (staleExit Chain.empty 0 .tick) =
      some (true, [1], 6, [(5, []), (6, []), (7, []), (8, []), (9, []), (10, []), (11, [])]) := by
    decide +kernel
  have hsteady : Execution.Along (Execution.observed (System.step Chain.empty)
      (processedOk Chain.empty 0)) (Steady Chain.empty 0) (init, [])
      (emptyBlocks ++ [.flush 0 .tick]) := by decide +kernel
  obtain ⟨⟨s, ok⟩, hrun, hexit⟩ := Option.bind_eq_some_iff.mp hprobe
  obtain ⟨-, range, hstale, -⟩ := exitsStale_of_staleExit hexit (by simp) le_rfl
  exact ⟨s, ok, range, hrun, hstale, givesUpLate_of_steady hrun hsteady hstale⟩

/-- A chain that includes four transactions, one in each of the blocks 10 to 13. -/
def fourBlocksChain : Chain :=
  ⟨fun b => if 10 ≤ b ∧ b < 14 then [⟨b, true, 21000⟩] else [], fun _ => 0⟩

/-- A new block is polled, and the blocks from 10 on are processed once more. -/
def retryBlocks (newBlock : Nat) : List Action :=
  [.flush 0 (.blockNumber (some newBlock)), .flushRequest 0, .flush 0 .tick] ++
    List.replicate (newBlock - 10) (.flush 0 (.receipts ⟨true, [], false⟩))

/-- The database refuses every insert, while the blocks 10 to 13 arrive one by one. The last
block is still to be processed. -/
def refusedInserts : List Action :=
  [.message (.initCtx ⟨7, 10⟩) true] ++
    [10, 11, 12, 13].map (fun h => .message (.sentRunTx h 0 none none none .listening) true) ++
    [.flush 0 .tick, .flushRequest 0, .flush 0 .tick, .cancel 0] ++
    ([11, 12, 13, 14].flatMap retryBlocks).dropLast

/-- Each block is counted again with every block that arrives: the loop gives up after four
blocks, none of which was processed with `Ok`. -/
theorem not_givesUpLate_refusedInserts :
    ∃ s ok range, Execution.run (Execution.observed (System.step fourBlocksChain)
        (processedOk fourBlocksChain 0)) (init, []) refusedInserts = some (s, ok) ∧
      (s.loops 0).ExitsStale fourBlocksChain (.receipts ⟨true, [], false⟩) range ∧
      ¬ GivesUpLate ok range.cacheSnapshot := by
  have hprobe : (Execution.run (Execution.observed (System.step fourBlocksChain)
      (processedOk fourBlocksChain 0)) (init, []) refusedInserts).bind
      (staleExit fourBlocksChain 0 (.receipts ⟨true, [], false⟩)) =
      some (true, [13, 12, 11, 10], 9, []) := by decide +kernel
  obtain ⟨⟨s, ok⟩, hrun, hexit⟩ := Option.bind_eq_some_iff.mp hprobe
  obtain ⟨rfl, range, hstale, -⟩ := exitsStale_of_staleExit hexit (by simp) (by decide)
  exact ⟨s, [], range, hrun, hstale, fun h => absurd h.1 (by decide)⟩

end System

end Contender
