import Contender.Spammer.Recording

/-!
# Which blocks are collected

A `RemoveConfirmed` moves the target block of the actor forward, and no flush loop looks
at an earlier block again. The request is sent for one block of a range after another,
but a block whose rows could not be committed is only logged: the next block of the
range that succeeds moves the target past it. The receipts that a node does not serve
are dropped without an error, with the same effect.

When neither happens, and an `InitCtx` that is handled during a range does not move the
target back before the start of the range, every block that the target is moved past has
been processed, and the included transactions of the snapshot used for it are recorded
under the number of the block.
-/

namespace Contender

open Semantics

namespace FlushLoop

/-- The first block of the range a loop is in, or is about to start. -/
def rangeStart (l : FlushLoop) : Option Nat :=
  match l.pc with
  | .rangeReply _ => l.reply.delivered.map fun d => d.1.targetBlock
  | .block range => some range.blocksStart
  | .confirmed range _ => some range.blocksStart
  | .refresh range => some range.blocksStart
  | .refreshReply range => some range.blocksStart
  | _ => none

end FlushLoop

/-- The rows of a block are committed: the insert succeeds, or there is nothing to
insert. -/
def ReceiptAnswer.Commits (answer : ReceiptAnswer) (chain : Chain) (blockNumber : Nat)
    (cacheSnapshot : List PendingRunTx) : Prop :=
  answer.inserted = true ∨
    ∀ tx ∈ cacheSnapshot, ∀ receipt ∈ answer.fetch chain blockNumber,
      receipt.transactionHash ≠ tx.txHash

theorem commits_of_confirmed {chain : Chain} {cacheSnapshot : List PendingRunTx}
    {blockNumber : Nat} {answer : ReceiptAnswer} {confirmed : List TxHash} {rows : List RunTx}
    (h : processBlockReceipts chain cacheSnapshot blockNumber answer = .confirmed confirmed rows) :
    answer.Commits chain blockNumber cacheSnapshot := by
  by_cases hempty : cacheSnapshot = []
  · right
    intro tx htx
    rw [hempty] at htx
    exact absurd htx List.not_mem_nil
  · simp only [processBlockReceipts, if_neg hempty] at h
    cases hrows : (confirmedIn cacheSnapshot (answer.fetch chain blockNumber)).mapM fun c =>
        c.1.toConfirmedRunTx c.2 blockNumber (chain.timestamp blockNumber) with
    | none => simp [hrows] at h
    | some runTxs =>
      simp only [hrows] at h
      split_ifs at h with hcommit
      rcases hcommit with hnone | hinserted
      · -- no row means that no transaction of the snapshot has a fetched receipt
        right
        intro tx htx receipt hreceipt heq
        have hmem := mem_confirmedIn htx ⟨receipt, hreceipt, heq⟩
        have hmatched := List.mapM_eq_some_iff.mp hrows
        rw [hnone] at hmatched
        rw [List.forall₂_nil_right_iff.mp hmatched] at hmem
        exact absurd hmem List.not_mem_nil
      · exact Or.inl hinserted

/-- The block was processed, and every included transaction of the snapshot used for it
is recorded under its number. -/
def Collected (chain : Chain) (db : List RunRow) (blockNumber : Nat)
    (used : Option (List PendingRunTx)) : Prop :=
  ∃ cacheSnapshot, used = some cacheSnapshot ∧
    ∀ tx ∈ cacheSnapshot, chain.Included blockNumber tx →
      ∃ row ∈ db, row.2.txHash = tx.txHash ∧ row.2.blockNumber = some blockNumber

theorem Collected.append {chain : Chain} {db : List RunRow} {blockNumber : Nat}
    {used : Option (List PendingRunTx)} (h : Collected chain db blockNumber used)
    (rows : List RunRow) : Collected chain (db ++ rows) blockNumber used := by
  obtain ⟨cacheSnapshot, hused, hrows⟩ := h
  refine ⟨cacheSnapshot, hused, fun tx htx hin => ?_⟩
  obtain ⟨row, hrow, hspec⟩ := hrows tx htx hin
  exact ⟨row, List.mem_append_left _ hrow, hspec⟩

/-- The blocks of a range before `stop` are collected. -/
def CollectedBelow (chain : Chain) (db : List RunRow) (l : FlushLoop) (range : BlockRange)
    (stop : Nat) : Prop :=
  ∀ b, range.blocksStart ≤ b → b < stop → Collected chain db b (l.used.lookup b)

/-- What has been collected of the range a loop is in. -/
def RangeCollected (chain : Chain) (db : List RunRow) (l : FlushLoop) : Prop :=
  match l.pc with
  | .block range => range.skipped = false → CollectedBelow chain db l range range.bn
  | .confirmed range _ =>
    range.skipped = false ∧ CollectedBelow chain db l range (range.bn + 1)
  | .refresh range =>
    range.skipped = false ∧ CollectedBelow chain db l range (range.bn + 1)
  | .refreshReply range =>
    range.skipped = false ∧ CollectedBelow chain db l range (range.bn + 1)
  | _ => True

namespace FlushLoop

variable {chain : Chain} {l l' : FlushLoop} {input : FlushInput} {rows : List RunRow}
  {db : List RunRow}

theorem rangeStart_of_resting (hpc : l.pc.Resting) : l.rangeStart = none := by
  unfold rangeStart
  rcases hpc with hpc | hpc | hpc | hpc <;> rw [hpc]

theorem rangeCollected_of_resting (hpc : l.pc.Resting) : RangeCollected chain db l := by
  unfold RangeCollected
  rcases hpc with hpc | hpc | hpc | hpc <;> rw [hpc] <;> trivial

/-- A move stays in its range or leaves it. -/
theorem Move.rangeStart (hmove : Move chain l input l' rows) :
    l'.rangeStart = none ∨ l'.rangeStart = l.rangeStart := by
  cases hmove with
  | @ask waiting hpc hopen heq =>
    subst heq
    unfold FlushLoop.rangeStart
    dsimp only
    generalize l.pc = pc at hpc
    cases hpc with
    -- inside a range only the refreshed snapshot is asked for
    | refresh range => exact Or.inr rfl
    | _ => exact Or.inl rfl
  | rest hpc hpc' frame hreply hused => exact Or.inl (rangeStart_of_resting hpc')
  | settle hpc hreply hpc' frame hreply' hused => exact Or.inl (rangeStart_of_resting hpc')
  | giveUp hpc hpc' frame hreply hused => exact Or.inl (rangeStart_of_resting hpc')
  | enter hpc hreply hpc' frame hreply' hused =>
    right
    unfold FlushLoop.rangeStart
    rw [hpc, hpc', hreply]
    rfl
  | proceed hpc hreply hpc' frame hreply' hused =>
    right
    unfold FlushLoop.rangeStart
    rw [hpc, hpc']
  | record hpc hinput processed heq =>
    subst heq
    right
    unfold FlushLoop.rangeStart
    rw [hpc]
  | skip hpc hpc' frame hreply hused =>
    right
    unfold FlushLoop.rangeStart
    rw [hpc, hpc']
  | remove hpc heq =>
    subst heq
    right
    unfold FlushLoop.rangeStart
    rw [hpc]

/-- Recording a block extends the collected part of the range by it. -/
private theorem collectedBelow_record {range : BlockRange} {answer : ReceiptAnswer}
    {confirmed : List TxHash} {committed : List RunTx}
    (processed : processBlockReceipts chain range.cacheSnapshot range.bn answer =
      .confirmed confirmed committed)
    (complete : answer.Complete chain range.bn range.cacheSnapshot)
    (hbelow : CollectedBelow chain db l range range.bn) (runId : Nat) :
    CollectedBelow chain (db ++ committed.map fun tx => (runId, tx))
      { l with
        pc := .confirmed range confirmed
        used := (range.bn, range.cacheSnapshot) :: l.used } range (range.bn + 1) := by
  obtain ⟨-, hhashes, hnumber, hall⟩ := processBlockReceipts_confirmed processed
  intro b hstart hstop
  by_cases hb : b = range.bn
  · subst hb
    refine ⟨range.cacheSnapshot, List.lookup_cons_self, fun tx htx hin => ?_⟩
    -- all receipts were fetched, so an included transaction was confirmed
    have hconfirmed := hall complete tx htx hin
    rw [← hhashes] at hconfirmed
    obtain ⟨row, hrow, hhash⟩ := List.mem_map.mp hconfirmed
    exact ⟨(runId, row), List.mem_append_right _ (List.mem_map_of_mem hrow), hhash,
      hnumber row hrow⟩
  · have hother : ((range.bn, range.cacheSnapshot) :: l.used).lookup b = l.used.lookup b := by
      rw [List.lookup_cons, beq_eq_false_iff_ne.mpr hb]
    dsimp only
    rw [hother]
    exact (hbelow b hstart (by omega)).append _

/-- **Every move keeps the collected part of the range**, when the blocks it commits are
committed in order and with all their receipts. -/
theorem Move.rangeCollected (hmove : Move chain l input l' rows)
    (hcollected : RangeCollected chain db l)
    (hok : ∀ answer range, input = .receipts answer → l.pc = .block range →
      answer.Commits chain range.bn range.cacheSnapshot →
        range.skipped = false ∧ answer.Complete chain range.bn range.cacheSnapshot) :
    RangeCollected chain (db ++ rows) l' := by
  unfold RangeCollected at hcollected
  cases hmove with
  | @ask waiting hpc hopen heq =>
    subst heq
    rw [List.append_nil]
    unfold RangeCollected
    dsimp only
    generalize l.pc = pc at hpc hcollected
    cases hpc with
    | refresh range => exact hcollected
    | _ => trivial
  | rest hpc hpc' frame hreply hused => exact rangeCollected_of_resting hpc'
  | settle hpc hreply hpc' frame hreply' hused => exact rangeCollected_of_resting hpc'
  | giveUp hpc hpc' frame hreply hused => exact rangeCollected_of_resting hpc'
  | enter hpc hreply hpc' frame hreply' hused =>
    unfold RangeCollected
    rw [hpc']
    -- nothing of the new range lies before its first block
    intro _ b hstart hstop
    dsimp only at hstart hstop
    omega
  | proceed hpc hreply hpc' frame hreply' hused =>
    rw [hpc] at hcollected
    unfold RangeCollected
    rw [hpc', List.append_nil]
    intro _ b hstart hstop
    rw [hused]
    exact hcollected.2 b hstart hstop
  | @record range answer confirmed committed hpc hinput processed heq =>
    subst heq
    rw [hpc] at hcollected
    obtain ⟨hskipped, hcomplete⟩ := hok answer range hinput hpc (commits_of_confirmed processed)
    exact ⟨hskipped, collectedBelow_record processed hcomplete (hcollected hskipped) range.runId⟩
  | skip hpc hpc' frame hreply hused =>
    unfold RangeCollected
    rw [hpc']
    -- after a failed block nothing is claimed about the range
    exact fun hskipped => absurd hskipped (by simp)
  | remove hpc heq =>
    subst heq
    rw [hpc] at hcollected
    rw [List.append_nil]
    exact hcollected

end FlushLoop

theorem RangeCollected.append {chain : Chain} {db : List RunRow} {l : FlushLoop}
    (h : RangeCollected chain db l) (rows : List RunRow) : RangeCollected chain (db ++ rows) l := by
  unfold RangeCollected at h ⊢
  cases hpc : l.pc with
  | block range =>
    rw [hpc] at h
    exact fun hskipped b hstart hstop => (h hskipped b hstart hstop).append rows
  | confirmed range confirmed =>
    rw [hpc] at h
    exact ⟨h.1, fun b hstart hstop => (h.2 b hstart hstop).append rows⟩
  | refresh range =>
    rw [hpc] at h
    exact ⟨h.1, fun b hstart hstop => (h.2 b hstart hstop).append rows⟩
  | refreshReply range =>
    rw [hpc] at h
    exact ⟨h.1, fun b hstart hstop => (h.2 b hstart hstop).append rows⟩
  | _ => trivial

namespace System

variable {chain : Chain} {s t : System}

/-- Receipt collection never skips a block: every block that a `RemoveConfirmed` moved
the target past was processed, and the included transactions of the snapshot used for it
are recorded under its number. -/
def NeverSkips (chain : Chain) (s : System) : Prop :=
  ∀ p ∈ s.advanced, Collected chain s.db p.1 p.2

/-- A block of the served loop is committed only after the earlier blocks of its range
were, and with all the receipts its snapshot needs; an `InitCtx` does not move the target
before the start of the range in progress. -/
def InOrder (chain : Chain) (s : System) : Action → Prop
  | .flush k (.receipts answer) =>
    ∀ a range, s.actor = some a → a.flushReceiver = k → (s.loops k).pc = .block range →
      answer.Commits chain range.bn range.cacheSnapshot →
        range.skipped = false ∧ answer.Complete chain range.bn range.cacheSnapshot
  | .message (.initCtx ctx) _ =>
    ∀ a start, s.actor = some a → (s.loops a.flushReceiver).rangeStart = some start →
      start ≤ ctx.targetBlock
  | _ => True

/-- The served loop has collected its range so far, and the actor's target is not before
the range. -/
structure Covering (chain : Chain) (s : System) : Prop where
  wellFormed : s.WellFormed
  neverSkips : s.NeverSkips chain
  collected : ∀ a, s.actor = some a → RangeCollected chain s.db (s.loops a.flushReceiver)
  target : ∀ a start, s.actor = some a →
    (s.loops a.flushReceiver).rangeStart = some start →
      ∃ ctx, a.ctx = some ctx ∧ start ≤ ctx.targetBlock

theorem NeverSkips.append (h : s.NeverSkips chain) (rows : List RunRow) :
    ∀ p ∈ s.advanced, Collected chain (s.db ++ rows) p.1 p.2 :=
  fun p hp => (h p hp).append rows

theorem covering_init : Covering chain init where
  wellFormed := wellFormed_init
  neverSkips p hp := absurd hp List.not_mem_nil
  collected a ha := by
    obtain rfl := Option.some.inj ha
    exact FlushLoop.rangeCollected_of_resting (Or.inl rfl)
  target a start ha hstart := by
    obtain rfl := Option.some.inj ha
    rw [FlushLoop.rangeStart_of_resting (Or.inl rfl)] at hstart
    cases hstart

/-- Only `InitCtx` sets the context. -/
theorem handleMessage_ctx (a : TxActor) (inserted : Bool) (m : TxActorMessage) :
    (a.handleMessage inserted m).actor.ctx =
      match m with
      | .initCtx ctx => some ctx
      | _ => a.ctx := by
  cases m with
  | removedRunTx h r =>
    by_cases hmem : h ∈ a.cache <;> simp [TxActor.handleMessage, TxActor.removeCachedTx, hmem]
  | dumpCache runId r =>
    rcases a.dumpCache_cases inserted runId with ⟨_, txs, -, hdump⟩ | ⟨_, fault, hdump⟩ <;>
      simp [TxActor.handleMessage, hdump]
  | _ => rfl

/-- A handled message keeps the coverage, when the loop that is served afterwards has
collected its range. -/
theorem covering_deliver {handled : Handled} {received : System} (hskips : s.NeverSkips chain)
    (hadvanced : received.advanced = s.advanced) (hdb : received.db = s.db)
    (hwf : (received.deliver handled).WellFormed)
    (hcollected : RangeCollected chain s.db (received.loops handled.actor.flushReceiver))
    (htarget : ∀ start, (received.loops handled.actor.flushReceiver).rangeStart = some start →
      ∃ ctx, handled.actor.ctx = some ctx ∧ start ≤ ctx.targetBlock) :
    Covering chain (received.deliver handled) := by
  refine ⟨hwf, ?_, ?_, ?_⟩
  · unfold deliver
    split <;> simpa only [NeverSkips, hadvanced, hdb] using hskips.append handled.committed
  · intro b hb
    unfold deliver at hb ⊢
    split at hb
    case h_1 c hc =>
      obtain ⟨-, -, hactor⟩ := TxActor.survivor_eq_some.mp hc
      obtain rfl : c = b := Option.some.inj hb
      simp only [hdb, ← hactor]
      exact hcollected.append handled.committed
    case h_2 => cases hb
  · intro b start hb hstart
    unfold deliver at hb hstart
    split at hb
    case h_1 c hc =>
      obtain ⟨-, -, hactor⟩ := TxActor.survivor_eq_some.mp hc
      obtain rfl : c = b := Option.some.inj hb
      simp only [hc, ← hactor] at hstart
      rw [← hactor]
      exact htarget start hstart
    case h_2 => cases hb

/-- A handled message keeps the coverage. -/
private theorem Covering.message (hinv : Covering chain s) {m : TxActorMessage} {inserted : Bool}
    (hok : s.InOrder chain (.message m inserted))
    (hstep : s.step chain (.message m inserted) = some t) : Covering chain t := by
  have hwf := hinv.wellFormed.step hstep
  obtain ⟨a, received, hactor, hreceive, rfl⟩ := step_message.mp hstep
  have hcollected := hinv.collected a hactor
  have htarget := fun start => hinv.target a start hactor
  have hreceiver := TxActor.handleMessage_flushReceiver a inserted m
  have hctx := handleMessage_ctx a inserted m
  cases m with
  | replaceFlushReceiver k =>
    obtain ⟨htransit, rfl⟩ := receive_replaceFlushReceiver.mp hreceive
    -- the loop that is served from now on has not started a range
    have hloop : ∀ loops : Nat → FlushLoop,
        RangeCollected chain s.db
          (Function.update loops k { s.loops k with receiver := .attached } k) ∧
        (Function.update loops k { s.loops k with receiver := .attached } k).rangeStart = none := by
      intro loops
      rw [Function.update_self]
      unfold RangeCollected FlushLoop.rangeStart
      rcases (hinv.wellFormed.sound k).inTransit htransit with hpc | ⟨hpc, -⟩ <;>
        simp [hpc]
    refine covering_deliver hinv.neverSkips rfl rfl hwf ?_ fun start hstart => ?_
    · rw [hreceiver]
      exact (hloop _).1
    · rw [hreceiver] at hstart
      rw [(hloop _).2] at hstart
      cases hstart
  | initCtx ctx =>
    obtain rfl := Option.some.inj hreceive
    apply covering_deliver hinv.neverSkips rfl rfl hwf hcollected
    intro start hstart
    exact ⟨ctx, hctx, hok a start hactor hstart⟩
  | sentRunTx sent start stop kind error r =>
    obtain rfl := Option.some.inj hreceive
    exact covering_deliver hinv.neverSkips rfl rfl hwf hcollected htarget
  | _ =>
    obtain rfl := Option.some.inj hreceive
    refine covering_deliver hinv.neverSkips rfl rfl hwf ?_ fun start hstart => ?_
    · rw [hreceiver]
      exact hcollected
    · rw [hreceiver] at hstart
      rw [hctx]
      exact htarget start hstart

/-- The target never moves back when a removal is served. -/
private theorem target_of_removeConfirmed {a : TxActor} {start nowMs newTarget : Nat}
    {confirmed : List TxHash} (h : ∃ ctx, a.ctx = some ctx ∧ start ≤ ctx.targetBlock) :
    ∃ ctx, (a.handleFlushRequest nowMs (.removeConfirmed confirmed newTarget)).ctx = some ctx ∧
      start ≤ ctx.targetBlock := by
  obtain ⟨ctx, hctx, hle⟩ := h
  refine ⟨TxActor.advanceTarget newTarget ctx, ?_, ?_⟩
  · simp [TxActor.handleFlushRequest, hctx]
  · unfold TxActor.advanceTarget
    split_ifs
    · dsimp only
      omega
    · exact hle

/-- Serving a removal moves the target past collected blocks only. -/
private theorem Covering.removeConfirmed (hinv : Covering chain s) {a : TxActor}
    (hactor : s.actor = some a) {range : BlockRange} {confirmed : List TxHash}
    (hpc : (s.loops a.flushReceiver).pc = .refresh range ∨
      (s.loops a.flushReceiver).pc = .refreshReply range) :
    ∀ p ∈ passed a (s.loops a.flushReceiver) (.removeConfirmed confirmed (range.bn + 1)),
      Collected chain s.db p.1 p.2 := by
  have hcollected := hinv.collected a hactor
  have htarget := hinv.target a range.blocksStart hactor
  have hbelow : CollectedBelow chain s.db (s.loops a.flushReceiver) range (range.bn + 1) ∧
      (s.loops a.flushReceiver).rangeStart = some range.blocksStart := by
    unfold RangeCollected at hcollected
    unfold FlushLoop.rangeStart
    rcases hpc with hpc | hpc <;> rw [hpc] at hcollected ⊢ <;> exact ⟨hcollected.2, rfl⟩
  -- the target is inside the range, so the blocks passed are
  obtain ⟨ctx, hctx, hstart⟩ := htarget hbelow.2
  intro p hp
  unfold passed at hp
  rw [hctx] at hp
  obtain ⟨b, hb, rfl⟩ := List.mem_map.mp hp
  obtain ⟨i, hi, rfl⟩ := List.mem_range'.mp hb
  exact hbelow.1 _ (by omega) (by omega)

/-- An answer starts a range only where one is about to start. -/
private theorem rangeStart_answer {l : FlushLoop} {rest : List FlushRequest}
    {snapshot : Snapshot} {request : FlushRequest} (hpc : ∀ newBlock, l.pc ≠ .rangeReply newBlock) :
    (answer l rest snapshot request).rangeStart = l.rangeStart := by
  have hsame : (answer l rest snapshot request).pc = l.pc := by cases request <;> rfl
  unfold FlushLoop.rangeStart
  rw [hsame]
  cases hcase : l.pc with
  | rangeReply newBlock => exact absurd hcase (hpc newBlock)
  | _ => rfl

/-- Serving a flush request keeps the coverage. -/
private theorem Covering.flushRequest (hinv : Covering chain s) {nowMs : Nat}
    (hstep : s.step chain (.flushRequest nowMs) = some t) : Covering chain t := by
  have hwf := hinv.wellFormed.step hstep
  obtain ⟨a, hactor, hserve⟩ := Option.bind_eq_some_iff.mp hstep
  have hsound := hinv.wellFormed.sound a.flushReceiver
  have hcollected := hinv.collected a hactor
  have htarget := fun start => hinv.target a start hactor
  obtain ⟨request, rest, hqueue, rfl⟩ := serve_eq_some.mp hserve
  have hreceiver := TxActor.handleFlushRequest_flushReceiver a nowMs request
  -- the answer leaves the suspension point and the used snapshots alone
  have hsame : RangeCollected chain s.db
      (answer (s.loops a.flushReceiver) rest a.snapshot request) := by
    cases request <;> exact hcollected
  refine ⟨hwf, ?_, ?_, ?_⟩
  · rcases hsound.request_cases hqueue with ⟨rfl, -, -, -⟩ | ⟨range, confirmed, rfl, hpc⟩
    · simpa [NeverSkips, passed] using hinv.neverSkips
    · intro p hp
      rcases List.mem_append.mp hp with hp | hp
      · exact hinv.neverSkips p hp
      · exact hinv.removeConfirmed hactor (hpc.imp And.left And.left) p hp
  · intro b hb
    obtain rfl := Option.some.inj hb
    dsimp only
    rw [hreceiver, Function.update_self]
    exact hsame
  · intro b start hb hstart
    obtain rfl := Option.some.inj hb
    dsimp only at hstart
    rw [hreceiver, Function.update_self] at hstart
    rcases hsound.request_cases hqueue with ⟨rfl, rfl, -, -⟩ | ⟨range, confirmed, rfl, hpc⟩
    · -- a range that starts from this snapshot starts at the current target
      by_cases hrange : ∃ newBlock, (s.loops a.flushReceiver).pc = .rangeReply newBlock
      · obtain ⟨newBlock, hpc⟩ := hrange
        unfold FlushLoop.rangeStart answer at hstart
        rw [hpc] at hstart
        cases hctx : a.ctx with
        | none => simp [TxActor.snapshot, hctx, SnapshotReply.delivered] at hstart
        | some ctx =>
          have hle : ctx.targetBlock = start := by
            simpa [TxActor.snapshot, hctx, SnapshotReply.delivered] using hstart
          exact ⟨ctx, hctx, hle.symm.le⟩
      · rw [rangeStart_answer fun newBlock hpc => hrange ⟨newBlock, hpc⟩] at hstart
        exact htarget start hstart
    · rw [rangeStart_answer fun newBlock hrange => ?_] at hstart
      · exact target_of_removeConfirmed (htarget start hstart)
      · rcases hpc with ⟨hpc, -⟩ | ⟨hpc, -⟩ <;> rw [hpc] at hrange <;> cases hrange

/-- A move of a flush loop keeps the coverage. -/
private theorem Covering.flush (hinv : Covering chain s) {k : Nat} {input : FlushInput}
    (hok : s.InOrder chain (.flush k input)) (hstep : s.step chain (.flush k input) = some t) :
    Covering chain t := by
  have hwf := hinv.wellFormed.step hstep
  obtain ⟨⟨l, rows⟩, hloop, rfl⟩ := Option.map_eq_some_iff.mp hstep
  have hmove := FlushLoop.move_of_step hloop
  refine ⟨hwf, hinv.neverSkips.append rows, fun a ha => ?_, fun a start ha hstart => ?_⟩
  · have hcollected := hinv.collected a ha
    dsimp only
    -- only the served loop counts; the others just add rows
    by_cases hk : a.flushReceiver = k
    · subst hk
      rw [Function.update_self]
      apply hmove.rangeCollected hcollected
      intro answer range hinput hpc
      subst hinput
      exact hok a range ha rfl hpc
    · rw [Function.update_of_ne hk]
      exact hcollected.append rows
  · dsimp only at hstart
    by_cases hk : a.flushReceiver = k
    · subst hk
      rw [Function.update_self] at hstart
      rcases hmove.rangeStart with hnone | hsame
      · rw [hnone] at hstart
        cases hstart
      · exact hinv.target a start ha (hsame ▸ hstart)
    · rw [Function.update_of_ne hk] at hstart
      exact hinv.target a start ha hstart

/-- An action that leaves the context, the database and the range of the served loop
alone keeps the coverage. -/
private theorem Covering.congr (hinv : Covering chain s) (hwf : t.WellFormed)
    (hadvanced : t.advanced = s.advanced) (hdb : t.db = s.db)
    (hserved : ∀ b, t.actor = some b → ∃ a, s.actor = some a ∧ b.ctx = a.ctx ∧
      (RangeCollected chain s.db (s.loops a.flushReceiver) →
        RangeCollected chain s.db (t.loops b.flushReceiver)) ∧
      (t.loops b.flushReceiver).rangeStart = (s.loops a.flushReceiver).rangeStart) :
    Covering chain t := by
  refine ⟨hwf, ?_, fun b hb => ?_, fun b start hb hstart => ?_⟩
  · rw [NeverSkips, hadvanced, hdb]
    exact hinv.neverSkips
  · obtain ⟨a, ha, -, hcollected, -⟩ := hserved b hb
    rw [hdb]
    exact hcollected (hinv.collected a ha)
  · obtain ⟨a, ha, hctx, -, hsame⟩ := hserved b hb
    rw [hsame] at hstart
    rw [hctx]
    exact hinv.target a start ha hstart

/-- **Every action in order keeps the coverage.** -/
theorem Covering.step (hinv : Covering chain s) {action : Action} (hok : s.InOrder chain action)
    (hstep : s.step chain action = some t) : Covering chain t := by
  have hwf := hinv.wellFormed.step hstep
  cases action with
  | message m inserted => exact hinv.message hok hstep
  | flushRequest nowMs => exact hinv.flushRequest hstep
  | flush k input => exact hinv.flush hok hstep
  | stopSignal =>
    obtain ⟨a, hactor, rfl⟩ := Option.map_eq_some_iff.mp hstep
    exact covering_deliver hinv.neverSkips rfl rfl hwf (hinv.collected a hactor)
      fun start => hinv.target a start hactor
  | flashblockMark mark =>
    obtain ⟨a, hactor, rfl⟩ := Option.map_eq_some_iff.mp hstep
    apply hinv.congr hwf rfl rfl
    intro b hb
    obtain rfl := Option.some.inj hb
    refine ⟨a, hactor, TxActor.handleFlashblockMark_ctx a mark, ?_⟩
    rw [TxActor.handleFlashblockMark_flushReceiver]
    exact ⟨id, rfl⟩
  | restartFlush =>
    obtain ⟨a, hactor, rfl⟩ := Option.map_eq_some_iff.mp hstep
    refine hinv.congr hwf rfl rfl fun b hb => ⟨b, hb, rfl, ?_⟩
    -- the actor does not serve the loop that is being spawned
    have hopen : (s.loops b.flushReceiver).receiver ≠ .closed := by
      rw [(hinv.wellFormed.attached_iff hb _).mpr rfl]
      simp
    have hother : b.flushReceiver ≠ s.spawned := (hinv.wellFormed.lt_spawned hopen).ne
    dsimp only
    rw [Function.update_of_ne hother]
    exact ⟨id, rfl⟩
  | cancel k =>
    obtain rfl := Option.some.inj hstep
    refine hinv.congr hwf rfl rfl fun b hb => ⟨b, hb, rfl, ?_⟩
    -- nothing about a range depends on the cancel token
    dsimp only
    by_cases hk : b.flushReceiver = k
    · subst hk
      rw [Function.update_self]
      exact ⟨id, rfl⟩
    · rw [Function.update_of_ne hk]
      exact ⟨id, rfl⟩

/-- **No block is skipped.** In every state reached by actions in order, every block that
the target was moved past is collected. -/
theorem neverSkips_of_inOrder {actions : List Action}
    (hrun : Execution.run (System.step chain) init actions = some t)
    (hok : Execution.Along (System.step chain) (InOrder chain) init actions) :
    t.NeverSkips chain :=
  (Execution.invariant (fun _ _ _ hok hstep hinv => Covering.step hinv hok hstep)
    covering_init hrun hok).neverSkips

/-- Whether a block of its range was skipped before the one that loop `k` is at. -/
def skippedAt (s : System) (k : Nat) : Option Bool :=
  match (s.loops k).pc with
  | .block range => some range.skipped
  | _ => none

/-- A block that is committed and removed in order is collected. -/
theorem neverSkips_of_committed :
    ∃ t, Execution.run (System.step oneTxChain) init (enterRange 1 ++
        [.flush 0 (.receipts ⟨true, [], true⟩), .flush 0 .tick, .flushRequest 0]) = some t ∧
      t.NeverSkips oneTxChain := by
  have hmid : (Execution.run (System.step oneTxChain) init (enterRange 1)).map
      (fun u => u.skippedAt 0) = some (some false) := by decide +kernel
  have hrun : (Execution.run (System.step oneTxChain) init (enterRange 1 ++
      [.flush 0 (.receipts ⟨true, [], true⟩), .flush 0 .tick, .flushRequest 0])).isSome := by
    decide +kernel
  obtain ⟨t, ht⟩ := Option.isSome_iff_exists.mp hrun
  obtain ⟨u, hu, hskipped⟩ := Option.map_eq_some_iff.mp hmid
  have hinit : init.InOrder oneTxChain (.message (.initCtx ⟨7, 0⟩) true) :=
    fun a start ha hstart => by
      obtain rfl := Option.some.inj ha
      rw [FlushLoop.rangeStart_of_resting (Or.inl rfl)] at hstart
      cases hstart
  have hbefore : Execution.Along (System.step oneTxChain) (InOrder oneTxChain) init
      (enterRange 1) :=
    ⟨hinit, fun v _ => Execution.along_of_forall (by simp [InOrder])⟩
  have hafter : Execution.Along (System.step oneTxChain) (InOrder oneTxChain) u
      [.flush 0 (.receipts ⟨true, [], true⟩), .flush 0 .tick, .flushRequest 0] := by
    refine ⟨fun a range _ _ hpc _ => ⟨?_, Or.inl rfl⟩,
      fun v _ => Execution.along_of_forall (by simp [InOrder])⟩
    rw [skippedAt, hpc] at hskipped
    exact Option.some.inj hskipped
  exact ⟨t, ht, neverSkips_of_inOrder ht (hbefore.append hu hafter)⟩

/-- The rows of block 0 cannot be committed, block 1 has none to commit, and the target is
moved past both. -/
theorem not_neverSkips_of_failed_insert :
    ∃ t, Execution.run (System.step oneTxChain) init (enterRange 2 ++
        [.flush 0 (.receipts ⟨true, [], false⟩), .flush 0 (.receipts ⟨true, [], true⟩),
          .flush 0 .tick, .flushRequest 0]) = some t ∧ ¬ t.NeverSkips oneTxChain := by
  have hrun : (Execution.run (System.step oneTxChain) init (enterRange 2 ++
      [.flush 0 (.receipts ⟨true, [], false⟩), .flush 0 (.receipts ⟨true, [], true⟩),
        .flush 0 .tick, .flushRequest 0])).map (fun t => (t.advanced, t.db)) =
      some ([(0, some [⟨1, 0, none, none, none, none, none⟩]),
        (1, some [⟨1, 0, none, none, none, none, none⟩])], []) := by decide +kernel
  obtain ⟨t, ht, hprobe⟩ := Option.map_eq_some_iff.mp hrun
  obtain ⟨hadvanced, hdb⟩ := Prod.mk.inj hprobe
  refine ⟨t, ht, fun hskips => ?_⟩
  obtain ⟨cacheSnapshot, hused, hrows⟩ := hskips (0, some [⟨1, 0, none, none, none, none, none⟩])
    (by rw [hadvanced]; exact List.mem_cons_self)
  obtain rfl := Option.some.inj hused
  obtain ⟨row, hrow, -⟩ := hrows _ (List.mem_singleton_self _)
    ⟨⟨1, true, 21000⟩, List.mem_singleton_self _, rfl⟩
  rw [hdb] at hrow
  exact absurd hrow List.not_mem_nil

end System

end Contender
