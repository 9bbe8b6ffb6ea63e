import Contender.Spammer.System

/-!
# What a flush loop can do in one step

The step function of the flush loop splits on the suspension point, the input, the
answer found in the oneshot, the cancel token and the block numbers. The relation
`FlushLoop.Move` says once what all of that amounts to: nine kinds of move, each with
its effect on the suspension point, the channel and the database. Every invariant of
the flush loop is proved over these moves.

`FlushLoop.Sound` is the first of them: the requests in the channel and the state of
the oneshot follow from the suspension point.
-/

namespace Contender

namespace FlushPc

/-- Outside a range, with no request outstanding. -/
def Resting (pc : FlushPc) : Prop :=
  pc = .awaitContext ∨ pc = .poll ∨ pc = .done ∨ pc = .panicked

/-- From where a snapshot is requested, and where its answer is awaited. -/
inductive Asks : FlushPc → FlushPc → Prop
  | context : Asks .awaitContext .contextReply
  | drain : Asks .poll .drainReply
  | range (newBlock : Nat) : Asks .poll (.rangeReply newBlock)
  | refresh (range : BlockRange) : Asks (.refresh range) (.refreshReply range)

/-- Where the answer to a snapshot request is awaited. -/
def Awaits (pc : FlushPc) : Prop := ∃ origin, Asks origin pc

end FlushPc

namespace FlushLoop

/-- The channel is left alone, the oneshot apart. -/
structure Frame (l l' : FlushLoop) : Prop where
  receiver : l'.receiver = l.receiver
  queue : l'.queue = l.queue

/-- The moves of a flush loop, with the rows they commit. -/
inductive Move (chain : Chain) (l : FlushLoop) (input : FlushInput) (l' : FlushLoop) :
    List RunRow → Prop
  /-- A snapshot is requested. -/
  | ask {waiting : FlushPc} (hpc : l.pc.Asks waiting) (hopen : l.receiver ≠ .closed)
      (heq : l' = { l with
        pc := waiting, queue := l.queue ++ [.getSnapshot], reply := .pending }) :
      Move chain l input l' []
  /-- Nothing is requested: there is no reason to, or the channel is closed. -/
  | rest (hpc : l.pc = .poll ∨
        l.receiver = .closed ∧ (l.pc = .awaitContext ∨ ∃ range, l.pc = .refresh range))
      (hpc' : l'.pc.Resting) (frame : l.Frame l') (hreply : l'.reply = l.reply)
      (hused : l'.used = l.used) : Move chain l input l' []
  /-- An answer is taken that starts no block. -/
  | settle (hpc : l.pc.Awaits) (hreply : l.reply ≠ .pending ∧ l.reply ≠ .idle)
      (hpc' : l'.pc.Resting) (frame : l.Frame l') (hreply' : l'.reply = .idle)
      (hused : l'.used = l.used) : Move chain l input l' []
  /-- An answer is taken that starts a range. -/
  | enter {newBlock : Nat} {txs : List PendingRunTx} {ctx : ActorContext}
      (hpc : l.pc = .rangeReply newBlock) (hreply : l.reply = .sent ⟨txs, some ctx⟩)
      (hpc' : l'.pc = .block ⟨newBlock, ctx.targetBlock, ctx.targetBlock, ctx.runId, txs, false⟩)
      (frame : l.Frame l') (hreply' : l'.reply = .idle) (hused : l'.used = l.used) :
      Move chain l input l' []
  /-- An answer is taken that goes on to the next block of the range. -/
  | proceed {range : BlockRange} {txs : List PendingRunTx} {ctx : ActorContext}
      (hpc : l.pc = .refreshReply range) (hreply : l.reply = .sent ⟨txs, some ctx⟩)
      (hpc' : l'.pc = .block { range with bn := range.bn + 1, cacheSnapshot := txs })
      (frame : l.Frame l') (hreply' : l'.reply = .idle) (hused : l'.used = l.used) :
      Move chain l input l' []
  /-- The rows of a block are committed. -/
  | record {range : BlockRange} {answer : ReceiptAnswer} {hashes : List TxHash}
      {rows : List RunTx} (hpc : l.pc = .block range) (hinput : input = .receipts answer)
      (processed : processBlockReceipts chain range.cacheSnapshot range.bn answer =
        .confirmed hashes rows)
      (heq : l' = { l with
        pc := .confirmed range hashes, used := (range.bn, range.cacheSnapshot) :: l.used }) :
      Move chain l input l' (rows.map fun tx => (range.runId, tx))
  /-- The rows of a block could not be committed, and the range goes on. -/
  | skip {range : BlockRange} (hpc : l.pc = .block range)
      (hpc' : l'.pc = .block { range with bn := range.bn + 1, skipped := true })
      (frame : l.Frame l') (hreply : l'.reply = l.reply)
      (hused : l'.used = (range.bn, range.cacheSnapshot) :: l.used) : Move chain l input l' []
  /-- The last block of the range could not be committed, or the loop panicked. -/
  | giveUp {range : BlockRange} (hpc : l.pc = .block range) (hpc' : l'.pc.Resting)
      (frame : l.Frame l') (hreply : l'.reply = l.reply)
      (hused : l'.used = (range.bn, range.cacheSnapshot) :: l.used) : Move chain l input l' []
  /-- The removal of the confirmed transactions is requested, unless the channel is
  closed. -/
  | remove {range : BlockRange} {hashes : List TxHash} (hpc : l.pc = .confirmed range hashes)
      (heq : l' = { l with
        pc := .refresh range
        queue := if l.receiver = .closed then l.queue
          else l.queue ++ [.removeConfirmed hashes (range.bn + 1)] }) :
      Move chain l input l' []

variable {chain : Chain} {l l' : FlushLoop} {input : FlushInput}

private theorem resting_poll : FlushPc.Resting .poll := Or.inr (Or.inl rfl)

private theorem resting_done : FlushPc.Resting .done := Or.inr (Or.inr (Or.inl rfl))

/-! ## The helpers of the step function -/

/-- The end of a range only touches the counters. -/
theorem endRange_spec (l : FlushLoop) (range : BlockRange) :
    (l.endRange range).pc.Resting ∧ l.Frame (l.endRange range) ∧
      (l.endRange range).reply = l.reply ∧ (l.endRange range).used = l.used := by
  unfold endRange trackStale
  dsimp only
  split_ifs
  -- the branches differ in the counters and in whether the loop gives up
  all_goals first
    | exact ⟨resting_poll, ⟨rfl, rfl⟩, rfl, rfl⟩
    | exact ⟨resting_done, ⟨rfl, rfl⟩, rfl, rfl⟩

/-- The next block of a range, or its end. -/
theorem nextBlock_spec (l : FlushLoop) (range : BlockRange) :
    ((l.nextBlock range).pc.Resting ∨
      (l.nextBlock range).pc = .block { range with bn := range.bn + 1 }) ∧
    l.Frame (l.nextBlock range) ∧ (l.nextBlock range).reply = l.reply ∧
      (l.nextBlock range).used = l.used := by
  unfold nextBlock
  split_ifs
  · exact ⟨Or.inr rfl, ⟨rfl, rfl⟩, rfl, rfl⟩
  · obtain ⟨hpc, hrest⟩ := endRange_spec l range
    exact ⟨Or.inl hpc, hrest⟩

private theorem sendGetSnapshot_move {waiting : FlushPc} (hpc : l.pc.Asks waiting)
    (hfrom : l.pc = .poll ∨ l.pc = .awaitContext ∨ ∃ range, l.pc = .refresh range) :
    Move chain l input (l.sendGetSnapshot waiting) [] := by
  unfold sendGetSnapshot
  split_ifs with hclosed
  · exact .rest (hfrom.imp id fun h => ⟨hclosed, h⟩) resting_done ⟨rfl, rfl⟩ rfl rfl
  · exact .ask hpc hclosed rfl

/-- Taking an answer is a move when both continuations are. -/
private theorem takeReply_move {onSnapshot : FlushLoop → Snapshot → FlushLoop}
    {onDropped : FlushLoop → FlushLoop}
    (hsnapshot : ∀ snapshot, l.reply = .sent snapshot →
      Move chain l input (onSnapshot { l with reply := .idle } snapshot) [])
    (hdropped : l.reply = .dropped → Move chain l input (onDropped { l with reply := .idle }) [])
    {rows : List RunRow}
    (htake : (l.takeReply onSnapshot onDropped).map (fun l => (l, [])) = some (l', rows)) :
    Move chain l input l' rows := by
  unfold takeReply at htake
  cases hreply : l.reply with
  -- the loop stays suspended until the oneshot resolves
  | idle => simp [hreply] at htake
  | pending => simp [hreply] at htake
  | sent snapshot =>
    simp only [hreply, Option.map_some, Option.some.injEq, Prod.mk.injEq] at htake
    obtain ⟨rfl, rfl⟩ := htake
    exact hsnapshot snapshot hreply
  | dropped =>
    simp only [hreply, Option.map_some, Option.some.injEq, Prod.mk.injEq] at htake
    obtain ⟨rfl, rfl⟩ := htake
    exact hdropped hreply

private theorem onRange_move {newBlock : Nat} (hpc : l.pc = .rangeReply newBlock)
    {snapshot : Snapshot} (hreply : l.reply = .sent snapshot) :
    Move chain l input (onRange { l with reply := .idle } newBlock snapshot) [] := by
  have hawaits : l.pc.Awaits := ⟨.poll, hpc ▸ .range newBlock⟩
  have hfull : l.reply ≠ .pending ∧ l.reply ≠ .idle := by simp [hreply]
  obtain ⟨txs, ctx⟩ := snapshot
  unfold onRange
  cases ctx with
  -- no run is announced: the blocks are polled again
  | none => exact .settle hawaits hfull resting_poll ⟨rfl, rfl⟩ rfl rfl
  | some ctx =>
    dsimp only
    split_ifs
    · exact .settle hawaits hfull resting_poll ⟨rfl, rfl⟩ rfl rfl
    · exact .settle hawaits hfull resting_done ⟨rfl, rfl⟩ rfl rfl
    · exact .enter hpc hreply rfl ⟨rfl, rfl⟩ rfl rfl

private theorem onRefresh_move {range : BlockRange} (hpc : l.pc = .refreshReply range)
    {snapshot : Snapshot} (hreply : l.reply = .sent snapshot) :
    Move chain l input (onRefresh { l with reply := .idle } range snapshot) [] := by
  have hawaits : l.pc.Awaits := ⟨.refresh range, hpc ▸ .refresh range⟩
  have hfull : l.reply ≠ .pending ∧ l.reply ≠ .idle := by simp [hreply]
  obtain ⟨txs, ctx⟩ := snapshot
  unfold onRefresh
  cases ctx with
  | none =>
    obtain ⟨hpc', hframe, hreply', hused⟩ := endRange_spec { l with reply := .idle } range
    exact .settle hawaits hfull hpc' ⟨hframe.receiver, hframe.queue⟩ hreply' hused
  | some ctx =>
    dsimp only
    split_ifs
    -- everything is confirmed, and the loop was cancelled
    · exact .settle hawaits hfull resting_done ⟨rfl, rfl⟩ rfl rfl
    · obtain ⟨hpc', hframe, hreply', hused⟩ := endRange_spec
        { l with reply := .idle, targetBlock := ctx.targetBlock }
        { range with cacheSnapshot := txs }
      exact .settle hawaits hfull hpc' ⟨hframe.receiver, hframe.queue⟩ hreply' hused
    -- something is still pending
    · obtain ⟨hpc', hframe, hreply', hused⟩ := nextBlock_spec
        { l with reply := .idle, targetBlock := ctx.targetBlock }
        { range with cacheSnapshot := txs }
      rcases hpc' with hpc' | hpc'
      · exact .settle hawaits hfull hpc' ⟨hframe.receiver, hframe.queue⟩ hreply' hused
      · exact .proceed hpc hreply hpc' ⟨hframe.receiver, hframe.queue⟩ hreply' hused

private theorem onProcessed_move {range : BlockRange} {answer : ReceiptAnswer}
    {rows : List RunRow} (hpc : l.pc = .block range) (hinput : input = .receipts answer)
    (hresult : { l with used := (range.bn, range.cacheSnapshot) :: l.used }.onProcessed range
      (processBlockReceipts chain range.cacheSnapshot range.bn answer) = (l', rows)) :
    Move chain l input l' rows := by
  cases hprocessed : processBlockReceipts chain range.cacheSnapshot range.bn answer with
  | confirmed hashes confirmedRows =>
    rw [hprocessed] at hresult
    obtain ⟨rfl, rfl⟩ := Prod.mk.inj hresult
    exact .record hpc hinput hprocessed rfl
  | failed =>
    rw [hprocessed] at hresult
    obtain ⟨rfl, rfl⟩ := Prod.mk.inj hresult
    obtain ⟨hpc', hframe, hreply, hused⟩ := nextBlock_spec
      { l with used := (range.bn, range.cacheSnapshot) :: l.used } { range with skipped := true }
    rcases hpc' with hpc' | hpc'
    · exact .giveUp hpc hpc' ⟨hframe.receiver, hframe.queue⟩ hreply hused
    · exact .skip hpc hpc' ⟨hframe.receiver, hframe.queue⟩ hreply hused
  | panicked =>
    rw [hprocessed] at hresult
    obtain ⟨rfl, rfl⟩ := Prod.mk.inj hresult
    exact .giveUp hpc (Or.inr (Or.inr (Or.inr rfl))) ⟨rfl, rfl⟩ rfl rfl

/-- **Every step of the flush loop is one of the moves.** -/
theorem move_of_step {rows : List RunRow}
    (hstep : l.step chain input = some (l', rows)) : Move chain l input l' rows := by
  -- one case per suspension point, in the order of `step`
  unfold step at hstep
  split at hstep
  case h_1 hpc =>
    obtain ⟨rfl, rfl⟩ := Prod.mk.inj (Option.some.inj hstep)
    exact sendGetSnapshot_move (hpc ▸ .context) (Or.inr (Or.inl hpc))
  case h_2 hpc =>
    have hawaits : l.pc.Awaits := ⟨.awaitContext, hpc ▸ .context⟩
    refine takeReply_move (fun snapshot hreply => ?_) (fun hreply => ?_) hstep
    · obtain ⟨txs, ctx⟩ := snapshot
      cases ctx with
      | none =>
        exact .settle hawaits (by simp [hreply]) (Or.inl rfl) ⟨rfl, rfl⟩ rfl rfl
      | some ctx => exact .settle hawaits (by simp [hreply]) resting_poll ⟨rfl, rfl⟩ rfl rfl
    · exact .settle hawaits (by simp [hreply]) resting_done ⟨rfl, rfl⟩ rfl rfl
  case h_3 hpc =>
    obtain ⟨rfl, rfl⟩ := Prod.mk.inj (Option.some.inj hstep)
    exact .rest (Or.inl hpc) (hpc ▸ resting_poll) ⟨rfl, rfl⟩ rfl rfl
  -- drain check, no new block, new range
  case h_4 newBlock hpc =>
    obtain ⟨rfl, rfl⟩ := Prod.mk.inj (Option.some.inj hstep)
    unfold onBlockNumber
    split_ifs
    · exact sendGetSnapshot_move (hpc ▸ .drain) (Or.inl hpc)
    · exact .rest (Or.inl hpc) (hpc ▸ resting_poll) ⟨rfl, rfl⟩ rfl rfl
    · exact sendGetSnapshot_move (hpc ▸ .range newBlock) (Or.inl hpc)
  case h_5 hpc =>
    have hawaits : l.pc.Awaits := ⟨.poll, hpc ▸ .drain⟩
    refine takeReply_move (fun snapshot hreply => ?_) (fun hreply => ?_) hstep
    · unfold onDrain
      split_ifs
      · exact .settle hawaits (by simp [hreply]) resting_done ⟨rfl, rfl⟩ rfl rfl
      · exact .settle hawaits (by simp [hreply]) resting_poll ⟨rfl, rfl⟩ rfl rfl
    · exact .settle hawaits (by simp [hreply]) resting_poll ⟨rfl, rfl⟩ rfl rfl
  case h_6 newBlock hpc =>
    refine takeReply_move (fun snapshot hreply => onRange_move hpc hreply) (fun hreply => ?_) hstep
    exact .settle ⟨.poll, hpc ▸ .range newBlock⟩ (by simp [hreply]) resting_done ⟨rfl, rfl⟩ rfl rfl
  case h_7 range answer hpc =>
    exact onProcessed_move hpc rfl (Option.some.inj hstep)
  case h_8 range hashes hpc =>
    obtain ⟨rfl, rfl⟩ := Prod.mk.inj (Option.some.inj hstep)
    refine .remove hpc ?_
    unfold sendUnchecked
    dsimp only
    split_ifs <;> rfl
  case h_9 range hpc =>
    obtain ⟨rfl, rfl⟩ := Prod.mk.inj (Option.some.inj hstep)
    exact sendGetSnapshot_move (hpc ▸ .refresh range) (Or.inr (Or.inr ⟨range, hpc⟩))
  case h_10 range hpc =>
    refine takeReply_move (fun snapshot hreply => onRefresh_move hpc hreply) (fun hreply => ?_)
      hstep
    obtain ⟨hpc', hframe, hreply', hused⟩ := endRange_spec { l with reply := .idle } range
    exact .settle ⟨.refresh range, hpc ▸ .refresh range⟩ (by simp [hreply]) hpc'
      ⟨hframe.receiver, hframe.queue⟩ hreply' hused
  case h_11 => exact absurd hstep (by simp)

/-! ## The channel follows the suspension point -/

/-- The channel while a single snapshot request is outstanding or answered. -/
def Asked (queue : List FlushRequest) : SnapshotReply → Prop
  | .idle => False
  | .pending => queue = [.getSnapshot]
  | .sent _ => queue = []
  | .dropped => queue = []

/-- The requests and the answer a loop may have in its channel at a suspension
point. -/
def Shape : FlushPc → List FlushRequest → SnapshotReply → Prop
  | .contextReply, queue, reply => Asked queue reply
  | .drainReply, queue, reply => Asked queue reply
  | .rangeReply _, queue, reply => Asked queue reply
  | .refresh range, queue, reply =>
    reply = .idle ∧
      (queue = [] ∨ ∃ hashes, queue = [.removeConfirmed hashes (range.bn + 1)])
  | .refreshReply range, queue, reply =>
    Asked queue reply ∨ reply = .pending ∧
      ∃ hashes, queue = [.removeConfirmed hashes (range.bn + 1), .getSnapshot]
  | _, queue, reply => queue = [] ∧ reply = .idle

/-- The channel has the shape of the suspension point; a closed channel is empty; a
receiver in transit has delivered no answer. -/
structure Sound (l : FlushLoop) : Prop where
  shape : Shape l.pc l.queue l.reply
  closed : l.receiver = .closed → l.queue = []
  inTransit : l.receiver = .inTransit →
    l.pc = .awaitContext ∨ l.pc = .contextReply ∧ l.reply = .pending

theorem shape_of_resting {pc : FlushPc} (hpc : pc.Resting) (queue : List FlushRequest)
    (reply : SnapshotReply) : Shape pc queue reply ↔ queue = [] ∧ reply = .idle := by
  rcases hpc with rfl | rfl | rfl | rfl <;> rfl

theorem sound_spawn (receiver : FlushReceiver) : (spawn receiver).Sound :=
  ⟨⟨rfl, rfl⟩, fun _ => rfl, fun _ => Or.inl rfl⟩

theorem sound_unspawned : unspawned.Sound :=
  ⟨⟨rfl, rfl⟩, fun _ => rfl, fun h => absurd h (by simp [unspawned, spawn])⟩

/-- A request is outstanding or answered where an answer is awaited. -/
theorem asked_of_awaits {pc : FlushPc} (hpc : pc.Awaits) {queue : List FlushRequest}
    {reply : SnapshotReply} (hshape : Shape pc queue reply) (hreply : reply ≠ .pending) :
    Asked queue reply := by
  obtain ⟨origin, hasks⟩ := hpc
  cases hasks with
  | context => exact hshape
  | drain => exact hshape
  | range newBlock => exact hshape
  -- the removal may still be queued before the request, but not once it is answered
  | refresh range => exact hshape.resolve_right fun h => hreply h.1

/-- Once an answer can be taken, nothing is queued. -/
theorem Sound.queue_eq_nil (hsound : l.Sound) (hpc : l.pc.Awaits)
    (hreply : l.reply ≠ .pending ∧ l.reply ≠ .idle) : l.queue = [] := by
  have hasked := asked_of_awaits hpc hsound.shape hreply.1
  cases hcase : l.reply with
  | idle => exact absurd hcase hreply.2
  | pending => exact absurd hcase hreply.1
  | sent snapshot =>
    rw [hcase] at hasked
    exact hasked
  | dropped =>
    rw [hcase] at hasked
    exact hasked

/-- A request keeps the channel in shape. -/
private theorem shape_ask {waiting : FlushPc} (hsound : l.Sound) (hpc : l.pc.Asks waiting) :
    Shape waiting (l.queue ++ [.getSnapshot]) .pending := by
  have hshape := hsound.shape
  generalize l.pc = pc at hpc hshape
  cases hpc with
  | context => simp [Shape, Asked, hshape.1]
  | drain => simp [Shape, Asked, hshape.1]
  | range newBlock => simp [Shape, Asked, hshape.1]
  -- the removal that was sent before may not have been taken yet
  | refresh range =>
    rcases hshape.2 with hempty | ⟨hashes, hqueue⟩
    · exact Or.inl (by simp [Asked, hempty])
    · exact Or.inr ⟨rfl, hashes, by simp [hqueue]⟩

/-- A loop that has been served before is not in transit. -/
private theorem not_inTransit (hsound : l.Sound) (hpc : l.pc ≠ .awaitContext)
    (hreply : l.reply ≠ .pending) : l.receiver ≠ .inTransit := by
  intro htransit
  rcases hsound.inTransit htransit with hawait | ⟨-, hpending⟩
  · exact hpc hawait
  · exact hreply hpending

/-- A loop inside a range, or one that took an answer, has an empty channel. -/
private theorem sound_of_empty (hsound : l.Sound) (hpc : l.pc ≠ .awaitContext)
    (hreply : l.reply ≠ .pending) (frame : l.Frame l')
    (hshape : Shape l'.pc l.queue l'.reply) : l'.Sound where
  shape := by
    rw [frame.queue]
    exact hshape
  closed hclosed := by
    rw [frame.queue]
    exact hsound.closed (frame.receiver ▸ hclosed)
  inTransit htransit := absurd (frame.receiver ▸ htransit) (not_inTransit hsound hpc hreply)

private theorem not_awaitContext_of_awaits {pc : FlushPc} (hpc : pc.Awaits) :
    pc ≠ .awaitContext := by
  obtain ⟨origin, hasks⟩ := hpc
  cases hasks <;> simp

/-- **Every move keeps the channel sound.** -/
theorem Move.sound {rows : List RunRow} (hmove : Move chain l input l' rows)
    (hsound : l.Sound) : l'.Sound := by
  have hshape := hsound.shape
  cases hmove with
  | ask hpc hopen heq =>
    subst heq
    refine ⟨shape_ask hsound hpc, fun hclosed => absurd hclosed hopen, fun htransit => ?_⟩
    -- in transit, only the first request can be the one that is made
    have horigin := (hsound.inTransit htransit).imp_right And.left
    generalize l.pc = pc at hpc horigin
    rcases horigin with rfl | rfl
    · cases hpc
      exact Or.inr ⟨rfl, rfl⟩
    · cases hpc
  | rest hpc hpc' frame hreply hused =>
    have hempty : l.queue = [] ∧ l.reply = .idle := by
      rcases hpc with hpoll | ⟨hclosed, hawait | ⟨range, hrefresh⟩⟩
      · rw [hpoll] at hshape
        exact hshape
      · rw [hawait] at hshape
        exact hshape
      · rw [hrefresh] at hshape
        exact ⟨hsound.closed hclosed, hshape.1⟩
    refine ⟨?_, fun _ => frame.queue.trans hempty.1, fun htransit => ?_⟩
    · exact (shape_of_resting hpc' _ _).mpr
        ⟨frame.queue.trans hempty.1, hreply.trans hempty.2⟩
    · rw [frame.receiver] at htransit
      rcases hpc with hpoll | ⟨hclosed, -⟩
      · rcases hsound.inTransit htransit with h | ⟨h, -⟩ <;> rw [hpoll] at h <;> cases h
      · rw [hclosed] at htransit
        cases htransit
  | settle hpc hreply hpc' frame hreply' hused =>
    apply sound_of_empty hsound (not_awaitContext_of_awaits hpc) hreply.1 frame
    exact (shape_of_resting hpc' _ _).mpr ⟨hsound.queue_eq_nil hpc hreply, hreply'⟩
  | @enter newBlock txs ctx hpc hreply hpc' frame hreply' hused =>
    have hawaits : l.pc.Awaits := ⟨.poll, hpc ▸ .range newBlock⟩
    apply sound_of_empty hsound (not_awaitContext_of_awaits hawaits) (by simp [hreply]) frame
    rw [hpc', hreply']
    exact ⟨hsound.queue_eq_nil hawaits (by simp [hreply]), rfl⟩
  | @proceed range txs ctx hpc hreply hpc' frame hreply' hused =>
    have hawaits : l.pc.Awaits := ⟨.refresh range, hpc ▸ .refresh range⟩
    apply sound_of_empty hsound (not_awaitContext_of_awaits hawaits) (by simp [hreply]) frame
    rw [hpc', hreply']
    exact ⟨hsound.queue_eq_nil hawaits (by simp [hreply]), rfl⟩
  | record hpc hinput processed heq =>
    rw [hpc] at hshape
    subst heq
    exact sound_of_empty hsound (by simp [hpc]) (by simp [hshape.2]) ⟨rfl, rfl⟩ hshape
  | skip hpc hpc' frame hreply hused =>
    rw [hpc] at hshape
    apply sound_of_empty hsound (by simp [hpc]) (by simp [hshape.2]) frame
    rw [hpc', hreply]
    exact hshape
  | giveUp hpc hpc' frame hreply hused =>
    rw [hpc] at hshape
    apply sound_of_empty hsound (by simp [hpc]) (by simp [hshape.2]) frame
    rw [shape_of_resting hpc', hreply]
    exact hshape
  | @remove range hashes hpc heq =>
    rw [hpc] at hshape
    subst heq
    have htransit := not_inTransit hsound (by simp [hpc]) (by simp [hshape.2])
    refine ⟨⟨hshape.2, ?_⟩, fun hclosed => ?_, fun h => absurd h htransit⟩
    · by_cases hclosed : l.receiver = .closed
      · exact Or.inl (by simp [hclosed, hshape.1])
      · exact Or.inr ⟨hashes, by simp [hclosed, hshape.1]⟩
    · have hclosed' : l.receiver = .closed := hclosed
      simp [hclosed', hshape.1]

/-- No move touches the receiver. -/
theorem Move.receiver {rows : List RunRow} (hmove : Move chain l input l' rows) :
    l'.receiver = l.receiver := by
  cases hmove with
  | ask hpc hopen heq => rw [heq]
  | record hpc hinput processed heq => rw [heq]
  | remove hpc heq => rw [heq]
  | rest _ _ frame => exact frame.receiver
  | settle _ _ _ frame => exact frame.receiver
  | enter _ _ _ frame => exact frame.receiver
  | proceed _ _ _ frame => exact frame.receiver
  | skip _ _ frame => exact frame.receiver
  | giveUp _ _ frame => exact frame.receiver

/-- Dropping the receiver keeps the channel sound. -/
theorem Sound.close (hsound : l.Sound) : l.close.Sound := by
  refine ⟨?_, fun _ => rfl, fun h => absurd h (by simp [FlushLoop.close])⟩
  have hshape := hsound.shape
  have hidle : l.reply = .idle → l.close.reply = .idle := by
    intro hreply
    simp only [FlushLoop.close, hreply]
  have hasked : ∀ {queue : List FlushRequest}, Asked queue l.reply →
      Asked [] l.close.reply := by
    intro queue hask
    cases hreply : l.reply with
    | idle =>
      rw [hreply] at hask
      rw [hidle hreply]
      exact hask
    | _ =>
      simp only [FlushLoop.close, hreply]
      rfl
  change Shape l.pc [] l.close.reply
  generalize l.pc = pc at hshape ⊢
  cases pc with
  | contextReply => exact hasked hshape
  | drainReply => exact hasked hshape
  | rangeReply newBlock => exact hasked hshape
  | refresh range => exact ⟨hidle hshape.1, Or.inl rfl⟩
  -- a queued removal is lost with the receiver
  | refreshReply range =>
    rcases hshape with hshape | ⟨hpending, -⟩
    · exact Or.inl (hasked hshape)
    · left
      simp only [FlushLoop.close, hpending]
      rfl
  | _ => exact ⟨rfl, hidle hshape.2⟩

/-- What the next request in a sound channel can be. -/
theorem Sound.request_cases (hsound : l.Sound) {request : FlushRequest}
    {rest : List FlushRequest} (hqueue : l.queue = request :: rest) :
    (request = .getSnapshot ∧ rest = [] ∧ l.pc.Awaits ∧ l.reply = .pending) ∨
    ∃ range hashes, request = .removeConfirmed hashes (range.bn + 1) ∧
      (l.pc = .refresh range ∧ rest = [] ∧ l.reply = .idle ∨
        l.pc = .refreshReply range ∧ rest = [.getSnapshot] ∧ l.reply = .pending) := by
  have hshape := hsound.shape
  rw [hqueue] at hshape
  have hasked : ∀ {reply : SnapshotReply}, Asked (request :: rest) reply →
      request = .getSnapshot ∧ rest = [] ∧ reply = .pending := by
    intro reply hask
    cases reply with
    | pending =>
      obtain ⟨rfl, rfl⟩ := List.cons.inj hask
      exact ⟨rfl, rfl, rfl⟩
    | idle => exact hask.elim
    | sent snapshot => cases hask
    | dropped => cases hask
  -- only the refresh points can have a removal queued
  generalize l.pc = pc at hshape
  cases pc with
  | contextReply =>
    obtain ⟨hreq, hrest, hreply⟩ := hasked hshape
    exact Or.inl ⟨hreq, hrest, ⟨_, .context⟩, hreply⟩
  | drainReply =>
    obtain ⟨hreq, hrest, hreply⟩ := hasked hshape
    exact Or.inl ⟨hreq, hrest, ⟨_, .drain⟩, hreply⟩
  | rangeReply newBlock =>
    obtain ⟨hreq, hrest, hreply⟩ := hasked hshape
    exact Or.inl ⟨hreq, hrest, ⟨_, .range newBlock⟩, hreply⟩
  | refresh range =>
    rcases hshape.2 with hempty | ⟨hashes, hone⟩
    · cases hempty
    · obtain ⟨rfl, rfl⟩ := List.cons.inj hone
      exact Or.inr ⟨range, hashes, rfl, Or.inl ⟨rfl, rfl, hshape.1⟩⟩
  | refreshReply range =>
    rcases hshape with hshape | ⟨hreply, hashes, htwo⟩
    · obtain ⟨hreq, hrest, hreply⟩ := hasked hshape
      exact Or.inl ⟨hreq, hrest, ⟨_, .refresh range⟩, hreply⟩
    · obtain ⟨rfl, rfl⟩ := List.cons.inj htwo
      exact Or.inr ⟨range, hashes, rfl, Or.inr ⟨rfl, rfl, hreply⟩⟩
  | _ => cases hshape.1

/-- Taking the next request off the channel keeps it sound. -/
theorem Sound.answer (hsound : l.Sound) (hattached : l.receiver = .attached)
    {request : FlushRequest} {rest : List FlushRequest} (hqueue : l.queue = request :: rest)
    (snapshot : Snapshot) : (System.answer l rest snapshot request).Sound := by
  have hattached' : (System.answer l rest snapshot request).receiver = .attached := by
    cases request <;> exact hattached
  have hshape : Shape (System.answer l rest snapshot request).pc
      (System.answer l rest snapshot request).queue
      (System.answer l rest snapshot request).reply := by
    rcases hsound.request_cases hqueue with ⟨rfl, rfl, hpc, -⟩ |
      ⟨range, hashes, rfl, ⟨hpc, rfl, hreply⟩ | ⟨hpc, rfl, hreply⟩⟩
    · obtain ⟨origin, hasks⟩ := hpc
      change Shape l.pc [] (.sent snapshot)
      generalize l.pc = pc at hasks
      cases hasks with
      | refresh range => exact Or.inl rfl
      | _ => rfl
    · change Shape l.pc [] l.reply
      rw [hpc]
      exact ⟨hreply, Or.inl rfl⟩
    · change Shape l.pc [.getSnapshot] l.reply
      rw [hpc, hreply]
      exact Or.inl rfl
  refine ⟨hshape, fun h => ?_, fun h => ?_⟩
  · rw [hattached'] at h
    cases h
  · rw [hattached'] at h
    cases h

end FlushLoop

end Contender
