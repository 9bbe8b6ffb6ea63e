import Contender.Spammer.FlushPotential

/-!
# A cancelled flush loop

`Contender::spam` cancels the flush loop once it has sent everything, and waits for the
loop to return. From then on only the node drives the loop: it answers the polls, and it
serves or withholds the blocks, while the actor answers the loop's requests.

Nothing bounds the polls that bring no new block, the retries of a block that is not
there, or the wait for a context. The loop returns exactly when its answers are not idle
forever.
-/

namespace Contender

open Semantics Semantics.Progress

namespace System

/-- The next action of a flush loop and of the actor on its behalf. -/
def drainAction (s : System) (k : Nat) (answer : NodeAnswer) : Option Action :=
  match (s.loops k).pc with
  | .done => none
  -- the task has unwound, and the completion token is never cancelled
  | .panicked => none
  | .poll => some (.flush k (.blockNumber answer.blockNumber))
  | .block range =>
    -- an empty snapshot is not worth a request
    if range.cacheSnapshot = [] then some (.flush k (.receipts ⟨true, [], true⟩))
    else answer.block.map fun receipts => .flush k (.receipts receipts)
  | _ =>
    match (s.loops k).reply with
    | .pending =>
      if (s.loops k).receiver = .inTransit then some (.message (.replaceFlushReceiver k) true)
      else some (.flushRequest answer.nowMs)
    | _ => some (.flush k .tick)

/-- One step of the collection; where there is nothing to do, the loop waits. -/
def drain (chain : Chain) (k : Nat) (s : System) (answer : NodeAnswer) : System :=
  ((s.drainAction k answer).bind (s.step chain)).getD s

/-- `flush_loop` has returned, and `await_flush` with it. -/
def Returned (s : System) (k : Nat) : Prop := (s.loops k).pc = .done

/-- A loop that returned can be told by its suspension point. -/
private def hasEnded : FlushPc → Bool
  | .done => true
  | _ => false

instance (s : System) (k : Nat) : Decidable (s.Returned k) :=
  decidable_of_iff (hasEnded (s.loops k).pc = true) (by
    unfold Returned
    cases (s.loops k).pc <;> simp [hasEnded])

end System

namespace FlushLoop

variable {l : FlushLoop}

/-! ### The loop stays cancelled -/

theorem endRange_cancelled (l : FlushLoop) (range : BlockRange) :
    (l.endRange range).cancelled = l.cancelled := by
  unfold endRange trackStale
  dsimp only
  split_ifs <;> rfl

theorem nextBlock_cancelled (l : FlushLoop) (range : BlockRange) :
    (l.nextBlock range).cancelled = l.cancelled := by
  unfold nextBlock
  split_ifs
  · rfl
  · exact endRange_cancelled l range

theorem sendGetSnapshot_cancelled (l : FlushLoop) (waiting : FlushPc) :
    (l.sendGetSnapshot waiting).cancelled = l.cancelled := by
  unfold sendGetSnapshot
  split_ifs <;> rfl

private theorem takeReply_cancelled {onSnapshot : FlushLoop → Snapshot → FlushLoop}
    {onDropped : FlushLoop → FlushLoop} {l' : FlushLoop} {rows : List RunRow}
    (htake : (l.takeReply onSnapshot onDropped).map (fun l => (l, [])) = some (l', rows))
    (hsnapshot : ∀ l snapshot, (onSnapshot l snapshot).cancelled = l.cancelled)
    (hdropped : ∀ l, (onDropped l).cancelled = l.cancelled) : l'.cancelled = l.cancelled := by
  obtain ⟨taken, htaken, heq⟩ := Option.map_eq_some_iff.mp htake
  obtain ⟨rfl, -⟩ := Prod.mk.inj heq
  unfold takeReply at htaken
  split at htaken
  · obtain rfl := Option.some.inj htaken
    exact hsnapshot _ _
  · obtain rfl := Option.some.inj htaken
    exact hdropped _
  · cases htaken

theorem onRange_cancelled (newBlock : Nat) (l : FlushLoop) (snapshot : Snapshot) :
    (l.onRange newBlock snapshot).cancelled = l.cancelled := by
  unfold onRange
  split
  · rfl
  · dsimp only
    split_ifs <;> rfl

theorem onRefresh_cancelled (range : BlockRange) (l : FlushLoop) (snapshot : Snapshot) :
    (l.onRefresh range snapshot).cancelled = l.cancelled := by
  unfold onRefresh
  split
  · exact endRange_cancelled l range
  · dsimp only
    split_ifs
    · rfl
    · exact endRange_cancelled _ _
    · exact nextBlock_cancelled _ _

theorem onProcessed_cancelled (l : FlushLoop) (range : BlockRange) (processed : Processed) :
    (l.onProcessed range processed).1.cancelled = l.cancelled := by
  cases processed with
  | failed => exact nextBlock_cancelled l _
  | _ => rfl

/-- No step touches the cancel token. -/
theorem step_cancelled {chain : Chain} {input : FlushInput} {l' : FlushLoop} {rows : List RunRow}
    (hstep : l.step chain input = some (l', rows)) : l'.cancelled = l.cancelled := by
  unfold step at hstep
  split at hstep
  case h_1 =>
    obtain ⟨rfl, -⟩ := Prod.mk.inj (Option.some.inj hstep)
    exact sendGetSnapshot_cancelled l _
  case h_2 =>
    refine takeReply_cancelled hstep (fun l snapshot => ?_) fun _ => rfl
    cases snapshot.ctx <;> rfl
  case h_3 =>
    obtain ⟨rfl, -⟩ := Prod.mk.inj (Option.some.inj hstep)
    rfl
  case h_4 =>
    obtain ⟨rfl, -⟩ := Prod.mk.inj (Option.some.inj hstep)
    unfold onBlockNumber
    split_ifs
    · exact sendGetSnapshot_cancelled l _
    · rfl
    · exact sendGetSnapshot_cancelled l _
  case h_5 =>
    refine takeReply_cancelled hstep (fun l snapshot => ?_) fun _ => rfl
    unfold onDrain
    split_ifs <;> rfl
  case h_6 => exact takeReply_cancelled hstep (onRange_cancelled _) fun _ => rfl
  case h_7 =>
    have hprocessed := congrArg Prod.fst (Option.some.inj hstep)
    rw [← show _ = l' from hprocessed]
    exact onProcessed_cancelled _ _ _
  case h_8 =>
    obtain ⟨rfl, -⟩ := Prod.mk.inj (Option.some.inj hstep)
    unfold sendUnchecked
    split_ifs <;> rfl
  case h_9 =>
    obtain ⟨rfl, -⟩ := Prod.mk.inj (Option.some.inj hstep)
    exact sendGetSnapshot_cancelled l _
  case h_10 =>
    exact takeReply_cancelled hstep (onRefresh_cancelled _) fun l => endRange_cancelled l _
  case h_11 => exact absurd hstep (by simp)

end FlushLoop

namespace System

variable {chain : Chain} {s t : System} {k : Nat} {answer : NodeAnswer}

/-! ### The whole system -/

/-- A cancelled loop stays cancelled. -/
theorem cancelled_of_step {action : Action} (haction : action ≠ .restartFlush)
    (hstep : s.step chain action = some t) (h : (s.loops k).cancelled) :
    (t.loops k).cancelled := by
  have hdeliver : ∀ (u : System) handled, ((u.deliver handled).loops k).cancelled =
      (u.loops k).cancelled := by
    intro u handled
    unfold deliver
    split <;> rfl
  cases action with
  | message m inserted =>
    obtain ⟨a, received, -, hreceive, rfl⟩ := step_message.mp hstep
    rw [hdeliver]
    cases m with
    | replaceFlushReceiver j =>
      obtain ⟨-, rfl⟩ := receive_replaceFlushReceiver.mp hreceive
      simp only [Function.update_apply]
      split_ifs with hj hread
      · exact hj ▸ h
      · exact hread ▸ h
      · exact h
    | _ =>
      obtain rfl := Option.some.inj hreceive
      exact h
  | stopSignal =>
    obtain ⟨a, -, rfl⟩ := Option.map_eq_some_iff.mp hstep
    rw [hdeliver]
    exact h
  | flushRequest nowMs =>
    obtain ⟨a, -, hserve⟩ := Option.bind_eq_some_iff.mp hstep
    obtain ⟨request, rest, -, rfl⟩ := serve_eq_some.mp hserve
    simp only [Function.update_apply]
    split_ifs with hread
    · subst hread
      unfold System.answer
      split <;> exact h
    · exact h
  | flashblockMark mark =>
    obtain ⟨a, -, rfl⟩ := Option.map_eq_some_iff.mp hstep
    exact h
  | restartFlush => exact absurd rfl haction
  | cancel j =>
    obtain rfl := Option.some.inj hstep
    simp only [Function.update_apply]
    split_ifs
    · rfl
    · exact h
  | flush j input =>
    obtain ⟨⟨l, rows⟩, hloop, rfl⟩ := Option.map_eq_some_iff.mp hstep
    simp only [Function.update_apply]
    split_ifs with hj
    · subst hj
      rw [FlushLoop.step_cancelled hloop]
      exact h
    · exact h

/-- A draining system is well formed, and its loop is cancelled. -/
structure Draining (k : Nat) (s : System) : Prop where
  wellFormed : s.WellFormed
  cancelled : (s.loops k).cancelled

theorem drainAction_ne_restartFlush : s.drainAction k answer ≠ some .restartFlush := by
  unfold drainAction
  repeat' split
  all_goals simp

theorem Draining.drain (h : Draining k s) : Draining k (s.drain chain k answer) := by
  unfold System.drain
  cases haction : s.drainAction k answer with
  | none => exact h
  | some action =>
    cases hstep : s.step chain action with
    | none => simpa [hstep] using h
    | some t =>
      have hne : action ≠ .restartFlush := fun heq =>
        drainAction_ne_restartFlush (haction.trans (congrArg some heq))
      simpa [hstep] using
        (⟨h.wellFormed.step hstep, cancelled_of_step hne hstep h.cancelled⟩ : Draining k t)

/-- A step of the loop itself. -/
theorem drain_flush {input : FlushInput} {l : FlushLoop} {rows : List RunRow}
    (haction : s.drainAction k answer = some (.flush k input))
    (hloop : (s.loops k).step chain input = some (l, rows)) :
    (s.drain chain k answer).loops k = l ∧ (s.drain chain k answer).actor = s.actor := by
  simp [drain, haction, step, hloop]

/-- The actor takes the next request of the loop. -/
theorem drain_serve {a : TxActor} (hactor : s.actor = some a) (hread : a.flushReceiver = k)
    {request : FlushRequest} {rest : List FlushRequest}
    (hqueue : (s.loops k).queue = request :: rest)
    (haction : s.drainAction k answer = some (.flushRequest answer.nowMs)) :
    (s.drain chain k answer).loops k = System.answer (s.loops k) rest a.snapshot request ∧
      (s.drain chain k answer).actor = some (a.handleFlushRequest answer.nowMs request) := by
  subst hread
  simp [drain, haction, step, hactor, serve, hqueue]

/-- The potential of the loop after a step is the potential of what the step made of it. -/
theorem potential_of_eq {l : FlushLoop} {actor : Option TxActor}
    (h : (s.drain chain k answer).loops k = l ∧ (s.drain chain k answer).actor = actor) :
    ((s.drain chain k answer).loops k).potential (s.drain chain k answer).actor =
      l.potential actor := by
  rw [h.1, h.2]

theorem drainAction_of_pending (hpc : (s.loops k).pc.Awaits)
    (hreply : (s.loops k).reply = .pending) :
    s.drainAction k answer = if (s.loops k).receiver = .inTransit
      then some (.message (.replaceFlushReceiver k) true)
      else some (.flushRequest answer.nowMs) := by
  rcases FlushLoop.awaits_cases hpc with hp | hp | ⟨newBlock, hp⟩ | ⟨range, hp⟩
  all_goals simp only [drainAction, hp, hreply]

/-- The actor takes up the channel of a restarted loop. -/
private theorem descends_transit (h : Draining k s) (hpc : (s.loops k).pc.Awaits)
    (hreply : (s.loops k).reply = .pending) (htransit : (s.loops k).receiver = .inTransit) :
    Descends ((s.loops k).Idle s.actor answer) ((s.loops k).potential s.actor)
      (((s.drain chain k answer).loops k).potential (s.drain chain k answer).actor) := by
  have hcontext : (s.loops k).pc = .contextReply := by
    rcases (h.wellFormed.sound k).inTransit htransit with hawait | ⟨hcontext, -⟩
    · rcases FlushLoop.awaits_cases hpc with hp | hp | ⟨newBlock, hp⟩ | ⟨range, hp⟩
      all_goals rw [hawait] at hp; cases hp
    · exact hcontext
  have haction : s.drainAction k answer = _ := drainAction_of_pending hpc hreply
  rw [if_pos htransit] at haction
  cases hactor : s.actor with
  | none =>
    -- nobody is left to take it up
    have hsame : s.drain chain k answer = s := by simp [drain, haction, step, hactor]
    rw [hsame, hactor]
    apply Descends.of_idle _ le_rfl
    simp [FlushLoop.Idle, hcontext, FlushLoop.inSight, hreply, FlushLoop.supply, htransit]
  | some a =>
    by_cases hstatus : a.status = .shuttingDown
    · apply Descends.of_lt
      have hended : (s.drain chain k answer).loops k =
            FlushLoop.close { s.loops k with receiver := .attached } ∧
          (s.drain chain k answer).actor = none := by
        simp [drain, haction, step, hactor, receive, htransit, TxActor.handleMessage, deliver,
          TxActor.survivor, hstatus]
      rw [hended.1, hended.2]
      have hclose : FlushLoop.close { s.loops k with receiver := .attached } =
          (s.loops k).close := rfl
      rw [hclose]
      exact FlushLoop.descends_close hcontext hreply
    · have hattached : (s.drain chain k answer).loops k =
            { s.loops k with receiver := .attached } ∧
          (s.drain chain k answer).actor = some { a with flushReceiver := k } := by
        simp [drain, haction, step, hactor, receive, htransit, TxActor.handleMessage, deliver,
          TxActor.survivor, hstatus]
      rw [hattached.1, hattached.2]
      exact FlushLoop.descends_attach hcontext hreply htransit ⟨rfl, rfl⟩

/-- A loop that waits for an answer is served by the actor. -/
theorem descends_pending (h : Draining k s) (hpc : (s.loops k).pc.Awaits)
    (hreply : (s.loops k).reply = .pending) :
    Descends ((s.loops k).Idle s.actor answer) ((s.loops k).potential s.actor)
      (((s.drain chain k answer).loops k).potential (s.drain chain k answer).actor) := by
  by_cases htransit : (s.loops k).receiver = .inTransit
  · exact descends_transit h hpc hreply htransit
  have haction : s.drainAction k answer = _ := drainAction_of_pending hpc hreply
  rw [if_neg htransit] at haction
  have hsound := h.wellFormed.sound k
  cases hqueue : (s.loops k).queue with
  | nil =>
    -- a pending request is queued
    have hshape := hsound.shape
    rw [hqueue, hreply] at hshape
    rcases FlushLoop.awaits_cases hpc with hp | hp | ⟨newBlock, hp⟩ | ⟨range, hp⟩
    all_goals simp [hp, FlushLoop.Shape, FlushLoop.Asked] at hshape
  | cons request rest =>
    have hopen : (s.loops k).receiver = .attached := by
      cases hreceiver : (s.loops k).receiver with
      | inTransit => exact absurd hreceiver htransit
      | attached => rfl
      | closed => exact absurd (hsound.closed hreceiver) (by simp [hqueue])
    obtain ⟨a, hactor, hread⟩ := (h.wellFormed.attached k).mp hopen
    rw [potential_of_eq (drain_serve hactor hread hqueue haction), hactor]
    rcases hsound.request_cases hqueue with ⟨rfl, rfl, -, -⟩ |
      ⟨range, hashes, rfl, ⟨hrefresh, -, -⟩ | ⟨hrefresh, rfl, -⟩⟩
    · exact FlushLoop.descends_answer hpc hreply hopen hqueue
    · rcases FlushLoop.awaits_cases hpc with hp | hp | ⟨newBlock, hp⟩ | ⟨range', hp⟩
      all_goals rw [hrefresh] at hp; cases hp
    · exact .of_lt (FlushLoop.descends_removal hrefresh hreply hqueue answer.nowMs)

theorem descends_tick (haction : s.drainAction k answer = some (.flush k .tick)) {l : FlushLoop}
    (hloop : (s.loops k).step chain .tick = some (l, []))
    (h : Descends ((s.loops k).Idle s.actor answer) ((s.loops k).potential s.actor)
      (l.potential s.actor)) :
    Descends ((s.loops k).Idle s.actor answer) ((s.loops k).potential s.actor)
      (((s.drain chain k answer).loops k).potential (s.drain chain k answer).actor) := by
  rw [potential_of_eq (drain_flush haction hloop)]
  exact h

/-- A loop with an answer in its oneshot takes it. -/
theorem descends_taken (h : Draining k s) (hpc : (s.loops k).pc.Awaits)
    (hreply : (s.loops k).reply ≠ .pending) :
    Descends ((s.loops k).Idle s.actor answer) ((s.loops k).potential s.actor)
      (((s.drain chain k answer).loops k).potential (s.drain chain k answer).actor) := by
  have haction : s.drainAction k answer = some (.flush k .tick) := by
    rcases FlushLoop.awaits_cases hpc with hp | hp | ⟨newBlock, hp⟩ | ⟨range, hp⟩
    all_goals
      cases hcase : (s.loops k).reply with
      | pending => exact absurd hcase hreply
      | _ => simp only [drainAction, hp, hcase]
  have hsettled : (s.loops k).reply ≠ .idle := by
    intro hidle
    have hshape := FlushLoop.asked_of_awaits hpc (h.wellFormed.sound k).shape hreply
    rw [hidle] at hshape
    exact hshape
  cases hcase : (s.loops k).reply with
  | idle => exact absurd hcase hsettled
  | pending => exact absurd hcase hreply
  | sent snapshot =>
    rcases FlushLoop.awaits_cases hpc with hp | hp | ⟨newBlock, hp⟩ | ⟨range, hp⟩
    · refine descends_tick haction ?_ (FlushLoop.descends_onContext hp hcase)
      simp only [FlushLoop.step, hp, FlushLoop.takeReply, hcase, Option.map_some]
    · refine descends_tick haction ?_ (FlushLoop.descends_onDrain hp hcase)
      simp only [FlushLoop.step, hp, FlushLoop.takeReply, hcase, Option.map_some]
    · refine descends_tick haction ?_ (FlushLoop.descends_onRange hp hcase)
      simp only [FlushLoop.step, hp, FlushLoop.takeReply, hcase, Option.map_some]
    · refine descends_tick haction ?_ (.of_lt (FlushLoop.descends_onRefresh hp h.cancelled hcase))
      simp only [FlushLoop.step, hp, FlushLoop.takeReply, hcase, Option.map_some]
  | dropped =>
    rcases FlushLoop.awaits_cases hpc with hp | hp | ⟨newBlock, hp⟩ | ⟨range, hp⟩
    · refine descends_tick haction ?_ (FlushLoop.descends_finish (Or.inl hp) hcase)
      simp only [FlushLoop.step, hp, FlushLoop.takeReply, hcase, Option.map_some]
    · refine descends_tick haction ?_ (FlushLoop.descends_drainDropped hp hcase)
      simp only [FlushLoop.step, hp, FlushLoop.takeReply, hcase, Option.map_some]
    · refine descends_tick haction ?_ (FlushLoop.descends_finish (Or.inr ⟨newBlock, hp⟩) hcase)
      simp only [FlushLoop.step, hp, FlushLoop.takeReply, hcase, Option.map_some]
    · refine descends_tick haction ?_
        (.of_lt (FlushLoop.descends_refreshDropped hp h.cancelled hcase))
      simp only [FlushLoop.step, hp, FlushLoop.takeReply, hcase, Option.map_some]

theorem descends_awaiting (h : Draining k s) (hpc : (s.loops k).pc.Awaits) :
    Descends ((s.loops k).Idle s.actor answer) ((s.loops k).potential s.actor)
      (((s.drain chain k answer).loops k).potential (s.drain chain k answer).actor) := by
  by_cases hreply : (s.loops k).reply = .pending
  · exact descends_pending h hpc hreply
  · exact descends_taken h hpc hreply

/-- **One step of a draining system.** -/
theorem drain_descends (h : Draining k s) (hrunning : ¬ s.Returned k) :
    Descends ((s.loops k).Idle s.actor answer) ((s.loops k).potential s.actor)
      (((s.drain chain k answer).loops k).potential (s.drain chain k answer).actor) := by
  have hshape := (h.wellFormed.sound k).shape
  -- one case per suspension point
  cases hpc : (s.loops k).pc with
  | done => exact absurd hpc hrunning
  | panicked =>
    have hsame : s.drain chain k answer = s := by simp [drain, drainAction, hpc]
    rw [hsame]
    apply Descends.of_idle _ le_rfl
    simp [FlushLoop.Idle, hpc]
  | awaitContext =>
    rw [hpc] at hshape
    refine descends_tick ?_ ?_ (FlushLoop.descends_awaitContext hpc hshape.2)
    · simp only [drainAction, hpc, hshape.2]
    · simp only [FlushLoop.step, hpc]
  | poll =>
    rw [hpc] at hshape
    have haction : s.drainAction k answer =
        some (.flush k (.blockNumber answer.blockNumber)) := by
      simp only [drainAction, hpc]
    cases hanswer : answer.blockNumber with
    | none =>
      rw [hanswer] at haction
      have hloop : (s.loops k).step chain (.blockNumber none) = some (s.loops k, []) := by
        simp only [FlushLoop.step, hpc]
      rw [potential_of_eq (drain_flush haction hloop)]
      apply Descends.of_idle _ le_rfl
      simp [FlushLoop.Idle, hpc, hanswer]
    | some newBlock =>
      rw [hanswer] at haction
      have hloop : (s.loops k).step chain (.blockNumber (some newBlock)) =
          some ((s.loops k).onBlockNumber newBlock, []) := by
        simp only [FlushLoop.step, hpc]
      rw [potential_of_eq (drain_flush haction hloop)]
      exact FlushLoop.descends_onBlockNumber hpc hshape.2 h.cancelled hanswer
  | block range =>
    rw [hpc] at hshape
    have hprocess : ∀ receipts, s.drainAction k answer = some (.flush k (.receipts receipts)) →
        Descends ((s.loops k).Idle s.actor answer) ((s.loops k).potential s.actor)
          (((s.drain chain k answer).loops k).potential (s.drain chain k answer).actor) := by
      intro receipts haction
      have hprocessed : (FlushLoop.potential _ s.actor) < (s.loops k).potential s.actor :=
        FlushLoop.descends_onProcessed chain hpc hshape.2 h.cancelled receipts
      have hloop : (s.loops k).step chain (.receipts receipts) =
          some (FlushLoop.onProcessed { s.loops k with
            used := (range.bn, range.cacheSnapshot) :: (s.loops k).used } range
            (processBlockReceipts chain range.cacheSnapshot range.bn receipts)) := by
        simp only [FlushLoop.step, hpc]
      rw [potential_of_eq (drain_flush haction hloop)]
      exact .of_lt hprocessed
    by_cases hempty : range.cacheSnapshot = []
    · exact hprocess ⟨true, [], true⟩ (by simp only [drainAction, hpc, hempty, if_true])
    · cases hblock : answer.block with
      | some receipts =>
        exact hprocess receipts
          (by simp only [drainAction, hpc, hempty, if_false, hblock, Option.map_some])
      | none =>
        have hsame : s.drain chain k answer = s := by
          simp [drain, drainAction, hpc, hempty, hblock]
        rw [hsame]
        apply Descends.of_idle _ le_rfl
        simp [FlushLoop.Idle, hpc, hempty, hblock]
  | confirmed range hashes =>
    rw [hpc] at hshape
    refine descends_tick ?_ ?_ (.of_lt (FlushLoop.descends_confirmed hpc))
    · simp only [drainAction, hpc, hshape.2]
    · simp only [FlushLoop.step, hpc]
  | refresh range =>
    rw [hpc] at hshape
    have hqueue : (s.loops k).queue.length ≤ 1 := by
      rcases hshape.2 with hempty | ⟨hashes, hone⟩
      · simp [hempty]
      · simp [hone]
    refine descends_tick ?_ ?_ (.of_lt (FlushLoop.descends_refresh hpc hshape.1 hqueue))
    · simp only [drainAction, hpc, hshape.1]
    · simp only [FlushLoop.step, hpc]
  | contextReply => exact descends_awaiting h ⟨.awaitContext, hpc ▸ .context⟩
  | drainReply => exact descends_awaiting h ⟨.poll, hpc ▸ .drain⟩
  | rangeReply newBlock => exact descends_awaiting h ⟨.poll, hpc ▸ .range newBlock⟩
  | refreshReply range => exact descends_awaiting h ⟨.refresh range, hpc ▸ .refresh range⟩

/-- The run of the system that the node's answers drive. -/
def drained (chain : Chain) (k : Nat) (s : System) (answers : Nat → NodeAnswer) : Nat → System :=
  trace (drain chain k) s answers

theorem returned_drain (answer : NodeAnswer) (h : s.Returned k) :
    (s.drain chain k answer).Returned k := by
  have hpc : (s.loops k).pc = .done := h
  have hsame : s.drain chain k answer = s := by simp [drain, drainAction, hpc]
  rw [hsame]
  exact h

/-- **Receipt collection after cancellation.** A cancelled flush loop returns exactly when
its answers are not idle from some moment on. -/
theorem returns_iff (hwf : s.WellFormed) (hcancelled : (s.loops k).cancelled)
    (answers : Nat → NodeAnswer) :
    (∃ n, (s.drained chain k answers n).Returned k) ↔
      ∀ n, ∃ m, n ≤ m ∧ ¬ ((s.drained chain k answers m).loops k).Idle
        (s.drained chain k answers m).actor (answers m) := by
  have hactive : ∀ (s : System) answer, s.Returned k → ¬ (s.loops k).Idle s.actor answer := by
    intro s answer hreturned
    have hpc : (s.loops k).pc = .done := hreturned
    simp [FlushLoop.Idle, hpc]
  exact reaches_iff (fun s : System => (s.loops k).potential s.actor)
    (fun _ _ => Draining.drain) (fun _ answer => returned_drain answer) hactive
    (fun _ _ => drain_descends) ⟨hwf, hcancelled⟩

/-! ### A chain that stands still -/

/-- The loop polls a chain whose head is behind its target, while a transaction is
pending. -/
structure Waiting (k head : Nat) (s : System) : Prop where
  draining : Draining k s
  attached : (s.loops k).receiver = .attached
  pending : ∃ a, s.actor = some a ∧ a.cache.values ≠ []
  behind : head ≤ (s.loops k).targetBlock
  pc : (s.loops k).pc = .poll ∨ (s.loops k).pc = .drainReply ∧
    ((s.loops k).reply = .pending ∨
      ∃ snapshot, (s.loops k).reply = .sent snapshot ∧ snapshot.txs ≠ [])

/-- The poll without a new block, its snapshot, and the next poll. -/
theorem Waiting.drain {head : Nat} (h : Waiting k head s)
    (hanswer : answer.blockNumber = some head) : Waiting k head (s.drain chain k answer) := by
  have hdraining : Draining k (s.drain chain k answer) := h.draining.drain
  obtain ⟨a, hactor, hcache⟩ := h.pending
  rcases h.pc with hpoll | ⟨hdrain, hpending | ⟨snapshot, hsent, htxs⟩⟩
  · have haction : s.drainAction k answer = some (.flush k (.blockNumber (some head))) := by
      simp only [drainAction, hpoll, hanswer]
    have hasked : (s.loops k).onBlockNumber head = { s.loops k with
        pc := .drainReply, queue := (s.loops k).queue ++ [.getSnapshot], reply := .pending } := by
      simp [FlushLoop.onBlockNumber, FlushLoop.sendGetSnapshot, h.behind, h.draining.cancelled,
        h.attached]
    have hloop : (s.loops k).step chain (.blockNumber (some head)) =
        some ((s.loops k).onBlockNumber head, []) := by
      simp only [FlushLoop.step, hpoll]
    obtain ⟨hloops, hactors⟩ : _ ∧ _ := drain_flush haction hloop
    rw [hasked] at hloops
    refine ⟨hdraining, ?_, ⟨a, hactors.trans hactor, hcache⟩, ?_, Or.inr ⟨?_, Or.inl ?_⟩⟩
    all_goals rw [hloops]
    · exact h.attached
    · exact h.behind
  · have haction : s.drainAction k answer = some (.flushRequest answer.nowMs) := by
      simp [drainAction, hdrain, hpending, h.attached]
    have hread := (h.draining.wellFormed.attached_iff hactor k).mp h.attached
    have hqueue : (s.loops k).queue = [.getSnapshot] := by
      have hshape := (h.draining.wellFormed.sound k).shape
      rw [hdrain, hpending] at hshape
      exact hshape
    obtain ⟨hloops, hactors⟩ : _ ∧ _ := drain_serve hactor hread hqueue haction
    refine ⟨hdraining, ?_, ⟨a, hactors, hcache⟩, ?_, Or.inr ⟨?_, Or.inr ⟨a.snapshot, ?_, hcache⟩⟩⟩
    all_goals rw [hloops]
    · exact h.attached
    · exact h.behind
    · exact hdrain
    · rfl
  · have haction : s.drainAction k answer = some (.flush k .tick) := by
      simp only [drainAction, hdrain, hsent]
    have hloop : (s.loops k).step chain .tick =
        some ({ s.loops k with reply := .idle, pc := .poll }, []) := by
      simp [FlushLoop.step, hdrain, FlushLoop.takeReply, hsent, FlushLoop.onDrain, htxs]
    obtain ⟨hloops, hactors⟩ : _ ∧ _ := drain_flush haction hloop
    refine ⟨hdraining, ?_, ⟨a, hactors.trans hactor, hcache⟩, ?_, Or.inl ?_⟩
    all_goals rw [hloops]
    · exact h.attached
    · exact h.behind

/-- A chain that stands still keeps a pending transaction, and the loop, waiting. -/
theorem Waiting.not_returned {head : Nat} (h : Waiting k head s) {answers : Nat → NodeAnswer}
    (hanswers : ∀ n, (answers n).blockNumber = some head) (n : Nat) :
    ¬ (s.drained chain k answers n).Returned k := by
  have hwaiting : Waiting k head (s.drained chain k answers n) := by
    induction n with
    | zero => exact h
    | succ n ih => exact ih.drain (hanswers n)
  intro hreturned
  have hdone : ((s.drained chain k answers n).loops k).pc = .done := hreturned
  rcases hwaiting.pc with hpc | ⟨hpc, -⟩
  all_goals rw [hdone] at hpc; cases hpc

/-- One transaction is sent in a run that starts at block 5, and its flush loop is
cancelled. -/
def cancelledRun : List Action :=
  [.message (.initCtx ⟨7, 5⟩) true, .message (.sentRunTx 1 0 none none none .listening) true,
    .flush 0 .tick, .flushRequest 0, .flush 0 .tick, .cancel 0]

/-- A run on a chain that stands still: the cancelled flush loop, and with it
`Contender::spam`, never returns. -/
theorem not_returned_of_cancelledRun :
    ∃ s, Execution.run (System.step Chain.empty) init cancelledRun = some s ∧
      (s.loops 0).cancelled ∧ s.WellFormed ∧
      ∀ n, ¬ (s.drained Chain.empty 0 (fun _ => ⟨some 5, none, 0⟩) n).Returned 0 := by
  have hrun : (Execution.run (System.step Chain.empty) init cancelledRun).isSome := by decide
  obtain ⟨s, hs⟩ := Option.isSome_iff_exists.mp hrun
  have hwf : s.WellFormed := wellFormed_of_run hs
  have hwaiting : Waiting 0 5 s := by
    obtain rfl := Option.some.inj hs
    exact ⟨⟨hwf, rfl⟩, rfl, ⟨_, rfl, List.cons_ne_nil _ _⟩, le_rfl, Or.inl rfl⟩
  exact ⟨s, hs, hwaiting.draining.cancelled, hwf, hwaiting.not_returned fun _ => rfl⟩

/-- A chain whose block 5 includes the transaction with hash 1. -/
def landingChain : Chain := ⟨fun b => if b = 5 then [⟨1, true, 21000⟩] else [], fun _ => 0⟩

/-- On a chain that includes the transaction the loop returns. -/
theorem returned_of_cancelledRun :
    ∃ s, Execution.run (System.step landingChain) init cancelledRun = some s ∧
      (∃ n, (s.drained landingChain 0 (fun _ => ⟨some 6, some ⟨true, [], true⟩, 0⟩) n).Returned
        0) ∧
      ∀ n, ∃ m, n ≤ m ∧
        ¬ ((s.drained landingChain 0 (fun _ => ⟨some 6, some ⟨true, [], true⟩, 0⟩) m).loops
          0).Idle
          (s.drained landingChain 0 (fun _ => ⟨some 6, some ⟨true, [], true⟩, 0⟩) m).actor
          ⟨some 6, some ⟨true, [], true⟩, 0⟩ := by
  have hrun : ((Execution.run (System.step landingChain) init cancelledRun).map fun s =>
      ((s.loops 0).cancelled, decide ((s.drained landingChain 0
        (fun _ => ⟨some 6, some ⟨true, [], true⟩, 0⟩) 10).Returned 0))) = some (true, true) := by
    decide +kernel
  obtain ⟨s, hs, hboth⟩ := Option.map_eq_some_iff.mp hrun
  obtain ⟨hcancelled, hreturned⟩ := Prod.mk.inj hboth
  have hreached : ∃ n, (s.drained landingChain 0
      (fun _ => ⟨some 6, some ⟨true, [], true⟩, 0⟩) n).Returned 0 :=
    ⟨10, of_decide_eq_true hreturned⟩
  exact ⟨s, hs, hreached, (returns_iff (wellFormed_of_run hs) hcancelled _).mp hreached⟩

end System

end Contender
