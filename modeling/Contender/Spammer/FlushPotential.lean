import Contender.Semantics.Progress
import Contender.Spammer.WellFormed

/-!
# The potential of a cancelled flush loop

Once cancelled, the flush loop counts the blocks in which the number of pending
transactions stays the same and gives up after six of them. The potential says how much
of that is left: how many ranges the loop can still go through, how many blocks are left
of the current one, and how many steps its current stop takes. No step of the loop and no
answer of the actor makes it grow, and each makes it smaller that is not idle.

An answer is idle that brings nothing: a failed poll, a poll without a new block while
transactions are pending, a block that is not there, a context that is not set.
-/

namespace Contender

open Semantics Semantics.Progress

/-- What the node answers when the loop asks for the block number and for a block. A block
that is missing, or whose request fails, is asked for again. -/
structure NodeAnswer where
  blockNumber : Option Nat
  block : Option ReceiptAnswer
  nowMs : Nat
  deriving DecidableEq, Repr

namespace FlushLoop

/-- The snapshot that a request would bring now. -/
def supply (l : FlushLoop) (actor : Option TxActor) : Option Snapshot :=
  if l.receiver = .closed then none else some (actor.elim ⟨[], none⟩ TxActor.snapshot)

/-- The snapshot in the oneshot, or the one that a request would bring. -/
def inSight (l : FlushLoop) (actor : Option TxActor) : Option Snapshot :=
  match l.reply with
  | .sent snapshot => some snapshot
  | .dropped => none
  | _ => l.supply actor

/-- The answer does not bring the collection on: a failed poll, a poll without a new block
while transactions are pending, a missing block, a run without a context. A panic of the
loop is idle forever. -/
def Idle (l : FlushLoop) (actor : Option TxActor) (answer : NodeAnswer) : Prop :=
  match l.pc with
  | .awaitContext => ∃ snapshot ∈ l.inSight actor, snapshot.ctx = none
  | .contextReply => ∃ snapshot ∈ l.inSight actor, snapshot.ctx = none
  | .poll =>
    match answer.blockNumber with
    | none => True
    | some newBlock =>
      ∃ snapshot ∈ l.inSight actor,
        if newBlock ≤ l.targetBlock then snapshot.txs ≠ [] else snapshot.ctx = none
  | .drainReply => ∃ snapshot ∈ l.inSight actor, snapshot.txs ≠ []
  | .rangeReply _ => ∃ snapshot ∈ l.inSight actor, snapshot.ctx = none
  | .block range => range.cacheSnapshot ≠ [] ∧ answer.block = none
  | .panicked => True
  | _ => False

/-! ### The potential of a loop -/

/-- Whether two counts differ. -/
def gap (m n : Nat) : Nat := if m = n then 0 else 1

@[simp] theorem gap_self (n : Nat) : gap n n = 0 := by simp [gap]

theorem gap_triangle (m n p : Nat) : gap m p ≤ gap m n + gap n p := by
  unfold gap
  split_ifs <;> omega

theorem gap_le_sub {m n : Nat} (h : n ≤ m) : gap m n + n ≤ m := by
  unfold gap
  split_ifs <;> omega

/-- The number of transactions in the actor's cache. -/
def cached (actor : Option TxActor) : Nat := actor.elim 0 fun a => a.cache.values.length

/-- The number of transactions in the snapshot that comes next. -/
def awaited (l : FlushLoop) (actor : Option TxActor) : Nat :=
  match l.reply with
  | .sent snapshot => snapshot.txs.length
  | _ => cached actor

/-- The snapshot that the loop goes by, in a range. -/
def observed (l : FlushLoop) (actor : Option TxActor) : Nat :=
  match l.pc with
  | .block range => range.cacheSnapshot.length
  | .confirmed range _ => range.cacheSnapshot.length
  | .refresh range => range.cacheSnapshot.length
  | .refreshReply range => range.cacheSnapshot.length
  | _ => l.awaited actor

/-- How often a range may still end before the loop gives up. The count of pending
transactions can change from what was last seen to what is observed, awaited and cached,
and with every transaction that leaves the cache; each change starts the count of stale
blocks again. -/
def patience (last stale observed awaited cached : Nat) : Nat :=
  (staleBlockLimit + 1) * (gap last observed + gap observed awaited + gap awaited cached + cached) +
    (staleBlockLimit - stale)

/-- The context that a request would bring. -/
def supplied (l : FlushLoop) (actor : Option TxActor) : Option ActorContext :=
  (l.supply actor).bind Snapshot.ctx

/-- A range goes on with a context. Without one it ends and is not counted. -/
def Guided (l : FlushLoop) (actor : Option TxActor) : Prop :=
  ((l.inSight actor).bind Snapshot.ctx).isSome ∧ (l.supplied actor).isSome

instance (l : FlushLoop) (actor : Option TxActor) : Decidable (l.Guided actor) :=
  inferInstanceAs (Decidable (_ ∧ _))

/-- The stages of a round: the wait for a context, the poll, the entry of a range or the
end, the range. Each is left for a lower one. -/
def stage (l : FlushLoop) (actor : Option TxActor) : Nat :=
  match l.pc with
  | .awaitContext => 6
  | .contextReply => 6
  | .poll => 3
  | .drainReply => (l.inSight actor).elim 3 fun snapshot => if snapshot.txs = [] then 2 else 3
  | .rangeReply newBlock =>
    ((l.inSight actor).bind Snapshot.ctx).elim 3 fun ctx =>
      if ctx.targetBlock < newBlock then if (l.supplied actor).isSome then 2 else 5 else 3
  | .done => 0
  | .panicked => 0
  | _ => if l.Guided actor then 1 else 4

/-- The blocks left of a range. -/
def blocksLeft (l : FlushLoop) : Nat :=
  match l.pc with
  | .block range => range.newBlock - range.bn
  | .confirmed range _ => range.newBlock - range.bn
  | .refresh range => range.newBlock - range.bn
  | .refreshReply range => range.newBlock - range.bn
  | _ => 0

/-- A loop behind the actor's target catches up with it in three steps. -/
def lag (l : FlushLoop) (actor : Option TxActor) (targetBlock : Nat) : Nat :=
  (l.supplied actor).elim 0 fun ctx => if targetBlock < ctx.targetBlock then 3 else 0

/-- The steps to the next suspension point that matters. -/
def stepsLeft (l : FlushLoop) (actor : Option TxActor) : Nat :=
  match l.pc with
  | .awaitContext => 4
  | .contextReply =>
    match l.reply with
    | .sent snapshot => if snapshot.ctx.isSome then 1 else 4
    | .dropped => 0
    | _ => if (l.supplied actor).isSome then if l.receiver = .inTransit then 3 else 2 else 4
  | .poll => l.lag actor l.targetBlock
  | .drainReply =>
    match l.reply with
    | .sent snapshot => if snapshot.txs = [] then 0 else l.lag actor l.targetBlock
    | .dropped => 1 + l.lag actor l.targetBlock
    | _ => if cached actor = 0 then 1 else l.lag actor l.targetBlock
  | .rangeReply newBlock =>
    match l.reply with
    | .sent snapshot =>
      snapshot.ctx.elim (l.lag actor l.targetBlock) fun ctx =>
        if ctx.targetBlock < newBlock then 0 else 1 + l.lag actor ctx.targetBlock
    | .dropped => 0
    | _ => (l.supplied actor).elim (l.lag actor l.targetBlock) fun ctx =>
        if ctx.targetBlock < newBlock then 1 else 2
  | .block _ => 6
  | .confirmed _ _ => 5
  | .refresh _ => 4
  | .refreshReply _ => 1 + l.queue.length
  | _ => 0

/-- The rounds, and the stage of the current one. -/
def roundsLeft (l : FlushLoop) (actor : Option TxActor) : Nat :=
  8 * patience l.lastPendingCount l.staleBlocks (l.observed actor) (l.awaited actor)
    (cached actor) + l.stage actor

def potential (l : FlushLoop) (actor : Option TxActor) : Rounds :=
  rounds (l.roundsLeft actor) l.blocksLeft (l.stepsLeft actor)

variable {l : FlushLoop} {actor : Option TxActor} {answer : NodeAnswer}

/-- Taking the awaited snapshot, or leaving it, costs nothing. -/
theorem patience_taken_le (last stale observed awaited cached : Nat) :
    patience last stale awaited cached cached ≤ patience last stale observed awaited cached := by
  have htriangle := gap_triangle last observed awaited
  simp only [patience, staleBlockLimit, gap_self]
  omega

/-- The awaited snapshot may be passed over for the cache. -/
theorem patience_kept_le (last stale observed awaited cached : Nat) :
    patience last stale observed cached cached ≤ patience last stale observed awaited cached := by
  have htriangle := gap_triangle observed awaited cached
  simp only [patience, staleBlockLimit, gap_self]
  omega

/-- A range may be left without counting its blocks. -/
theorem patience_left_le (last stale observed cached : Nat) :
    patience last stale cached cached cached ≤ patience last stale observed cached cached :=
  patience_taken_le last stale observed cached cached

/-- Transactions that leave the cache may change the count once each. -/
theorem patience_removed_le {cached cached' : Nat} (h : cached' ≤ cached)
    (last stale observed : Nat) :
    patience last stale observed cached' cached' ≤ patience last stale observed cached cached := by
  have htriangle := gap_triangle observed cached cached'
  have hremoved := gap_le_sub h
  simp only [patience, staleBlockLimit, gap_self]
  omega

/-- The end of a range with pending transactions costs some patience. -/
theorem patience_ended_lt (last stale observed last' stale' cached : Nat)
    (h : last' = last ∧ observed = last ∧ stale < stale' ∧ stale' < staleBlockLimit ∨
      last' = observed ∧ observed ≠ last ∧ stale' = 0) :
    patience last' stale' cached cached cached < patience last stale observed cached cached := by
  simp only [patience, staleBlockLimit, gap_self] at h ⊢
  rcases h with ⟨rfl, rfl, hstale, hlimit⟩ | ⟨rfl, hchanged, rfl⟩
  · rw [gap_self]
    omega
  · have hgap : gap last last' = 1 := by simp [gap, Ne.symm hchanged]
    rw [hgap]
    omega

/-- The end of a range leads to the next poll, or out of the loop. -/
theorem endRange_lt (range : BlockRange) (hcancelled : l.cancelled) (hreply : l.reply = .idle)
    {bound : Nat}
    (hbound : range.cacheSnapshot ≠ [] ∧ 1 ≤ bound ∨ 4 ≤ bound) :
    (l.endRange range).roundsLeft actor < 8 * patience l.lastPendingCount l.staleBlocks
      range.cacheSnapshot.length (cached actor) (cached actor) + bound := by
  have hleft := patience_left_le l.lastPendingCount l.staleBlocks range.cacheSnapshot.length
    (cached actor)
  unfold endRange trackStale
  by_cases hempty : range.cacheSnapshot = []
  · have h4 : 4 ≤ bound := hbound.resolve_left fun h => h.1 hempty
    simp only [hempty, ne_eq, not_true, and_false, if_false, false_and, roundsLeft, observed,
      awaited, hreply, stage]
    rw [hempty] at hleft
    omega
  · have hone : 1 ≤ bound := by
      rcases hbound with h | h
      · exact h.2
      · omega
    simp only [hcancelled, hempty, ne_eq, not_false_eq_true, and_self, if_true, true_and]
    split_ifs with hsame hlimit hlimit
    · simp only [roundsLeft, observed, awaited, hreply, stage]
      have hmore : patience l.lastPendingCount
          (l.staleBlocks + max (range.newBlock - range.blocksStart) 1) (cached actor)
          (cached actor) (cached actor) ≤ patience l.lastPendingCount l.staleBlocks
          (cached actor) (cached actor) (cached actor) := by
        unfold patience
        omega
      omega
    · have hmore : l.staleBlocks < l.staleBlocks + max (range.newBlock - range.blocksStart) 1 := by
        omega
      have hended := patience_ended_lt l.lastPendingCount l.staleBlocks _ _ _ (cached actor)
        (Or.inl ⟨rfl, hsame, hmore, Nat.lt_of_not_le hlimit⟩)
      simp only [roundsLeft, observed, awaited, hreply, stage]
      omega
    · exact absurd hlimit (by simp [staleBlockLimit])
    · have hended := patience_ended_lt l.lastPendingCount l.staleBlocks _ _ _ (cached actor)
        (Or.inr ⟨rfl, hsame, rfl⟩)
      simp only [roundsLeft, observed, awaited, hreply, stage]
      omega

/-! ### The first context -/

/-- A closed channel ends the loop where it asks. -/
theorem sendGetSnapshot_closed {waiting : FlushPc} (hclosed : l.receiver = .closed) :
    l.sendGetSnapshot waiting = { l with pc := .done } := by
  simp [sendGetSnapshot, hclosed]

theorem sendGetSnapshot_open {waiting : FlushPc} (hopen : l.receiver ≠ .closed) :
    l.sendGetSnapshot waiting =
      { l with pc := waiting, queue := l.queue ++ [.getSnapshot], reply := .pending } := by
  simp [sendGetSnapshot, hopen]

/-- A snapshot without a context is in sight when none would be supplied. -/
theorem exists_supply_of_supplied (hopen : l.receiver ≠ .closed)
    (hctx : l.supplied actor = none) : ∃ snapshot ∈ l.supply actor, snapshot.ctx = none := by
  have hsupply : l.supply actor = some (actor.elim ⟨[], none⟩ TxActor.snapshot) := by
    simp [supply, hopen]
  rw [supplied, hsupply] at hctx
  exact ⟨_, hsupply, hctx⟩

theorem descends_awaitContext (hpc : l.pc = .awaitContext) (hreply : l.reply = .idle) :
    Descends (l.Idle actor answer) (l.potential actor)
      ((l.sendGetSnapshot .contextReply).potential actor) := by
  by_cases hclosed : l.receiver = .closed
  · rw [sendGetSnapshot_closed hclosed]
    apply Descends.of_lt
    apply rounds_lt_of_rounds
    simp [roundsLeft, stage, observed, awaited, hpc, hreply]
  rw [sendGetSnapshot_open hclosed]
  have hrounds : FlushLoop.roundsLeft { l with
      pc := .contextReply, queue := l.queue ++ [.getSnapshot], reply := .pending } actor ≤
      l.roundsLeft actor := by
    simp [roundsLeft, stage, observed, awaited, hpc, hreply]
  cases hctx : l.supplied actor with
  | none =>
    apply Descends.of_idle
    · simpa only [Idle, hpc, inSight, hreply] using exists_supply_of_supplied hclosed hctx
    · apply rounds_le hrounds (by simp [blocksLeft])
      simp only [stepsLeft, hpc]
      split_ifs <;> omega
  | some ctx =>
    apply Descends.of_lt
    apply rounds_lt_of_steps hrounds (by simp [blocksLeft])
    have hsupplied : (FlushLoop.supplied { l with
        pc := .contextReply, queue := l.queue ++ [.getSnapshot], reply := .pending } actor) =
        some ctx := hctx
    simp only [stepsLeft, hpc, hsupplied, Option.isSome_some, if_true]
    split_ifs <;> omega

/-- The first context starts the polls; without one the loop asks again. -/
theorem descends_onContext (hpc : l.pc = .contextReply) {snapshot : Snapshot}
    (hreply : l.reply = .sent snapshot) :
    Descends (l.Idle actor answer) (l.potential actor)
      ((onContext { l with reply := .idle } snapshot.ctx).potential actor) := by
  have htaken := patience_taken_le l.lastPendingCount l.staleBlocks snapshot.txs.length
    snapshot.txs.length (cached actor)
  have hleft := patience_left_le l.lastPendingCount l.staleBlocks snapshot.txs.length
    (cached actor)
  cases hctx : snapshot.ctx with
  | none =>
    apply Descends.of_idle
    · simp [Idle, hpc, inSight, hreply, hctx]
    · refine rounds_le ?_ (by simp [blocksLeft, onContext]) ?_
      · simp only [roundsLeft, stage, observed, awaited, hpc, hreply, onContext]
        omega
      · simp [stepsLeft, hpc, hreply, onContext, hctx]
  | some ctx =>
    apply Descends.of_lt
    apply rounds_lt_of_rounds
    simp only [roundsLeft, stage, observed, awaited, hpc, hreply, onContext]
    omega

/-- A dropped answer ends the loop where it cannot go on without one. -/
theorem descends_finish (hpc : l.pc = .contextReply ∨ ∃ newBlock, l.pc = .rangeReply newBlock)
    (hreply : l.reply = .dropped) :
    Descends (l.Idle actor answer) (l.potential actor)
      ((finish { l with reply := .idle }).potential actor) := by
  apply Descends.of_lt
  apply rounds_lt_of_rounds
  rcases hpc with hpc | ⟨newBlock, hpc⟩
  all_goals simp [roundsLeft, stage, observed, awaited, hpc, hreply, finish, inSight]

/-! ### The poll -/

/-- What would be supplied is the cache. -/
theorem supply_of_open (hopen : l.receiver ≠ .closed) :
    ∃ snapshot, l.supply actor = some snapshot ∧ (snapshot.txs = [] ↔ cached actor = 0) ∧
      l.supplied actor = snapshot.ctx := by
  have hsupply : l.supply actor = some (actor.elim ⟨[], none⟩ TxActor.snapshot) := by
    simp [supply, hopen]
  refine ⟨_, hsupply, ?_, by rw [supplied, hsupply]; rfl⟩
  cases actor with
  | none => simp [cached]
  | some a => simp [cached, TxActor.snapshot]

/-- Without a new block the cache decides: a drained one is about to end the loop. -/
private theorem descends_askDrain (hpc : l.pc = .poll) (hreply : l.reply = .idle)
    (hopen : l.receiver ≠ .closed) {newBlock : Nat}
    (hanswer : answer.blockNumber = some newBlock) (hnew : newBlock ≤ l.targetBlock) :
    Descends (l.Idle actor answer) (l.potential actor)
      ((l.sendGetSnapshot .drainReply).potential actor) := by
  obtain ⟨snapshot, hsupply, hcached, -⟩ : ∃ snapshot, l.supply actor = some snapshot ∧ _ :=
    supply_of_open hopen
  rw [sendGetSnapshot_open hopen]
  have hsupply' : FlushLoop.supply { l with
      pc := .drainReply, queue := l.queue ++ [.getSnapshot], reply := .pending } actor =
      some snapshot := hsupply
  by_cases hempty : cached actor = 0
  · apply Descends.of_lt
    apply rounds_lt_of_rounds
    simp [roundsLeft, stage, observed, awaited, hpc, hreply, inSight, hsupply',
      hcached.mpr hempty]
  · have hpending : snapshot.txs ≠ [] := fun h => hempty (hcached.mp h)
    apply Descends.of_idle
    · simp [Idle, hpc, hanswer, inSight, hreply, hsupply, hnew, hpending]
    · refine rounds_le ?_ (by simp [blocksLeft]) ?_
      · simp [roundsLeft, stage, observed, awaited, hpc, hreply, inSight, hsupply', hpending]
      · simp only [stepsLeft, hpc, hempty, if_false]
        exact le_rfl

/-- A new block starts a range, unless the actor's target is past it already. -/
private theorem descends_askRange (hpc : l.pc = .poll) (hreply : l.reply = .idle)
    (hopen : l.receiver ≠ .closed) {newBlock : Nat}
    (hanswer : answer.blockNumber = some newBlock) (hnew : ¬ newBlock ≤ l.targetBlock) :
    Descends (l.Idle actor answer) (l.potential actor)
      ((l.sendGetSnapshot (.rangeReply newBlock)).potential actor) := by
  obtain ⟨snapshot, hsupply, -, hsupplied⟩ : ∃ snapshot, l.supply actor = some snapshot ∧ _ :=
    supply_of_open hopen
  rw [sendGetSnapshot_open hopen]
  have hsupply' : FlushLoop.supply { l with
      pc := .rangeReply newBlock, queue := l.queue ++ [.getSnapshot], reply := .pending } actor =
      some snapshot := hsupply
  have hsupplied' : FlushLoop.supplied { l with
      pc := .rangeReply newBlock, queue := l.queue ++ [.getSnapshot], reply := .pending } actor =
      snapshot.ctx := hsupplied
  cases hctx : snapshot.ctx with
  | none =>
    apply Descends.of_idle
    · simp [Idle, hpc, hanswer, inSight, hreply, hsupply, hnew, hctx]
    · refine rounds_le ?_ (by simp [blocksLeft]) ?_
      · simp [roundsLeft, stage, observed, awaited, hpc, hreply, inSight, hsupply', hctx]
      · simp only [stepsLeft, hpc, hsupplied', hctx, Option.elim_none]
        exact le_rfl
  | some ctx =>
    apply Descends.of_lt
    by_cases hpast : ctx.targetBlock < newBlock
    · apply rounds_lt_of_rounds
      simp [roundsLeft, stage, observed, awaited, hpc, hreply, inSight, hsupply', hsupplied',
        hctx, hpast]
    · refine rounds_lt_of_steps ?_ (by simp [blocksLeft]) ?_
      · simp [roundsLeft, stage, observed, awaited, hpc, hreply, inSight, hsupply', hctx, hpast]
      · have hlag : l.lag actor l.targetBlock = 3 := by
          have hbehind : l.targetBlock < ctx.targetBlock := by omega
          simp [lag, hsupplied, hctx, hbehind]
        simp [stepsLeft, hpc, hsupplied', hctx, hpast, hlag]

theorem descends_onBlockNumber (hpc : l.pc = .poll) (hreply : l.reply = .idle)
    (hcancelled : l.cancelled) {newBlock : Nat} (hanswer : answer.blockNumber = some newBlock) :
    Descends (l.Idle actor answer) (l.potential actor)
      ((l.onBlockNumber newBlock).potential actor) := by
  by_cases hclosed : l.receiver = .closed
  · have hdone : l.onBlockNumber newBlock = { l with pc := .done } := by
      simp [onBlockNumber, sendGetSnapshot_closed hclosed, hcancelled]
    rw [hdone]
    apply Descends.of_lt
    apply rounds_lt_of_rounds
    simp [roundsLeft, stage, observed, awaited, hpc, hreply]
  · unfold onBlockNumber
    simp only [ge_iff_le, hcancelled, if_true]
    split_ifs with hnew
    · exact descends_askDrain hpc hreply hclosed hanswer hnew
    · exact descends_askRange hpc hreply hclosed hanswer hnew

/-- A drained cache ends the loop, a pending transaction leads back to the poll. -/
theorem descends_onDrain (hpc : l.pc = .drainReply) {snapshot : Snapshot}
    (hreply : l.reply = .sent snapshot) :
    Descends (l.Idle actor answer) (l.potential actor)
      ((onDrain { l with reply := .idle } snapshot).potential actor) := by
  have hleft := patience_left_le l.lastPendingCount l.staleBlocks snapshot.txs.length
    (cached actor)
  have htaken := patience_taken_le l.lastPendingCount l.staleBlocks snapshot.txs.length
    snapshot.txs.length (cached actor)
  unfold onDrain
  split_ifs with hempty
  · apply Descends.of_lt
    apply rounds_lt_of_rounds
    simp only [roundsLeft, stage, observed, awaited, hpc, hreply, inSight, Option.elim_some,
      hempty, if_true]
    simp only [hempty] at hleft htaken
    omega
  · apply Descends.of_idle
    · simp [Idle, hpc, inSight, hreply, hempty]
    · refine rounds_le ?_ (by simp [blocksLeft]) ?_
      · simp only [roundsLeft, stage, observed, awaited, hpc, hreply, inSight, Option.elim_some,
          hempty, if_false]
        omega
      · simp only [stepsLeft, hpc, hreply, hempty, if_false]
        exact le_rfl

/-- A dropped answer leads back to the poll, which finds the channel closed. -/
theorem descends_drainDropped (hpc : l.pc = .drainReply) (hreply : l.reply = .dropped) :
    Descends (l.Idle actor answer) (l.potential actor)
      (FlushLoop.potential { l with reply := .idle, pc := .poll } actor) := by
  apply Descends.of_lt
  refine rounds_lt_of_steps ?_ (by simp [blocksLeft]) ?_
  · simp [roundsLeft, stage, observed, awaited, hpc, hreply, inSight]
  · simp only [stepsLeft, hpc, hreply]
    exact Nat.lt_add_of_pos_left Nat.zero_lt_one

/-- With nothing in the oneshot, a range goes on exactly when a context would be
supplied. -/
theorem guided_iff (hreply : l.reply = .idle ∨ l.reply = .pending) :
    l.Guided actor ↔ (l.supplied actor).isSome := by
  have hinSight : l.inSight actor = l.supply actor := by
    rcases hreply with hreply | hreply <;> simp [inSight, hreply]
  unfold Guided
  rw [hinSight]
  exact and_self_iff

/-- The rounds of a loop in a range. -/
theorem roundsLeft_of_range {range : BlockRange}
    (hpc : l.pc = .block range ∨ (∃ hashes, l.pc = .confirmed range hashes) ∨
      l.pc = .refresh range ∨ l.pc = .refreshReply range) :
    l.roundsLeft actor =
      8 * patience l.lastPendingCount l.staleBlocks range.cacheSnapshot.length (l.awaited actor)
        (cached actor) + if l.Guided actor then 1 else 4 := by
  rcases hpc with hpc | ⟨hashes, hpc⟩ | hpc | hpc
  all_goals simp only [roundsLeft, observed, stage, hpc]

theorem supplied_congr {l' : FlushLoop} (h : l'.receiver = l.receiver) :
    l'.supplied actor = l.supplied actor := by
  simp only [supplied, supply, h]

/-- The snapshot for the new blocks starts the range, or sends the loop back to poll. -/
theorem descends_onRange {newBlock : Nat} (hpc : l.pc = .rangeReply newBlock)
    {snapshot : Snapshot} (hreply : l.reply = .sent snapshot) :
    Descends (l.Idle actor answer) (l.potential actor)
      ((onRange { l with reply := .idle } newBlock snapshot).potential actor) := by
  have hleft := patience_left_le l.lastPendingCount l.staleBlocks snapshot.txs.length
    (cached actor)
  have htaken := patience_taken_le l.lastPendingCount l.staleBlocks snapshot.txs.length
    snapshot.txs.length (cached actor)
  unfold onRange
  cases hctx : snapshot.ctx with
  | none =>
    apply Descends.of_idle
    · simp [Idle, hpc, inSight, hreply, hctx]
    · refine rounds_le ?_ (by simp [blocksLeft]) ?_
      · simp only [roundsLeft, stage, observed, awaited, hpc, hreply, inSight, Option.bind_some,
          hctx, Option.elim_none]
        omega
      · simp only [stepsLeft, hpc, hreply, hctx, Option.elim_none]
        exact le_rfl
  | some ctx =>
    apply Descends.of_lt
    dsimp only
    split_ifs with hpast hdrained
    · refine rounds_lt_of_steps ?_ (by simp [blocksLeft]) ?_
      · simp only [roundsLeft, stage, observed, awaited, hpc, hreply, inSight, Option.bind_some,
          hctx, Option.elim_some, Nat.not_lt.mpr hpast, if_false]
        omega
      · simp only [stepsLeft, hpc, hreply, hctx, Option.elim_some, Nat.not_lt.mpr hpast, if_false]
        exact Nat.lt_add_of_pos_left Nat.zero_lt_one
    · apply rounds_lt_of_rounds
      simp only [roundsLeft, stage, observed, awaited, hpc, hreply, inSight, Option.bind_some,
        hctx, Option.elim_some, Nat.not_le.mp hpast, if_true]
      split_ifs <;> omega
    · apply rounds_lt_of_rounds
      rw [roundsLeft_of_range (Or.inl rfl)]
      simp only [guided_iff (l := FlushLoop.mk ..) (Or.inl rfl)]
      simp only [roundsLeft, stage, observed, awaited, hpc, hreply, inSight, Option.bind_some,
        hctx, Option.elim_some, Nat.not_le.mp hpast, if_true, supplied, supply]
      split_ifs <;> omega

/-! ### The range -/

/-- A range that has come to its end, with its transactions counted or no context to go
on with, costs a round. -/
theorem endRange_lt_roundsLeft {range : BlockRange} (range' : BlockRange)
    (hpc : l.pc = .block range ∨ l.pc = .refreshReply range) {l' : FlushLoop}
    (hl : l'.lastPendingCount = l.lastPendingCount ∧ l'.staleBlocks = l.staleBlocks ∧
      l'.cancelled = l.cancelled ∧ l'.reply = .idle)
    (hcancelled : l.cancelled)
    (hpatience : patience l.lastPendingCount l.staleBlocks range'.cacheSnapshot.length
      (cached actor) (cached actor) ≤ patience l.lastPendingCount l.staleBlocks
        range.cacheSnapshot.length (l.awaited actor) (cached actor))
    (hcounted : range'.cacheSnapshot ≠ [] ∨ ¬ l.Guided actor) :
    (l'.endRange range').roundsLeft actor < l.roundsLeft actor := by
  obtain ⟨hlast, hstale, hcancelled', hreply⟩ := hl
  have hrounds : l.roundsLeft actor = _ :=
    roundsLeft_of_range (hpc.imp id fun h => Or.inr (Or.inr h))
  have hbound : range'.cacheSnapshot ≠ [] ∧ 1 ≤ (if l.Guided actor then 1 else 4) ∨
      4 ≤ (if l.Guided actor then 1 else 4) := by
    rcases hcounted with hne | hlost
    · refine Or.inl ⟨hne, ?_⟩
      split_ifs <;> omega
    · simp [hlost]
  have hended : (l'.endRange range').roundsLeft actor < _ :=
    endRange_lt range' (hcancelled'.trans hcancelled) hreply hbound
  rw [hlast, hstale] at hended
  omega

/-- The next block of a range, or its end. -/
theorem nextBlock_lt {range : BlockRange} (range' : BlockRange)
    (hpc : l.pc = .block range ∨ l.pc = .refreshReply range)
    (hbn : range'.bn = range.bn ∧ range'.newBlock = range.newBlock) {l' : FlushLoop}
    (hl : l'.lastPendingCount = l.lastPendingCount ∧ l'.staleBlocks = l.staleBlocks ∧
      l'.cancelled = l.cancelled ∧ l'.reply = .idle)
    (hreceiver : l'.receiver = l.receiver) (hcancelled : l.cancelled)
    (hpatience : patience l.lastPendingCount l.staleBlocks range'.cacheSnapshot.length
      (cached actor) (cached actor) ≤ patience l.lastPendingCount l.staleBlocks
        range.cacheSnapshot.length (l.awaited actor) (cached actor))
    (hpending : range'.cacheSnapshot ≠ []) :
    (l'.nextBlock range').potential actor < l.potential actor := by
  have hblocks : l.blocksLeft = range.newBlock - range.bn := by
    rcases hpc with hpc | hpc <;> simp only [blocksLeft, hpc]
  unfold nextBlock
  split_ifs with hmore
  · apply rounds_lt_of_left
    · have hrounds : l.roundsLeft actor = _ :=
        roundsLeft_of_range (hpc.imp id fun h => Or.inr (Or.inr h))
      rw [roundsLeft_of_range (Or.inl rfl), hrounds]
      have hguided : l.Guided actor → FlushLoop.Guided
          { l' with pc := .block { range' with bn := range'.bn + 1 } } actor := by
        intro h
        apply (guided_iff (Or.inl hl.2.2.2)).mpr
        have hsupplied : l'.supplied actor = l.supplied actor := supplied_congr hreceiver
        exact hsupplied ▸ h.2
      have hawaited : FlushLoop.awaited
          { l' with pc := .block { range' with bn := range'.bn + 1 } } actor = cached actor := by
        simp only [awaited, hl.2.2.2]
      rw [hawaited]
      simp only [hl.1, hl.2.1]
      split_ifs with hafter hbefore hbefore
      · omega
      · omega
      · exact absurd (hguided hbefore) hafter
      · omega
    · rw [hblocks]
      simp only [blocksLeft]
      omega
  · apply rounds_lt_of_rounds
    exact endRange_lt_roundsLeft range' hpc hl hcancelled hpatience (Or.inl hpending)

/-- A processed block leads on: to its removal request, to the next block, or out of the
range. -/
theorem descends_onProcessed (chain : Chain) {range : BlockRange} (hpc : l.pc = .block range)
    (hreply : l.reply = .idle) (hcancelled : l.cancelled) (receipts : ReceiptAnswer) :
    ((onProcessed { l with used := (range.bn, range.cacheSnapshot) :: l.used } range
      (processBlockReceipts chain range.cacheSnapshot range.bn receipts)).1).potential actor <
      l.potential actor := by
  cases hprocessed : processBlockReceipts chain range.cacheSnapshot range.bn receipts with
  | confirmed hashes rows =>
    refine rounds_lt_of_steps (le_of_eq ?_) (by simp [blocksLeft, hpc, onProcessed])
      (by simp [stepsLeft, hpc, onProcessed])
    rw [roundsLeft_of_range (Or.inl hpc), roundsLeft_of_range (Or.inr (Or.inl ⟨hashes, rfl⟩))]
    rfl
  | failed =>
    have hpending : range.cacheSnapshot ≠ [] := by
      intro hempty
      simp [processBlockReceipts, hempty] at hprocessed
    have hawaited : l.awaited actor = cached actor := by simp only [awaited, hreply]
    exact nextBlock_lt { range with skipped := true } (Or.inl hpc) ⟨rfl, rfl⟩
      ⟨rfl, rfl, rfl, hreply⟩ rfl hcancelled (by rw [hawaited]) hpending
  | panicked =>
    apply rounds_lt_of_rounds
    have hleft := patience_left_le l.lastPendingCount l.staleBlocks range.cacheSnapshot.length
      (cached actor)
    have hrounds : l.roundsLeft actor = _ := roundsLeft_of_range (Or.inl hpc)
    rw [hrounds]
    simp only [onProcessed, roundsLeft, stage, observed, awaited, hreply]
    split_ifs <;> omega

/-- The removal of a block's transactions is requested. -/
theorem descends_confirmed {range : BlockRange} {hashes : List TxHash}
    (hpc : l.pc = .confirmed range hashes) :
    (sendUnchecked { l with pc := .refresh range }
      (.removeConfirmed hashes (range.bn + 1))).potential actor < l.potential actor := by
  have hrounds : l.roundsLeft actor = _ := roundsLeft_of_range (Or.inr (Or.inl ⟨hashes, hpc⟩))
  unfold sendUnchecked
  split_ifs
  all_goals
    refine rounds_lt_of_steps (le_of_eq ?_) (by simp [blocksLeft, hpc])
      (by simp [stepsLeft, hpc])
    rw [hrounds, roundsLeft_of_range (Or.inr (Or.inr (Or.inl rfl)))]
    rfl

/-- The refreshed snapshot is requested, or the channel is closed. -/
theorem descends_refresh {range : BlockRange} (hpc : l.pc = .refresh range)
    (hreply : l.reply = .idle) (hqueue : l.queue.length ≤ 1) :
    (l.sendGetSnapshot (.refreshReply range)).potential actor < l.potential actor := by
  have hrounds : l.roundsLeft actor = _ :=
    roundsLeft_of_range (Or.inr (Or.inr (Or.inl hpc)))
  have hawaited : l.awaited actor = cached actor := by simp only [awaited, hreply]
  by_cases hclosed : l.receiver = .closed
  · rw [sendGetSnapshot_closed hclosed]
    apply rounds_lt_of_rounds
    have hleft := patience_left_le l.lastPendingCount l.staleBlocks range.cacheSnapshot.length
      (cached actor)
    rw [hrounds, hawaited]
    simp only [roundsLeft, stage, observed, awaited, hreply]
    split_ifs <;> omega
  · rw [sendGetSnapshot_open hclosed]
    refine rounds_lt_of_steps (le_of_eq ?_) (by simp [blocksLeft, hpc]) ?_
    · rw [hrounds, roundsLeft_of_range (Or.inr (Or.inr (Or.inr rfl)))]
      simp only [guided_iff (l := FlushLoop.mk ..) (Or.inr rfl),
        guided_iff (l := l) (Or.inl hreply), hawaited]
      rfl
    · simp only [stepsLeft, hpc, List.length_append, List.length_singleton]
      omega

/-- The refreshed snapshot ends the loop or the range, or leads to the next block. -/
theorem descends_onRefresh {range : BlockRange} (hpc : l.pc = .refreshReply range)
    (hcancelled : l.cancelled) {snapshot : Snapshot} (hreply : l.reply = .sent snapshot) :
    (onRefresh { l with reply := .idle } range snapshot).potential actor < l.potential actor := by
  have hrounds : l.roundsLeft actor = _ :=
    roundsLeft_of_range (Or.inr (Or.inr (Or.inr hpc)))
  have hawaited : l.awaited actor = snapshot.txs.length := by simp only [awaited, hreply]
  have htaken := patience_taken_le l.lastPendingCount l.staleBlocks range.cacheSnapshot.length
    snapshot.txs.length (cached actor)
  have hleft := patience_left_le l.lastPendingCount l.staleBlocks snapshot.txs.length
    (cached actor)
  unfold onRefresh
  cases hctx : snapshot.ctx with
  | none =>
    apply rounds_lt_of_rounds
    refine endRange_lt_roundsLeft range (Or.inr hpc) ⟨rfl, rfl, rfl, rfl⟩ hcancelled ?_ ?_
    · exact patience_kept_le _ _ _ _ _
    · simp [Guided, inSight, hreply, hctx]
  | some ctx =>
    dsimp only
    split_ifs with hempty
    · apply rounds_lt_of_rounds
      rw [hrounds, hawaited]
      simp only [roundsLeft, stage, observed, awaited]
      split_ifs <;> omega
    · exact nextBlock_lt { range with cacheSnapshot := snapshot.txs } (Or.inr hpc) ⟨rfl, rfl⟩
        ⟨rfl, rfl, rfl, rfl⟩ rfl hcancelled (hawaited ▸ htaken) hempty

/-- A dropped answer ends the range. -/
theorem descends_refreshDropped {range : BlockRange} (hpc : l.pc = .refreshReply range)
    (hcancelled : l.cancelled) (hreply : l.reply = .dropped) :
    (endRange { l with reply := .idle } range).potential actor < l.potential actor := by
  apply rounds_lt_of_rounds
  refine endRange_lt_roundsLeft range (Or.inr hpc) ⟨rfl, rfl, rfl, rfl⟩ hcancelled ?_ ?_
  · exact patience_kept_le _ _ _ _ _
  · simp [Guided, inSight, hreply]

/-! ### The actor's part -/

theorem awaits_cases {pc : FlushPc} (h : pc.Awaits) :
    pc = .contextReply ∨ pc = .drainReply ∨ (∃ newBlock, pc = .rangeReply newBlock) ∨
      ∃ range, pc = .refreshReply range := by
  obtain ⟨origin, hasks⟩ := h
  cases hasks with
  | context => exact Or.inl rfl
  | drain => exact Or.inr (Or.inl rfl)
  | range newBlock => exact Or.inr (Or.inr (Or.inl ⟨newBlock, rfl⟩))
  | refresh range => exact Or.inr (Or.inr (Or.inr ⟨range, rfl⟩))

/-- The actor answers the snapshot request that is the only one in the channel. -/
theorem descends_answer {a : TxActor} (hpc : l.pc.Awaits) (hreply : l.reply = .pending)
    (hopen : l.receiver = .attached) (hqueue : l.queue = [.getSnapshot]) :
    Descends (l.Idle (some a) answer) (l.potential (some a))
      (FlushLoop.potential { l with queue := [], reply := .sent a.snapshot } (some a)) := by
  have hsupply : l.supply (some a) = some a.snapshot := by simp [supply, hopen]
  have hsupplied : l.supplied (some a) = a.snapshot.ctx := by simp [supplied, hsupply]
  have hsupply' : FlushLoop.supply { l with queue := [], reply := .sent a.snapshot } (some a) =
      some a.snapshot := hsupply
  have hsupplied' : FlushLoop.supplied { l with queue := [], reply := .sent a.snapshot }
      (some a) = a.snapshot.ctx := hsupplied
  have hcached : cached (some a) = a.snapshot.txs.length := rfl
  have hinSight : l.inSight (some a) = some a.snapshot := by simp [inSight, hreply, hsupply]
  -- the same snapshot is in sight as before
  have hrounds : FlushLoop.roundsLeft { l with queue := [], reply := .sent a.snapshot } (some a) =
      l.roundsLeft (some a) := by
    have hinSight' : FlushLoop.inSight { l with queue := [], reply := .sent a.snapshot }
        (some a) = some a.snapshot := rfl
    simp only [roundsLeft, observed, awaited, stage, Guided, hinSight, hinSight', hsupplied,
      hsupplied', hreply, hcached]
  rcases awaits_cases hpc with hp | hp | ⟨newBlock, hp⟩ | ⟨range, hp⟩
  · cases hctx : a.snapshot.ctx with
    | none =>
      apply Descends.of_idle
      · simp [Idle, hp, hinSight, hctx]
      · apply rounds_le hrounds.le (by simp [blocksLeft, hp])
        simp [stepsLeft, hp, hreply, hsupplied, hctx]
    | some ctx =>
      apply Descends.of_lt
      apply rounds_lt_of_steps hrounds.le (by simp [blocksLeft, hp])
      simp [stepsLeft, hp, hreply, hsupplied, hctx, hopen]
  · by_cases hempty : a.snapshot.txs = []
    · apply Descends.of_lt
      apply rounds_lt_of_steps hrounds.le (by simp [blocksLeft, hp])
      simp [stepsLeft, hp, hreply, hcached, hempty]
    · apply Descends.of_idle
      · simp [Idle, hp, hinSight, hempty]
      · apply rounds_le hrounds.le (by simp [blocksLeft, hp])
        simp only [stepsLeft, hp, hreply, hcached, hempty, List.length_eq_zero_iff, if_false]
        exact le_rfl
  · cases hctx : a.snapshot.ctx with
    | none =>
      apply Descends.of_idle
      · simp [Idle, hp, hinSight, hctx]
      · apply rounds_le hrounds.le (by simp [blocksLeft, hp])
        simp only [stepsLeft, hp, hreply, hsupplied, hctx, Option.elim_none]
        exact le_rfl
    | some ctx =>
      apply Descends.of_lt
      apply rounds_lt_of_steps hrounds.le (by simp [blocksLeft, hp])
      by_cases hpast : ctx.targetBlock < newBlock
      · simp [stepsLeft, hp, hreply, hsupplied, hctx, hpast]
      · have hlag : l.lag (some a) ctx.targetBlock = 0 := by simp [lag, hsupplied, hctx]
        simp only [stepsLeft, hp, hreply, hsupplied, hctx, Option.elim_some, hpast, if_false]
        change 1 + l.lag (some a) ctx.targetBlock < 2
        omega
  · apply Descends.of_lt
    apply rounds_lt_of_steps hrounds.le (by simp [blocksLeft, hp])
    simp [stepsLeft, hp, hqueue]

/-- The actor drops the confirmed transactions. -/
theorem descends_removal {a : TxActor} {range : BlockRange} (hpc : l.pc = .refreshReply range)
    (hreply : l.reply = .pending) {hashes : List TxHash} {target : Nat}
    (hqueue : l.queue = [.removeConfirmed hashes target, .getSnapshot]) (nowMs : Nat) :
    FlushLoop.potential { l with queue := [.getSnapshot] }
      (some (a.handleFlushRequest nowMs (.removeConfirmed hashes target))) <
      l.potential (some a) := by
  have hfewer : cached (some (a.handleFlushRequest nowMs (.removeConfirmed hashes target))) ≤
      cached (some a) := AList.length_values_eraseAll_le hashes a.cache
  have hremoved := patience_removed_le hfewer l.lastPendingCount l.staleBlocks
    range.cacheSnapshot.length
  -- the removal keeps the context, whatever its target
  have hguided : l.Guided (some (a.handleFlushRequest nowMs (.removeConfirmed hashes target))) ↔
      l.Guided (some a) := by
    rw [guided_iff (Or.inr hreply), guided_iff (Or.inr hreply)]
    simp only [supplied, supply]
    split_ifs
    · simp
    · simp [TxActor.snapshot, TxActor.handleFlushRequest]
  refine rounds_lt_of_steps ?_ (by simp [blocksLeft, hpc]) ?_
  · rw [roundsLeft_of_range (Or.inr (Or.inr (Or.inr hpc)))]
    apply (roundsLeft_of_range (Or.inr (Or.inr (Or.inr hpc)))).trans_le
    simp only [hguided, awaited, hreply]
    omega
  · simp [stepsLeft, hpc, hqueue]

/-- The actor takes up the channel, as far as the loop sees it. -/
theorem descends_attach {a b : TxActor} (hpc : l.pc = .contextReply) (hreply : l.reply = .pending)
    (htransit : l.receiver = .inTransit) (hsame : b.cache = a.cache ∧ b.ctx = a.ctx) :
    Descends (l.Idle (some a) answer) (l.potential (some a))
      (FlushLoop.potential { l with receiver := .attached } (some b)) := by
  have hcached : cached (some b) = cached (some a) := by
    simp only [cached, Option.elim_some, hsame.1]
  have hrounds : FlushLoop.roundsLeft { l with receiver := .attached } (some b) =
      l.roundsLeft (some a) := by
    simp only [roundsLeft, observed, awaited, stage, hpc, hreply, hcached]
  cases hctx : a.ctx with
  | none =>
    apply Descends.of_idle
    · simp [Idle, hpc, inSight, hreply, supply, htransit, TxActor.snapshot, hctx]
    · apply rounds_le hrounds.le (by simp [blocksLeft, hpc])
      simp [stepsLeft, hpc, hreply, supplied, supply, htransit, TxActor.snapshot, hctx, hsame.2]
  | some ctx =>
    apply Descends.of_lt
    apply rounds_lt_of_steps hrounds.le (by simp [blocksLeft, hpc])
    simp [stepsLeft, hpc, hreply, supplied, supply, htransit, TxActor.snapshot, hctx, hsame.2]

/-- The actor ends before it takes up the channel. -/
theorem descends_close {a : TxActor} (hpc : l.pc = .contextReply) (hreply : l.reply = .pending) :
    l.close.potential none < l.potential (some a) := by
  have hclosed : l.close.reply = .dropped := by simp only [close, hreply]
  have hpc' : l.close.pc = .contextReply := hpc
  have hremoved := patience_removed_le (Nat.zero_le (cached (some a))) l.lastPendingCount
    l.staleBlocks (cached (some a))
  have hleft := patience_left_le l.lastPendingCount l.staleBlocks (cached (some a)) 0
  refine rounds_lt_of_steps ?_ (by simp [blocksLeft, hpc, hpc']) ?_
  · have hnone : cached none = 0 := rfl
    simp only [roundsLeft, observed, awaited, stage, hpc, hpc', hreply, hclosed, hnone]
    change 8 * patience l.lastPendingCount l.staleBlocks 0 0 0 + 6 ≤ _
    omega
  · simp only [stepsLeft, hpc, hpc', hreply, hclosed]
    split_ifs <;> omega

end FlushLoop

end Contender
