import Contender.Spammer.Draining
import Contender.Spammer.RowOrigins

/-!
# Counting stale blocks

Once cancelled, a flush loop counts the blocks of the ranges over which the number of pending
transactions did not change, and gives up when they are `STALE_BLOCK_LIMIT`. It counts the length
of a range, whatever became of its blocks. This module looks at one loop: when a step ends a
range, what the counters are then, and when they stand for blocks that were processed.
-/

namespace Contender

/-- The blocks processed with `Ok`, each with the transactions it confirmed. -/
abbrev ProcessedBlocks := List (Nat × List TxHash)

namespace FlushPc

/-- Inside a range, the first block that is not processed yet. -/
def nextBlock : FlushPc → Option Nat
  | .block range => some range.bn
  | .confirmed range _ => some (range.bn + 1)
  | .refresh range => some (range.bn + 1)
  | .refreshReply range => some (range.bn + 1)
  | _ => none

/-- How many blocks of the range have been processed. -/
def progress : FlushPc → Nat
  | .block range => range.bn - range.blocksStart
  | .confirmed range _ => range.bn + 1 - range.blocksStart
  | .refresh range => range.bn + 1 - range.blocksStart
  | .refreshReply range => range.bn + 1 - range.blocksStart
  | _ => 0

/-- The range a block of which is being processed. -/
def block? : FlushPc → Option BlockRange
  | .block range => some range
  | _ => none

/-- The answer that is awaited is a refreshed snapshot. -/
def isRefreshReply : FlushPc → Bool
  | .refreshReply _ => true
  | _ => false

theorem Resting.nextBlock {pc : FlushPc} (h : pc.Resting) : pc.nextBlock = none := by
  rcases h with rfl | rfl | rfl | rfl <;> rfl

theorem Resting.progress {pc : FlushPc} (h : pc.Resting) : pc.progress = 0 := by
  rcases h with rfl | rfl | rfl | rfl <;> rfl

theorem Asks.nextBlock {pc waiting : FlushPc} (h : pc.Asks waiting) :
    waiting.nextBlock = pc.nextBlock := by
  cases h <;> rfl

theorem Asks.progress {pc waiting : FlushPc} (h : pc.Asks waiting) :
    waiting.progress = pc.progress := by
  cases h <;> rfl

end FlushPc

namespace SnapshotReply

/-- The snapshot in the oneshot. -/
def snapshot? : SnapshotReply → Option Snapshot
  | .sent snapshot => some snapshot
  | _ => none

/-- The sending half was dropped. -/
def isDropped : SnapshotReply → Bool
  | .dropped => true
  | _ => false

end SnapshotReply

namespace FlushLoop

/-- The block that a cancelled loop processes with `Ok` in a step. -/
def processedOk (chain : Chain) (l : FlushLoop) (input : FlushInput) : ProcessedBlocks :=
  match l.pc, input with
  | .block range, .receipts answer =>
    match processBlockReceipts chain range.cacheSnapshot range.bn answer with
    | .confirmed hashes _ => if l.cancelled then [(range.bn, hashes)] else []
    | _ => []
  | _, _ => []

/-- The range that a step ends, as it is then: its blocks are done, or the loop over them is left
by `break`. -/
def endedRange (chain : Chain) (l : FlushLoop) (input : FlushInput) : Option BlockRange :=
  match l.pc, input, l.reply with
  | .block range, .receipts answer, _ =>
    -- after a failed block the range goes on, up to the last block
    if processBlockReceipts chain range.cacheSnapshot range.bn answer = .failed ∧
        ¬range.bn + 1 < range.newBlock then
      some { range with skipped := true }
    else none
  -- both are a `break`, and the blocks that are left are not processed
  | .refreshReply range, .tick, .dropped => some range
  | .refreshReply range, .tick, .sent ⟨_, none⟩ => some range
  | .refreshReply range, .tick, .sent ⟨txs, some _⟩ =>
    if txs = [] then
      -- a cancelled loop returns here
      if l.cancelled then none else some { range with cacheSnapshot := [] }
    else if range.bn + 1 < range.newBlock then none
    else some { range with cacheSnapshot := txs }
  | _, _, _ => none

/-- The step leaves the loop through the branch for stale blocks, at the end of the range. At
the end of a range there is no other way out (`done_iff_exitsStale`). -/
structure ExitsStale (chain : Chain) (l : FlushLoop) (input : FlushInput) (range : BlockRange) :
    Prop where
  ends : l.endedRange chain input = some range
  cancelled : l.cancelled = true
  pending : range.cacheSnapshot ≠ []
  limit : staleBlockLimit ≤ (l.trackStale range).staleBlocks

variable {chain : Chain} {l l' : FlushLoop} {input : FlushInput} {rows : List RunRow}
  {range : BlockRange}

/-! ### The counters -/

/-- The counters are left alone. -/
def SameCounters (l l' : FlushLoop) : Prop :=
  l'.staleBlocks = l.staleBlocks ∧ l'.lastPendingCount = l.lastPendingCount

theorem SameCounters.trans {m : FlushLoop} (h : l.SameCounters m) (h' : m.SameCounters l') :
    l.SameCounters l' :=
  ⟨h'.1.trans h.1, h'.2.trans h.2⟩

theorem sendGetSnapshot_counters (l : FlushLoop) (waiting : FlushPc) :
    l.SameCounters (l.sendGetSnapshot waiting) := by
  unfold sendGetSnapshot
  split_ifs <;> exact ⟨rfl, rfl⟩

theorem nextBlock_counters (h : range.bn + 1 < range.newBlock) :
    l.SameCounters (l.nextBlock range) := by
  unfold nextBlock
  rw [if_pos h]
  exact ⟨rfl, rfl⟩

theorem trackStale_congr {m : FlushLoop} (hsame : l.SameCounters m)
    (hcancelled : m.cancelled = l.cancelled) (range : BlockRange) :
    (l.trackStale range).SameCounters (m.trackStale range) := by
  unfold trackStale
  dsimp only
  rw [hcancelled, hsame.2]
  split_ifs
  · exact ⟨congrArg (· + max (range.newBlock - range.blocksStart) 1) hsame.1, rfl⟩
  · exact ⟨rfl, rfl⟩
  · exact hsame

/-- The end of a range tracks its blocks. -/
theorem endRange_counters (l : FlushLoop) (range : BlockRange) :
    (l.trackStale range).SameCounters (l.endRange range) := by
  have htracked := trackStale_congr (l := l)
    (m := { l with targetBlock := max l.targetBlock range.newBlock }) ⟨rfl, rfl⟩ rfl range
  unfold endRange
  dsimp only
  split_ifs <;> exact htracked

/-- It ends the loop exactly when too many of them were stale. -/
theorem endRange_done_iff (l : FlushLoop) (range : BlockRange) :
    (l.endRange range).pc = .done ↔ l.cancelled = true ∧ range.cacheSnapshot ≠ [] ∧
      staleBlockLimit ≤ (l.trackStale range).staleBlocks := by
  have htracked := trackStale_congr (l := l)
    (m := { l with targetBlock := max l.targetBlock range.newBlock }) ⟨rfl, rfl⟩ rfl range
  unfold endRange
  dsimp only
  rw [htracked.1]
  split_ifs with hstale
  · exact iff_of_true rfl hstale
  · exact iff_of_false (by simp) hstale

/-- A loop that only differs in its target block and its channel. -/
structure Resumes (l m : FlushLoop) : Prop where
  counters : l.SameCounters m
  cancelled : m.cancelled = l.cancelled

private theorem takeReply_eq_some {onSnapshot : FlushLoop → Snapshot → FlushLoop}
    {onDropped : FlushLoop → FlushLoop}
    (htake : (l.takeReply onSnapshot onDropped).map (fun l => (l, [])) = some (l', rows)) :
    (∃ snapshot, l.reply = .sent snapshot ∧ l' = onSnapshot { l with reply := .idle } snapshot) ∨
      l.reply = .dropped ∧ l' = onDropped { l with reply := .idle } := by
  unfold takeReply at htake
  cases hreply : l.reply with
  | idle => simp [hreply] at htake
  | pending => simp [hreply] at htake
  | sent snapshot =>
    simp only [hreply, Option.map_some, Option.some.injEq, Prod.mk.injEq] at htake
    exact .inl ⟨snapshot, rfl, htake.1.symm⟩
  | dropped =>
    simp only [hreply, Option.map_some, Option.some.injEq, Prod.mk.injEq] at htake
    exact .inr ⟨rfl, htake.1.symm⟩

/-- **A step and the counters.** A step that ends a range is the end of that range; any other
step leaves the counters alone. -/
theorem endedRange_spec (hstep : l.step chain input = some (l', rows)) :
    (l.endedRange chain input = none ∧ l.SameCounters l') ∨
      ∃ range m, l.endedRange chain input = some range ∧ l.Resumes m ∧ l' = m.endRange range := by
  unfold step at hstep
  split at hstep
  case h_1 hpc =>
    obtain ⟨rfl, rfl⟩ := Prod.mk.inj (Option.some.inj hstep)
    exact .inl ⟨by simp [endedRange, hpc], sendGetSnapshot_counters l _⟩
  case h_2 hpc =>
    left
    refine ⟨by simp [endedRange, hpc], ?_⟩
    obtain ⟨snapshot, -, rfl⟩ | ⟨-, rfl⟩ := takeReply_eq_some hstep
    · obtain ⟨txs, _ | ctx⟩ := snapshot <;> exact ⟨rfl, rfl⟩
    · exact ⟨rfl, rfl⟩
  case h_3 hpc =>
    obtain ⟨rfl, rfl⟩ := Prod.mk.inj (Option.some.inj hstep)
    exact .inl ⟨by simp [endedRange, hpc], rfl, rfl⟩
  case h_4 newBlock hpc =>
    obtain ⟨rfl, rfl⟩ := Prod.mk.inj (Option.some.inj hstep)
    refine .inl ⟨by simp [endedRange, hpc], ?_⟩
    unfold onBlockNumber
    split_ifs
    · exact sendGetSnapshot_counters l _
    · exact ⟨rfl, rfl⟩
    · exact sendGetSnapshot_counters l _
  case h_5 hpc =>
    left
    refine ⟨by simp [endedRange, hpc], ?_⟩
    obtain ⟨snapshot, -, rfl⟩ | ⟨-, rfl⟩ := takeReply_eq_some hstep
    · unfold onDrain
      split_ifs <;> exact ⟨rfl, rfl⟩
    · exact ⟨rfl, rfl⟩
  case h_6 newBlock hpc =>
    left
    refine ⟨by simp [endedRange, hpc], ?_⟩
    obtain ⟨⟨txs, _ | ctx⟩, -, rfl⟩ | ⟨-, rfl⟩ := takeReply_eq_some hstep
    · exact ⟨rfl, rfl⟩
    · unfold onRange
      dsimp only
      split_ifs <;> exact ⟨rfl, rfl⟩
    · exact ⟨rfl, rfl⟩
  case h_7 range answer hpc =>
    have hresult := congrArg Prod.fst (Option.some.inj hstep)
    dsimp only at hresult
    cases hprocessed : processBlockReceipts chain range.cacheSnapshot range.bn answer with
    -- the range is not done before the snapshot is refreshed
    | confirmed hashes confirmedRows =>
      rw [hprocessed] at hresult
      subst hresult
      exact .inl ⟨by simp [endedRange, hpc, hprocessed], rfl, rfl⟩
    | panicked =>
      rw [hprocessed] at hresult
      subst hresult
      exact .inl ⟨by simp [endedRange, hpc, hprocessed], rfl, rfl⟩
    | failed =>
      rw [hprocessed] at hresult
      subst hresult
      by_cases hmore : range.bn + 1 < range.newBlock
      · exact .inl ⟨by simp [endedRange, hpc, hmore], nextBlock_counters hmore⟩
      · exact .inr ⟨{ range with skipped := true },
          { l with used := (range.bn, range.cacheSnapshot) :: l.used },
          by simp [endedRange, hpc, hprocessed, hmore], ⟨⟨rfl, rfl⟩, rfl⟩, if_neg hmore⟩
  case h_8 range hashes hpc =>
    obtain ⟨rfl, rfl⟩ := Prod.mk.inj (Option.some.inj hstep)
    refine .inl ⟨by simp [endedRange, hpc], ?_⟩
    unfold sendUnchecked
    split_ifs <;> exact ⟨rfl, rfl⟩
  case h_9 range hpc =>
    obtain ⟨rfl, rfl⟩ := Prod.mk.inj (Option.some.inj hstep)
    exact .inl ⟨by simp [endedRange, hpc], sendGetSnapshot_counters l _⟩
  case h_10 range hpc =>
    obtain ⟨⟨txs, _ | ctx⟩, hreply, rfl⟩ | ⟨hreply, rfl⟩ := takeReply_eq_some hstep
    · exact .inr ⟨range, { l with reply := .idle }, by simp [endedRange, hpc, hreply],
        ⟨⟨rfl, rfl⟩, rfl⟩, rfl⟩
    · -- the refreshed snapshot: nothing is pending, there is a next block, or the range is done
      have hresume : l.Resumes { l with reply := .idle, targetBlock := ctx.targetBlock } :=
        ⟨⟨rfl, rfl⟩, rfl⟩
      by_cases hempty : txs = []
      · subst hempty
        by_cases hcancelled : l.cancelled = true
        · left
          exact ⟨by simp [endedRange, hpc, hreply, hcancelled], by simp [onRefresh, hcancelled,
            SameCounters]⟩
        · exact .inr ⟨{ range with cacheSnapshot := [] }, _,
            by simp [endedRange, hpc, hreply, hcancelled], hresume,
            by simp [onRefresh, hcancelled]⟩
      · by_cases hmore : range.bn + 1 < range.newBlock
        · exact .inl ⟨by simp [endedRange, hpc, hreply, hempty, hmore],
            by simp [onRefresh, hempty, nextBlock, hmore, SameCounters]⟩
        · exact .inr ⟨{ range with cacheSnapshot := txs }, _,
            by simp [endedRange, hpc, hreply, hempty, hmore], hresume,
            by simp [onRefresh, hempty, nextBlock, hmore]⟩
    · exact .inr ⟨range, { l with reply := .idle }, by simp [endedRange, hpc, hreply],
        ⟨⟨rfl, rfl⟩, rfl⟩, rfl⟩
  case h_11 => exact absurd hstep (by simp)

/-- The step that ends a range leaves the loop exactly through the branch for stale blocks. -/
theorem done_iff_exitsStale (hstep : l.step chain input = some (l', rows))
    (hends : l.endedRange chain input = some range) :
    l'.pc = .done ↔ l.ExitsStale chain input range := by
  obtain ⟨hnone, -⟩ | ⟨range', m, hrange, hresume, rfl⟩ := endedRange_spec hstep
  · rw [hends] at hnone
    cases hnone
  · obtain rfl := Option.some.inj (hends.symm.trans hrange)
    rw [endRange_done_iff, hresume.cancelled,
      (trackStale_congr hresume.counters hresume.cancelled range).1]
    exact ⟨fun ⟨hcancelled, hpending, hlimit⟩ => ⟨hends, hcancelled, hpending, hlimit⟩,
      fun h => ⟨h.cancelled, h.pending, h.limit⟩⟩

/-- The counters after a step. -/
theorem counters_of_step (hstep : l.step chain input = some (l', rows)) :
    (l.endedRange chain input = none ∧ l.SameCounters l') ∨
      ∃ range, l.endedRange chain input = some range ∧ (l.trackStale range).SameCounters l' ∧
        l'.pc.Resting := by
  obtain hnone | ⟨range, m, hrange, hresume, rfl⟩ := endedRange_spec hstep
  · exact .inl hnone
  · exact .inr ⟨range, hrange, (trackStale_congr hresume.counters hresume.cancelled range).trans
      (endRange_counters m range), (endRange_spec m range).1⟩

/-- Nothing is tracked before the loop is cancelled. -/
theorem sameCounters_of_not_cancelled (hcancelled : l.cancelled = false)
    (hstep : l.step chain input = some (l', rows)) : l.SameCounters l' := by
  obtain ⟨-, hsame⟩ | ⟨range, -, hsame, -⟩ := counters_of_step hstep
  · exact hsame
  · rwa [trackStale, if_neg (by simp [hcancelled])] at hsame

/-- A block is processed with `Ok` on the way to the removal of what it confirmed. -/
theorem processedOk_cases (hstep : l.step chain input = some (l', rows)) :
    l.processedOk chain input = [] ∨ ∃ range hashes, l.pc = .block range ∧ l.cancelled = true ∧
      l.processedOk chain input = [(range.bn, hashes)] ∧ l'.pc = .confirmed range hashes := by
  unfold processedOk
  split
  case h_1 range answer hpc =>
    simp only [step, hpc, Option.some.injEq] at hstep
    cases hprocessed : processBlockReceipts chain range.cacheSnapshot range.bn answer with
    | confirmed hashes confirmedRows =>
      rw [hprocessed] at hstep
      obtain ⟨rfl, -⟩ := Prod.mk.inj hstep
      by_cases hcancelled : l.cancelled = true
      · exact .inr ⟨range, hashes, hpc, hcancelled, if_pos hcancelled, rfl⟩
      · exact .inl (if_neg hcancelled)
    | failed => exact .inl rfl
    | panicked => exact .inl rfl
  case h_2 => exact .inl rfl

/-! ### What the counter stands for -/

/-- What is asked of a step of a cancelled loop: no block fails, no refreshed snapshot stays away,
and a snapshot has less than `usize::MAX` transactions. -/
def Steady (chain : Chain) (l : FlushLoop) : FlushInput → Prop
  | .receipts answer =>
    ∀ range ∈ l.pc.block?,
      processBlockReceipts chain range.cacheSnapshot range.bn answer ≠ .failed
  | .tick =>
    (l.reply.isDropped → l.pc.isRefreshReply = false) ∧
      ∀ snapshot ∈ l.reply.snapshot?, snapshot.txs.length < 2 ^ 64 - 1
  | .blockNumber _ => True

instance (chain : Chain) (l : FlushLoop) : ∀ input, Decidable (l.Steady chain input)
  | .receipts answer => inferInstanceAs (Decidable (∀ range ∈ l.pc.block?,
      processBlockReceipts chain range.cacheSnapshot range.bn answer ≠ .failed))
  | .tick => inferInstanceAs (Decidable ((l.reply.isDropped → l.pc.isRefreshReply = false) ∧
      ∀ snapshot ∈ l.reply.snapshot?, snapshot.txs.length < 2 ^ 64 - 1))
  | .blockNumber _ => isTrue trivial

/-- The answer in the oneshot knows of every block that was processed. -/
structure Answered (l : FlushLoop) (ok : ProcessedBlocks) : Prop where
  target : ∀ txs ctx, l.reply = .sent ⟨txs, some ctx⟩ → ∀ e ∈ ok, e.1 < ctx.targetBlock
  removed : ∀ snapshot, l.reply = .sent snapshot → ∀ e ∈ ok, ∀ h ∈ e.2, h ∉ hashes snapshot.txs
  context : ∀ range txs, l.pc = .refreshReply range → l.reply ≠ .sent ⟨txs, none⟩

/-- The blocks that were processed differ, and are at least as many as the loop has counted. -/
structure Counted (l : FlushLoop) (ok : ProcessedBlocks) : Prop where
  before : l.cancelled = false → l.lastPendingCount = 2 ^ 64 - 1 ∧ ok = []
  nodup : (ok.map Prod.fst).Nodup
  counted : l.lastPendingCount ≠ 2 ^ 64 - 1 → l.staleBlocks + l.pc.progress ≤ ok.length
  start : ∀ range, l.pc.range? = some range → range.blocksStart ≤ range.bn
  below : ∀ n, l.pc.nextBlock = some n → ∀ e ∈ ok, e.1 < n

/-- A steady step of a cancelled loop ends a range only when all its blocks were processed. -/
theorem endedRange_of_steady {ok : ProcessedBlocks} (hcancelled : l.cancelled = true)
    (hsteady : l.Steady chain input) (hanswered : l.Answered ok)
    (hends : l.endedRange chain input = some range) :
    ∃ r txs ctx, l.pc = .refreshReply r ∧ l.reply = .sent ⟨txs, some ctx⟩ ∧ txs ≠ [] ∧
      r.newBlock ≤ r.bn + 1 ∧ txs.length < 2 ^ 64 - 1 ∧
      range = { r with cacheSnapshot := txs } := by
  unfold endedRange at hends
  split at hends
  case h_1 r answer hpc =>
    -- a failed block is not steady
    split_ifs at hends with hfailed
    exact absurd hfailed.1 (hsteady r (by rw [hpc]; rfl))
  case h_2 r hpc hreply =>
    have hrefresh := hsteady.1 (by rw [hreply]; rfl)
    rw [hpc] at hrefresh
    cases hrefresh
  case h_3 r txs hpc hreply => exact absurd hreply (hanswered.context r txs hpc)
  case h_4 r txs ctx hpc hreply =>
    have hlength := hsteady.2 ⟨txs, some ctx⟩ (by rw [hreply]; rfl)
    split_ifs at hends with hempty hmore
    obtain rfl := Option.some.inj hends
    exact ⟨r, txs, ctx, hpc, hreply, hempty, not_lt.mp hmore, hlength, rfl⟩
  case h_5 => cases hends

/-- A move keeps the position inside the range. -/
theorem Move.start (hmove : Move chain l input l' rows)
    (h : ∀ range, l.pc.range? = some range → range.blocksStart ≤ range.bn) :
    ∀ range, l'.pc.range? = some range → range.blocksStart ≤ range.bn := by
  intro range hrange
  cases hmove with
  | ask hpc hopen heq =>
    subst heq
    exact h range ((range?_of_asks hpc).symm.trans hrange)
  | rest hpc hpc' frame hreply hused =>
    rw [hpc'.range?] at hrange
    cases hrange
  | settle hpc hreply hpc' frame hreply' hused =>
    rw [hpc'.range?] at hrange
    cases hrange
  | enter hpc hreply hpc' frame hreply' hused =>
    rw [hpc'] at hrange
    obtain rfl := Option.some.inj hrange
    exact le_rfl
  | @proceed r txs ctx hpc hreply hpc' frame hreply' hused =>
    rw [hpc'] at hrange
    obtain rfl := Option.some.inj hrange
    exact (h r (by rw [hpc]; rfl)).trans (Nat.le_succ _)
  | @record r answer hashes runTxs hpc hinput processed heq =>
    subst heq
    obtain rfl := Option.some.inj hrange
    exact h r (by rw [hpc]; rfl)
  | @skip r hpc hpc' frame hreply hused =>
    rw [hpc'] at hrange
    obtain rfl := Option.some.inj hrange
    exact (h r (by rw [hpc]; rfl)).trans (Nat.le_succ _)
  | giveUp hpc hpc' frame hreply hused =>
    rw [hpc'.range?] at hrange
    cases hrange
  | @remove r hashes hpc heq =>
    subst heq
    obtain rfl := Option.some.inj hrange
    exact h r (by rw [hpc]; rfl)

/-- Where a step leaves the position of a cancelled loop: outside a range, at the same block, at
the first block of a range, or behind a block that was processed with `Ok`. -/
inductive Advance (chain : Chain) (l : FlushLoop) (input : FlushInput) (l' : FlushLoop) : Prop
  | out (hpc : l'.pc.nextBlock = none) (hprogress : l'.pc.progress = 0)
      (hok : l.processedOk chain input = [])
  | stay (hpc : l'.pc.nextBlock = l.pc.nextBlock) (hprogress : l'.pc.progress = l.pc.progress)
      (hok : l.processedOk chain input = [])
  | enter {txs : List PendingRunTx} {ctx : ActorContext} (hreply : l.reply = .sent ⟨txs, some ctx⟩)
      (hpc : l'.pc.nextBlock = some ctx.targetBlock) (hprogress : l'.pc.progress = 0)
      (hok : l.processedOk chain input = [])
  | record {range : BlockRange} {hashes : List TxHash} (hpc : l.pc = .block range)
      (hpc' : l'.pc = .confirmed range hashes)
      (hok : l.processedOk chain input = [(range.bn, hashes)])

/-- A loop moves from one block to the next without a new snapshot only when the block failed. -/
private theorem failed_of_skip {next : BlockRange} (hpc : l.pc = .block range)
    (hpc' : l'.pc = .block next) (hstep : l.step chain input = some (l', rows)) :
    ∃ answer, input = .receipts answer ∧
      processBlockReceipts chain range.cacheSnapshot range.bn answer = .failed := by
  cases input with
  | receipts answer =>
    refine ⟨answer, rfl, ?_⟩
    simp only [step, hpc, Option.some.injEq] at hstep
    cases hprocessed : processBlockReceipts chain range.cacheSnapshot range.bn answer with
    | failed => rfl
    | confirmed hashes confirmedRows =>
      rw [hprocessed] at hstep
      obtain ⟨rfl, -⟩ := Prod.mk.inj hstep
      cases hpc'
    | panicked =>
      rw [hprocessed] at hstep
      obtain ⟨rfl, -⟩ := Prod.mk.inj hstep
      cases hpc'
  | _ => simp [step, hpc] at hstep

theorem advance_of_step (hcancelled : l.cancelled = true) (hsteady : l.Steady chain input)
    (hstep : l.step chain input = some (l', rows)) : Advance chain l input l' := by
  have hok : (∀ range, l.pc ≠ .block range) → l.processedOk chain input = [] := by
    intro hpc
    obtain hnone | ⟨range, hashes, hblock, -⟩ := processedOk_cases hstep
    · exact hnone
    · exact absurd hblock (hpc range)
  have hother : (∀ range hashes, l'.pc ≠ .confirmed range hashes) →
      l.processedOk chain input = [] := by
    intro hpc
    obtain hnone | ⟨range, hashes, -, -, -, hconfirmed⟩ := processedOk_cases hstep
    · exact hnone
    · exact absurd hconfirmed (hpc range hashes)
  have hresting : l'.pc.Resting → Advance chain l input l' := by
    intro hpc'
    refine .out hpc'.nextBlock hpc'.progress (hother fun range hashes hconfirmed => ?_)
    rw [hconfirmed] at hpc'
    rcases hpc' with h | h | h | h <;> cases h
  cases FlushLoop.move_of_step hstep with
  | ask hpc hopen heq =>
    subst heq
    refine .stay hpc.nextBlock hpc.progress (hok fun range hblock => ?_)
    rw [hblock] at hpc
    cases hpc
  | rest hpc hpc' frame hreply hused => exact hresting hpc'
  | settle hpc hreply hpc' frame hreply' hused => exact hresting hpc'
  | giveUp hpc hpc' frame hreply hused => exact hresting hpc'
  | enter hpc hreply hpc' frame hreply' hused =>
    refine .enter hreply (by rw [hpc']; rfl) ?_ (hok (by simp [hpc]))
    rw [hpc']
    exact Nat.sub_self _
  | proceed hpc hreply hpc' frame hreply' hused =>
    refine .stay ?_ ?_ (hok (by simp [hpc]))
    · rw [hpc, hpc']
      rfl
    · rw [hpc, hpc']
      rfl
  | @record range answer hashes runTxs hpc hinput processed heq =>
    subst heq hinput
    refine .record hpc rfl ?_
    simp [processedOk, hpc, processed, hcancelled]
  | @skip range hpc hpc' frame hreply hused =>
    obtain ⟨answer, rfl, hfailed⟩ := failed_of_skip hpc hpc' hstep
    exact absurd hfailed (hsteady range (by rw [hpc]; rfl))
  | remove hpc heq =>
    subst heq
    refine .stay ?_ ?_ (hok (by simp [hpc]))
    · rw [hpc]
      rfl
    · rw [hpc]
      rfl

/-- At the end of a range the counter stands for blocks that were processed. -/
theorem Counted.trackStale_le {ok : ProcessedBlocks} (hcounted : l.Counted ok)
    (hanswered : l.Answered ok) (hcancelled : l.cancelled = true) (hsteady : l.Steady chain input)
    (hends : l.endedRange chain input = some range) :
    (l.trackStale range).staleBlocks ≤ ok.length := by
  obtain ⟨r, txs, ctx, hpc, -, hpending, hdone, hlength, rfl⟩ :=
    endedRange_of_steady hcancelled hsteady hanswered hends
  have hstart := hcounted.start r (by rw [hpc]; rfl)
  unfold trackStale
  rw [if_pos ⟨hcancelled, hpending⟩]
  dsimp only
  split_ifs with hsame
  · -- the count has not changed since the last range, so every block of this one is in `ok`
    have hcount := hcounted.counted (by omega)
    rw [hpc] at hcount
    have hprogress : l.staleBlocks + (r.bn + 1 - r.blocksStart) ≤ ok.length := hcount
    dsimp only
    omega
  · exact Nat.zero_le _

private theorem staleBlocks_of_step {ok : ProcessedBlocks} (hcounted : l.Counted ok)
    (hanswered : l.Answered ok) (hcancelled : l.cancelled = true) (hsteady : l.Steady chain input)
    (hstep : l.step chain input = some (l', rows)) :
    l.SameCounters l' ∨ l'.pc.Resting ∧ l'.staleBlocks ≤ ok.length := by
  obtain ⟨-, hsame⟩ | ⟨range, hends, htracked, hresting⟩ := counters_of_step hstep
  · exact .inl hsame
  · refine .inr ⟨hresting, ?_⟩
    rw [htracked.1]
    exact hcounted.trackStale_le hanswered hcancelled hsteady hends

/-- **One step of the loop.** -/
theorem Counted.step {ok : ProcessedBlocks} (hcounted : l.Counted ok) (hanswered : l.Answered ok)
    (hsteady : l.cancelled = true → l.Steady chain input)
    (hstep : l.step chain input = some (l', rows)) :
    l'.Counted (ok ++ l.processedOk chain input) := by
  have hstart := (move_of_step hstep).start hcounted.start
  have hcancel := step_cancelled hstep
  by_cases hcancelled : l.cancelled = true
  · have hadvance := advance_of_step hcancelled (hsteady hcancelled) hstep
    have hbefore : l'.cancelled = false → l'.lastPendingCount = 2 ^ 64 - 1 ∧
        ok ++ l.processedOk chain input = [] := by
      intro h
      rw [hcancel, hcancelled] at h
      cases h
    have hcounters := staleBlocks_of_step hcounted hanswered hcancelled (hsteady hcancelled) hstep
    have hsame : l.SameCounters l' → l'.lastPendingCount ≠ 2 ^ 64 - 1 →
        l'.staleBlocks + l.pc.progress ≤ ok.length := by
      intro hsame hlast
      rw [hsame.1]
      exact hcounted.counted (hsame.2 ▸ hlast)
    cases hadvance with
    | out hpc hprogress hok =>
      rw [hok, List.append_nil] at hbefore ⊢
      refine ⟨hbefore, hcounted.nodup, fun hlast => ?_, hstart, fun n hn => ?_⟩
      · rw [hprogress, Nat.add_zero]
        obtain hsame' | ⟨-, hstale⟩ := hcounters
        · exact (Nat.le_add_right _ _).trans (hsame hsame' hlast)
        · exact hstale
      · rw [hpc] at hn
        cases hn
    | stay hpc hprogress hok =>
      rw [hok, List.append_nil] at hbefore ⊢
      refine ⟨hbefore, hcounted.nodup, fun hlast => ?_, hstart, fun n hn => ?_⟩
      · rw [hprogress]
        obtain hsame' | ⟨hresting, hstale⟩ := hcounters
        · exact hsame hsame' hlast
        · rwa [← hprogress, hresting.progress, Nat.add_zero]
      · exact hcounted.below n (hpc ▸ hn)
    | enter hreply hpc hprogress hok =>
      rw [hok, List.append_nil] at hbefore ⊢
      refine ⟨hbefore, hcounted.nodup, fun hlast => ?_, hstart, fun n hn => ?_⟩
      · rw [hprogress, Nat.add_zero]
        obtain hsame' | ⟨-, hstale⟩ := hcounters
        · exact (Nat.le_add_right _ _).trans (hsame hsame' hlast)
        · exact hstale
      · -- the range starts at the target of the answer
        obtain rfl := Option.some.inj (hpc.symm.trans hn)
        exact hanswered.target _ _ hreply
    | @record range hashes hpc hpc' hok =>
      rw [hok] at hbefore ⊢
      have hbelow : ∀ e ∈ ok, e.1 < range.bn := hcounted.below range.bn (by rw [hpc]; rfl)
      have hinside := hcounted.start range (by rw [hpc]; rfl)
      refine ⟨hbefore, ?_, fun hlast => ?_, hstart, fun n hn => ?_⟩
      · -- every earlier block lies below this one
        rw [List.map_append, List.nodup_append]
        refine ⟨hcounted.nodup, List.nodup_singleton _, ?_⟩
        intro bn hbn bn' hbn'
        obtain ⟨e, he, rfl⟩ := List.mem_map.mp hbn
        obtain rfl : bn' = range.bn := by simpa using hbn'
        exact (hbelow e he).ne
      · have hsame' : l.SameCounters l' := by
          refine hcounters.resolve_right fun h => ?_
          have hresting := h.1
          rw [hpc'] at hresting
          rcases hresting with h | h | h | h <;> cases h
        have hcount := hsame hsame' hlast
        rw [hpc] at hcount
        have hprogress : l'.staleBlocks + (range.bn - range.blocksStart) ≤ ok.length := hcount
        rw [hpc', List.length_append, List.length_singleton]
        change l'.staleBlocks + (range.bn + 1 - range.blocksStart) ≤ ok.length + 1
        omega
      · rw [hpc'] at hn
        obtain rfl := Option.some.inj hn
        intro e he
        obtain he | he := List.mem_append.mp he
        · exact (hbelow e he).trans (Nat.lt_succ_self _)
        · obtain rfl := List.mem_singleton.mp he
          exact Nat.lt_succ_self _
  · -- before the loop is cancelled nothing is counted
    have hfalse : l.cancelled = false := by simpa using hcancelled
    obtain ⟨hlast, rfl⟩ := hcounted.before hfalse
    have hnone : l.processedOk chain input = [] := by
      obtain hnone | ⟨range, hashes, -, htrue, -⟩ := processedOk_cases hstep
      · exact hnone
      · exact absurd htrue hcancelled
    have hsame := sameCounters_of_not_cancelled hfalse hstep
    rw [hnone]
    exact ⟨fun _ => ⟨hsame.2.trans hlast, rfl⟩, List.nodup_nil,
      fun h => absurd (hsame.2.trans hlast) h, hstart, by simp⟩

end FlushLoop

end Contender
