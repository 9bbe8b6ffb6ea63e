import Contender.Spammer.WellFormed

/-!
# The representation of the actor's state

The actor keeps two maps by transaction hash: the cache of sent transactions, and the buffer
of flashblock marks whose transaction has not been sent yet. Ten kinds of input touch them,
some of them only one of the two. `TxActor.Touch` says once what an input does to both, and
the invariant of the representation is proved over it: the cache is keyed by its own hashes,
nothing is cached and buffered at once, the buffer is bounded, and the two flashblock fields
of a cached transaction are set together.

## Main results

* `TxActor.representation_of_run` — the invariant holds in every reachable state and in the
  state that an input leaves, and no input but `InitCtx` lowers the target block
-/

namespace Contender

open Semantics

namespace ActorInput

/-- The input is the `SentRunTx` message of a transaction. -/
def Sends (txHash : TxHash) : ActorInput → Prop
  | .message (.sentRunTx sent _ _ _ _ _) _ => sent = txHash
  | _ => False

instance (txHash : TxHash) (input : ActorInput) : Decidable (input.Sends txHash) :=
  match input with
  | .message (.sentRunTx sent _ _ _ _ _) _ => inferInstanceAs (Decidable (sent = txHash))
  | .message (.initCtx _) _ | .message (.getCacheLen _) _ | .message (.removedRunTx _ _) _
  | .message (.dumpCache _ _) _ | .message (.stop _) _ | .message (.replaceFlushReceiver _) _
  | .message (.clearCache _) _ | .stopSignal | .flush _ _ | .mark _ => isFalse id

/-- The input replaces the context of the actor. -/
def InitsCtx : ActorInput → Prop
  | .message (.initCtx _) _ => True
  | _ => False

/-- The flashblock mark an input brings for a transaction. -/
def markOf (txHash : TxHash) : ActorInput → Option FlashblockMark
  | .mark m => if m.txHash = txHash then some m else none
  | _ => none

end ActorInput

namespace TxActor

/-- What handling an input does to the cache and to the buffered marks. -/
inductive Touch (a : TxActor) : ActorInput → TxActor → Prop
  /-- Neither map is touched. -/
  | keep {input : ActorInput} {b : TxActor} (hsent : ∀ h, ¬ input.Sends h)
      (hmark : ∀ h, input.markOf h = none) (hcache : b.cache = a.cache)
      (hmarks : b.pendingFlashblockMarks = a.pendingFlashblockMarks) : Touch a input b
  /-- A sent transaction is cached, with the mark that was buffered for it. -/
  | send {h : TxHash} {start : Nat} {stop : Option Nat} {kind error : Option String}
      {reply : Oneshot} {inserted : Bool} {b : TxActor}
      (hcache : b.cache = a.cache.insert h (a.pendingOf h start stop kind error))
      (hmarks : b.pendingFlashblockMarks = a.pendingFlashblockMarks.erase h) :
      Touch a (.message (.sentRunTx h start stop kind error reply) inserted) b
  /-- Cached transactions are removed, and the marks stay. -/
  | remove {input : ActorInput} {b : TxActor} (hsent : ∀ h, ¬ input.Sends h)
      (hmark : ∀ h, input.markOf h = none) (removed : List TxHash) (hcache : ∀ h, b.cache.lookup h =
        if h ∈ removed then none else a.cache.lookup h)
      (hmarks : b.pendingFlashblockMarks = a.pendingFlashblockMarks) : Touch a input b
  /-- Confirmed transactions are removed from both maps, and old marks are evicted. -/
  | confirm {hashes : List TxHash} {target nowMs : Nat} {b : TxActor}
      (hcache : b.cache = a.cache.eraseAll hashes)
      (hmarks : b.pendingFlashblockMarks = (a.pendingFlashblockMarks.eraseAll hashes).retain
        fun _ mark => nowMs - mark.1 < 20000) :
      Touch a (.flush (.removeConfirmed hashes target) nowMs) b
  /-- A cached transaction gets its first mark. -/
  | mark {mark : FlashblockMark} {tx : PendingRunTx} {b : TxActor}
      (hlookup : a.cache.lookup mark.txHash = some tx)
      (hunmarked : tx.flashblockTimestampMs = none)
      (hcache : b.cache = a.cache.replace mark.txHash { tx with
        flashblockTimestampMs := some mark.timestampMs
        flashblockIndex := some mark.index })
      (hmarks : b.pendingFlashblockMarks = a.pendingFlashblockMarks) : Touch a (.mark mark) b
  /-- The mark of an uncached transaction is buffered. -/
  | buffer {mark : FlashblockMark} {b : TxActor} (huncached : mark.txHash ∉ a.cache)
      (hfree : mark.txHash ∉ a.pendingFlashblockMarks)
      (hroom : a.pendingFlashblockMarks.entries.length < maxPendingFlashblockMarks)
      (hcache : b.cache = a.cache)
      (hmarks : b.pendingFlashblockMarks =
        a.pendingFlashblockMarks.insert mark.txHash (mark.timestampMs, mark.index)) :
      Touch a (.mark mark) b
  /-- A mark is ignored: its transaction has one, or the buffer is full. -/
  | ignore {mark : FlashblockMark} (hmarked : (∃ tx, a.cache.lookup mark.txHash = some tx ∧
        tx.flashblockTimestampMs ≠ none) ∨ (mark.txHash ∉ a.cache ∧
          (mark.txHash ∈ a.pendingFlashblockMarks ∨
            maxPendingFlashblockMarks ≤ a.pendingFlashblockMarks.entries.length))) :
      Touch a (.mark mark) a

variable {a b : TxActor} {input : ActorInput}

theorem touch_removedRunTx (a : TxActor) (h : TxHash) (reply : Oneshot) (inserted : Bool) :
    Touch a (.message (.removedRunTx h reply) inserted)
      (a.handleMessage inserted (.removedRunTx h reply)).actor := by
  by_cases hmem : h ∈ a.cache
  -- the request is an error otherwise, and the cache stays as it is
  · refine .remove (fun _ => id) (fun _ => rfl) [h] (fun j => ?_) ?_
    · by_cases hj : j = h
      · subst hj
        simp [handleMessage, removeCachedTx, hmem]
      · simp [handleMessage, removeCachedTx, hmem, hj, AList.lookup_erase_ne hj]
    · simp [handleMessage, removeCachedTx, hmem]
  · refine .keep (fun _ => id) (fun _ => rfl) ?_ ?_ <;>
      simp [handleMessage, removeCachedTx, hmem]

/-- An emptied cache is one from which every transaction was removed. -/
theorem touch_of_empty (hsent : ∀ h, ¬ input.Sends h) (hmark : ∀ h, input.markOf h = none)
    (hcache : b.cache = ∅) (hmarks : b.pendingFlashblockMarks = a.pendingFlashblockMarks) :
    Touch a input b := by
  refine .remove hsent hmark a.cache.keys (fun h => ?_) hmarks
  rw [hcache, AList.lookup_empty]
  split_ifs with hmem
  · rfl
  · exact (AList.lookup_eq_none.mpr fun h' => hmem (AList.mem_keys.mp h')).symm

theorem touch_dumpCache (a : TxActor) (runId : Nat) (reply : Oneshot) (inserted : Bool) :
    Touch a (.message (.dumpCache runId reply) inserted)
      (a.handleMessage inserted (.dumpCache runId reply)).actor := by
  -- a failed dump keeps the cache
  rcases a.dumpCache_cases inserted runId with ⟨-, txs, -, hdump⟩ | ⟨-, fault, hdump⟩
  · refine touch_of_empty (fun _ => id) (fun _ => rfl) ?_ ?_ <;> simp [handleMessage, hdump]
  · refine .keep (fun _ => id) (fun _ => rfl) ?_ ?_ <;> simp [handleMessage, hdump]

theorem touch_handleFlashblockMark (a : TxActor) (mark : FlashblockMark) :
    Touch a (.mark mark) (a.handleFlashblockMark mark) := by
  unfold handleFlashblockMark
  cases hlookup : a.cache.lookup mark.txHash with
  | some tx =>
    dsimp only
    split_ifs with hnone
    · exact .mark hlookup (Option.isNone_iff_eq_none.mp hnone) rfl rfl
    · exact .ignore (Or.inl ⟨tx, hlookup, fun h => hnone (by simp [h])⟩)
  | none =>
    have huncached : mark.txHash ∉ a.cache := AList.lookup_eq_none.mp hlookup
    dsimp only
    split_ifs with hfull hbuffered
    · exact .ignore (Or.inr ⟨huncached, Or.inr hfull⟩)
    · exact .ignore (Or.inr ⟨huncached, Or.inl hbuffered⟩)
    · exact .buffer huncached hbuffered (Nat.lt_of_not_le hfull) rfl rfl

/-- **What an input does to the two maps.** -/
theorem touch_handle (a : TxActor) (input : ActorInput) : Touch a input (a.handle input).actor := by
  cases input with
  | stopSignal => exact .keep (fun _ => id) (fun _ => rfl) rfl rfl
  | mark mark => exact touch_handleFlashblockMark a mark
  | flush request nowMs =>
    cases request with
    | getSnapshot => exact .keep (fun _ => id) (fun _ => rfl) rfl rfl
    | removeConfirmed hashes target => exact .confirm rfl rfl
  | message m inserted =>
    cases m with
    | sentRunTx h start stop kind error reply => exact .send rfl rfl
    | removedRunTx h reply => exact touch_removedRunTx a h reply inserted
    | dumpCache runId reply => exact touch_dumpCache a runId reply inserted
    | clearCache reply => exact touch_of_empty (fun _ => id) (fun _ => rfl) rfl rfl
    | _ => exact .keep (fun _ => id) (fun _ => rfl) rfl rfl

theorem touch_of_next (h : a.next input = some b) : Touch a input b := by
  obtain ⟨-, -, rfl⟩ := survivor_eq_some.mp h
  exact touch_handle a input

/-! ### The invariant -/

/-- The invariant of the two maps. -/
structure Representation (a : TxActor) : Prop where
  keyed : a.Keyed
  disjoint : ∀ h ∈ a.pendingFlashblockMarks, h ∉ a.cache
  bounded : a.pendingFlashblockMarks.entries.length ≤ maxPendingFlashblockMarks
  marked : ∀ h tx, a.cache.lookup h = some tx →
    (tx.flashblockTimestampMs.isSome ↔ tx.flashblockIndex.isSome)

theorem representation_new (receiver : Nat) : (new receiver).Representation where
  keyed h tx hcached := by simp [new] at hcached
  disjoint h hmem := absurd hmem (AList.notMem_empty h)
  bounded := Nat.zero_le _
  marked h tx hcached := by simp [new] at hcached

theorem Keyed.handle (hkeyed : a.Keyed) (input : ActorInput) : (a.handle input).actor.Keyed := by
  cases input with
  | stopSignal => exact hkeyed
  | message m inserted => exact hkeyed.handleMessage inserted m
  | flush request nowMs => exact hkeyed.handleFlushRequest nowMs request
  | mark mark => exact hkeyed.handleFlashblockMark mark

/-- What is buffered stays apart from what is cached. -/
theorem Touch.disjoint (htouch : Touch a input b) (hrep : a.Representation) :
    ∀ h ∈ b.pendingFlashblockMarks, h ∉ b.cache := by
  intro h hbuffered hcached
  cases htouch with
  | keep hsent hmark hcache hmarks =>
    rw [hmarks] at hbuffered
    rw [hcache] at hcached
    exact hrep.disjoint h hbuffered hcached
  | send hcache hmarks =>
    -- the mark of the sent transaction is used up
    rw [hmarks, AList.mem_erase] at hbuffered
    rw [hcache, AList.mem_insert] at hcached
    exact hrep.disjoint h hbuffered.2 (hcached.resolve_left hbuffered.1)
  | remove hsent hmark removed hcache hmarks =>
    rw [hmarks] at hbuffered
    obtain ⟨tx, htx⟩ := AList.mem_iff_lookup.mp hcached
    rw [hcache] at htx
    split_ifs at htx
    exact hrep.disjoint h hbuffered (AList.mem_iff_lookup.mpr ⟨tx, htx⟩)
  | confirm hcache hmarks =>
    -- both maps only lose entries
    rw [hmarks] at hbuffered
    rw [hcache, AList.mem_eraseAll] at hcached
    have hkept := (AList.mem_eraseAll.mp (AList.mem_of_mem_retain hbuffered)).1
    exact hrep.disjoint h hkept hcached.1
  | mark hlookup hunmarked hcache hmarks =>
    rw [hmarks] at hbuffered
    rw [hcache, AList.mem_replace] at hcached
    exact hrep.disjoint h hbuffered hcached
  | buffer huncached hfree hroom hcache hmarks =>
    rw [hmarks, AList.mem_insert] at hbuffered
    rw [hcache] at hcached
    rcases hbuffered with rfl | hbuffered
    · exact huncached hcached
    · exact hrep.disjoint h hbuffered hcached
  | ignore hmarked => exact hrep.disjoint h hbuffered hcached

/-- A mark is buffered only while there is room. -/
theorem Touch.bounded (htouch : Touch a input b) (hrep : a.Representation) :
    b.pendingFlashblockMarks.entries.length ≤ maxPendingFlashblockMarks := by
  have hbound := hrep.bounded
  cases htouch with
  | keep hsent hmark hcache hmarks => rwa [hmarks]
  | send hcache hmarks =>
    rw [hmarks]
    exact Nat.le_trans (AList.length_erase_le _ _) hbound
  | remove hsent hmark removed hcache hmarks => rwa [hmarks]
  | confirm hcache hmarks =>
    rw [hmarks]
    exact Nat.le_trans (AList.length_retain_le _ _)
      (Nat.le_trans (AList.length_eraseAll_le _ _) hbound)
  | mark hlookup hunmarked hcache hmarks => rwa [hmarks]
  | buffer huncached hfree hroom hcache hmarks =>
    rw [hmarks]
    exact Nat.le_trans (AList.length_insert_le _ _ _) hroom
  | ignore hmarked => exact hbound

/-- The two flashblock fields are set together. -/
theorem Touch.marked (htouch : Touch a input b) (hrep : a.Representation) (h : TxHash)
    (tx : PendingRunTx) (hcached : b.cache.lookup h = some tx) :
    tx.flashblockTimestampMs.isSome ↔ tx.flashblockIndex.isSome := by
  cases htouch with
  | keep hsent hmark hcache hmarks => exact hrep.marked h tx (hcache ▸ hcached)
  | send hcache hmarks =>
    rename_i sent start stop kind error reply inserted
    rw [hcache] at hcached
    by_cases hsent : h = sent
    -- a buffered mark sets both fields, and no mark sets neither
    · subst hsent
      rw [AList.lookup_insert, Option.some.injEq] at hcached
      subst hcached
      simp [pendingOf]
    · rw [AList.lookup_insert_ne hsent] at hcached
      exact hrep.marked h tx hcached
  | remove hsent hmark removed hcache hmarks =>
    rw [hcache] at hcached
    split_ifs at hcached
    exact hrep.marked h tx hcached
  | confirm hcache hmarks =>
    rw [hcache, AList.lookup_eraseAll] at hcached
    split_ifs at hcached
    exact hrep.marked h tx hcached
  | mark hlookup hunmarked hcache hmarks =>
    rw [hcache, AList.lookup_replace, hlookup] at hcached
    split_ifs at hcached
    · obtain rfl := Option.some.inj hcached
      simp
    · exact hrep.marked h tx hcached
  | buffer huncached hfree hroom hcache hmarks => exact hrep.marked h tx (hcache ▸ hcached)
  | ignore hmarked => exact hrep.marked h tx hcached

/-- Handling an input keeps the invariant, whether or not the handler succeeds. -/
theorem Representation.handle (hrep : a.Representation) (input : ActorInput) :
    (a.handle input).actor.Representation where
  keyed := hrep.keyed.handle input
  disjoint := (touch_handle a input).disjoint hrep
  bounded := (touch_handle a input).bounded hrep
  marked := (touch_handle a input).marked hrep

/-- The context that an input other than `InitCtx` leaves is the one before, with a target
block that is no lower. -/
def KeepsTarget (a b : TxActor) : Prop :=
  ∀ ctx ∈ a.ctx, ∃ ctx' ∈ b.ctx, ctx'.runId = ctx.runId ∧ ctx.targetBlock ≤ ctx'.targetBlock

theorem keepsTarget_of_ctx_eq (h : b.ctx = a.ctx) : a.KeepsTarget b :=
  fun ctx hctx => ⟨ctx, h ▸ hctx, rfl, le_rfl⟩

theorem le_advanceTarget (target : Nat) (ctx : ActorContext) :
    (advanceTarget target ctx).runId = ctx.runId ∧
      ctx.targetBlock ≤ (advanceTarget target ctx).targetBlock := by
  unfold advanceTarget
  split_ifs with h
  · exact ⟨rfl, Nat.le_of_lt h⟩
  · exact ⟨rfl, le_rfl⟩

theorem keepsTarget_handle (hinput : ¬ input.InitsCtx) : a.KeepsTarget (a.handle input).actor := by
  cases input with
  | stopSignal => exact keepsTarget_of_ctx_eq rfl
  | mark mark => exact keepsTarget_of_ctx_eq (a.handleFlashblockMark_ctx mark)
  | flush request nowMs =>
    cases request with
    | getSnapshot => exact keepsTarget_of_ctx_eq rfl
    | removeConfirmed hashes target =>
      intro ctx hctx
      exact ⟨advanceTarget target ctx, Option.mem_map_of_mem _ hctx, le_advanceTarget target ctx⟩
  | message m inserted =>
    cases m with
    | initCtx ctx => exact absurd trivial hinput
    | removedRunTx h reply =>
      apply keepsTarget_of_ctx_eq
      by_cases hmem : h ∈ a.cache <;> simp [handle, handleMessage, removeCachedTx, hmem]
    | dumpCache runId reply =>
      apply keepsTarget_of_ctx_eq
      rcases a.dumpCache_cases inserted runId with ⟨-, txs, -, hdump⟩ | ⟨-, fault, hdump⟩ <;>
        simp [handle, handleMessage, hdump]
    | _ => exact keepsTarget_of_ctx_eq rfl

/-- Every reachable state of the actor meets the invariant. -/
theorem representation_of_reached {receiver : Nat} {inputs : List ActorInput}
    (hrun : (new receiver).run inputs = some a) : a.Representation := by
  refine Execution.invariant (fun s input t _ hnext hrep => ?_) (representation_new receiver) hrun
    (Execution.along_true _ _)
  obtain ⟨-, -, rfl⟩ := survivor_eq_some.mp hnext
  exact hrep.handle input

/-- **The representation of the actor's state.** In every state that is reached by a sequence
of inputs, and in the state that one more input leaves even when its handler fails, the two maps
meet the invariant; and only `InitCtx` lowers the target block. -/
theorem representation_of_run {receiver : Nat} {inputs : List ActorInput}
    (hrun : (new receiver).run inputs = some a) (input : ActorInput) :
    a.Representation ∧ (a.handle input).actor.Representation ∧
      (¬ input.InitsCtx → a.KeepsTarget (a.handle input).actor) := by
  have hrep := representation_of_reached hrun
  exact ⟨hrep, hrep.handle input, keepsTarget_handle⟩

/-- A mark that comes first, the transaction it is for, and the confirmation of another one. -/
def markedEarly : List ActorInput :=
  [.message (.initCtx ⟨1, 10⟩) true, .mark ⟨0x1, 500, 2⟩,
    .message (.sentRunTx 0x1 400 none none none .listening) true]

theorem representation_markedEarly :
    ∃ a, (new 0).run markedEarly = some a ∧ a.Representation ∧
      (a.handle (.flush (.removeConfirmed [0x2] 12) 600)).actor.Representation ∧
      a.KeepsTarget (a.handle (.flush (.removeConfirmed [0x2] 12) 600)).actor := by
  have hrun : (new 0).run markedEarly = some _ := rfl
  obtain ⟨hrep, hnext, htarget⟩ :=
    representation_of_run hrun (.flush (.removeConfirmed [0x2] 12) 600)
  exact ⟨_, hrun, hrep, hnext, htarget id⟩

end TxActor

end Contender
