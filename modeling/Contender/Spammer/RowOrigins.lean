import Contender.Spammer.BlockReceipts
import Contender.Spammer.WellFormed

/-!
# Where recorded rows come from

A row of the database has passed through the actor's cache, and perhaps through a
snapshot of it that the flush loop goes by. On the way it keeps what the sender of its
`SentRunTx` message has put into it; the actor adds the flashblock, and the recording
adds the receipt. In every reachable state each row is written for a transaction that was
sent to the actor, with the start timestamp, the kind and the error it was sent with; the
receipt of a failed transaction replaces the error.
-/

namespace Contender

open Semantics

/-- `CacheTx`: what a sender tells the actor about a transaction. -/
@[ext]
structure CacheTx where
  txHash : TxHash
  startTimestampMs : Nat
  endTimestampMs : Option Nat
  kind : Option String
  error : Option String
  deriving DecidableEq, Repr

/-- `cache_run_tx`: the message that hands the transaction to the actor. -/
def CacheTx.message (tx : CacheTx) (onReceive : Oneshot) : TxActorMessage :=
  .sentRunTx tx.txHash tx.startTimestampMs tx.endTimestampMs tx.kind tx.error onReceive

/-- What a cache entry keeps of its message. -/
def PendingRunTx.sent (tx : PendingRunTx) : CacheTx where
  txHash := tx.txHash
  startTimestampMs := tx.startTimestampMs
  endTimestampMs := tx.endTimestampMs
  kind := tx.kind
  error := tx.error

/-- The row is written for the transaction: by `dump_cache`, or by
`process_block_receipts` with a receipt of the block. `failed` says whether the receipt
is one of a failed transaction. -/
inductive WrittenFor (chain : Chain) (sent : CacheTx) : Bool → RunTx → Prop
  | dumped {tx : PendingRunTx} {row : RunTx} (hsent : tx.sent = sent)
      (hrow : tx.toDumpedRunTx = some row) : WrittenFor chain sent false row
  | confirmed {tx : PendingRunTx} {row : RunTx} {blockNumber : Nat} {receipt : Receipt}
      (hsent : tx.sent = sent) (hreceipt : receipt ∈ chain.receipts blockNumber)
      (hhash : receipt.transactionHash = sent.txHash)
      (hrow : tx.toConfirmedRunTx receipt blockNumber (chain.timestamp blockNumber) = some row) :
      WrittenFor chain sent (!receipt.status) row

private theorem eq_of_toU64 {m n : Nat} (h : toU64 m = some n) : n = m := by
  unfold toU64 at h
  split_ifs at h
  exact (Option.some.inj h).symm

/-- What a row has from its transaction. -/
theorem WrittenFor.fields {chain : Chain} {sent : CacheTx} {failed : Bool} {row : RunTx}
    (h : WrittenFor chain sent failed row) :
    row.txHash = sent.txHash ∧ row.startTimestampMs = sent.startTimestampMs ∧
      row.kind = sent.kind ∧
      row.error = if failed then some "execution reverted" else sent.error := by
  cases h with
  | @dumped tx _ hsent hrow =>
    simp only [PendingRunTx.toDumpedRunTx, Option.bind_eq_bind, Option.bind_eq_some_iff,
      Option.some.injEq] at hrow
    obtain ⟨start, hstart, stop, hstop, latency, hlatency, rfl⟩ := hrow
    obtain rfl := eq_of_toU64 hstart
    subst hsent
    exact ⟨rfl, rfl, rfl, rfl⟩
  | @confirmed tx _ blockNumber receipt hsent hreceipt hhash hrow =>
    simp only [PendingRunTx.toConfirmedRunTx, Option.bind_eq_bind, Option.bind_eq_some_iff,
      Option.some.injEq] at hrow
    obtain ⟨start, hstart, stop, hstop, blockMs, hblock, latency, hlatency, rfl⟩ := hrow
    obtain rfl := eq_of_toU64 hstart
    subst hsent
    refine ⟨rfl, rfl, rfl, ?_⟩
    cases hstatus : receipt.status <;> simp [getTxError, hstatus, PendingRunTx.sent]

/-! ### The flush loop -/

/-- The range a flush loop is in. -/
def FlushPc.range? : FlushPc → Option BlockRange
  | .block range => some range
  | .confirmed range _ => some range
  | .refresh range => some range
  | .refreshReply range => some range
  | _ => none

theorem FlushPc.Resting.range? {pc : FlushPc} (h : pc.Resting) : pc.range? = none := by
  rcases h with rfl | rfl | rfl | rfl <;> rfl

/-- All transactions of a list were sent. -/
def AllSent (P : CacheTx → Prop) (txs : List PendingRunTx) : Prop := ∀ tx ∈ txs, P tx.sent

namespace FlushLoop

/-- The transactions that a flush loop has in its hands were sent. -/
structure Traced (P : CacheTx → Prop) (l : FlushLoop) : Prop where
  reply : ∀ snapshot, l.reply = .sent snapshot → AllSent P snapshot.txs
  range : ∀ range, l.pc.range? = some range → AllSent P range.cacheSnapshot

variable {chain : Chain} {P : CacheTx → Prop} {l l' : FlushLoop} {input : FlushInput}
  {rows : List RunRow}

theorem traced_spawn (receiver : FlushReceiver) : (spawn receiver).Traced P :=
  ⟨fun _ h => (nomatch h), fun _ h => (nomatch h)⟩

theorem traced_unspawned : unspawned.Traced P :=
  ⟨fun _ h => (nomatch h), fun _ h => (nomatch h)⟩

theorem Traced.close (h : l.Traced P) : l.close.Traced P := by
  refine ⟨fun snapshot hreply => ?_, h.range⟩
  cases hcase : l.reply with
  | sent other =>
    simp only [FlushLoop.close, hcase, SnapshotReply.sent.injEq] at hreply
    subst hreply
    exact h.reply other hcase
  | _ => simp [FlushLoop.close, hcase] at hreply

/-- Outside a range, with an oneshot that brings nothing new. -/
private theorem traced_of_resting (h : l.Traced P) (hpc : l'.pc.Resting)
    (hreply : l'.reply = l.reply ∨ l'.reply = .idle) : l'.Traced P where
  reply snapshot hsent := by
    rcases hreply with hsame | hidle
    · exact h.reply snapshot (hsame ▸ hsent)
    · rw [hidle] at hsent
      cases hsent
  range range hrange := by
    rw [hpc.range?] at hrange
    cases hrange

theorem range?_of_asks {pc waiting : FlushPc} (h : pc.Asks waiting) :
    waiting.range? = pc.range? := by
  cases h <;> rfl

/-- The rows of a processed block are written for transactions of the snapshot. -/
theorem writtenFor_of_confirmed {cacheSnapshot : List PendingRunTx} {blockNumber : Nat}
    {answer : ReceiptAnswer} {confirmed : List TxHash} {rows : List RunTx}
    (h : processBlockReceipts chain cacheSnapshot blockNumber answer = .confirmed confirmed rows)
    {row : RunTx} (hrow : row ∈ rows) :
    ∃ tx ∈ cacheSnapshot, ∃ failed, WrittenFor chain tx.sent failed row := by
  unfold processBlockReceipts at h
  split_ifs at h with hempty
  · obtain ⟨-, rfl⟩ := Processed.confirmed.inj h
    exact absurd hrow List.not_mem_nil
  · cases hrows : (confirmedIn cacheSnapshot (answer.fetch chain blockNumber)).mapM fun c =>
        c.1.toConfirmedRunTx c.2 blockNumber (chain.timestamp blockNumber) with
    | none => simp [hrows] at h
    | some runTxs =>
      simp only [hrows] at h
      split_ifs at h
      obtain ⟨-, rfl⟩ := Processed.confirmed.inj h
      obtain ⟨⟨tx, receipt⟩, hc, hwritten⟩ :=
        (List.mapM_eq_some_iff.mp hrows).exists_of_mem_right hrow
      obtain ⟨tx', htx, hfound⟩ := List.mem_filterMap.mp hc
      obtain ⟨receipt', hfind, heq⟩ := Option.map_eq_some_iff.mp hfound
      obtain ⟨rfl, rfl⟩ := Prod.mk.inj heq
      have hmem : receipt' ∈ chain.receipts blockNumber := by
        have hfetched := List.mem_of_find?_eq_some hfind
        unfold ReceiptAnswer.fetch at hfetched
        split_ifs at hfetched
        · exact hfetched
        · exact (List.mem_filter.mp hfetched).1
      have hhash : receipt'.transactionHash = tx'.txHash := by
        simpa using List.find?_some hfind
      exact ⟨tx', htx, _, .confirmed rfl hmem hhash hwritten⟩

/-- **A step of the flush loop** hands on transactions that were sent, and writes rows
for them. -/
theorem Traced.move (h : l.Traced P) (hmove : Move chain l input l' rows) :
    l'.Traced P ∧ ∀ row ∈ rows, ∃ tx, P tx ∧ ∃ failed, WrittenFor chain tx failed row.2 := by
  have hnone : ∀ row ∈ ([] : List RunRow), ∃ tx, P tx ∧ ∃ failed,
      WrittenFor chain tx failed row.2 := fun _ hrow => absurd hrow List.not_mem_nil
  cases hmove with
  | ask hpc hopen heq =>
    subst heq
    refine ⟨⟨fun _ hreply => (nomatch hreply), fun range hrange => ?_⟩, hnone⟩
    exact h.range range ((range?_of_asks hpc).symm.trans hrange)
  | rest hpc hpc' frame hreply hused => exact ⟨traced_of_resting h hpc' (Or.inl hreply), hnone⟩
  | settle hpc hreply hpc' frame hreply' hused =>
    exact ⟨traced_of_resting h hpc' (Or.inr hreply'), hnone⟩
  -- the snapshot of the oneshot becomes the one of the range
  | enter hpc hreply hpc' frame hreply' hused =>
    refine ⟨⟨fun snapshot hsent => ?_, fun range hrange => ?_⟩, hnone⟩
    · rw [hreply'] at hsent
      cases hsent
    · rw [hpc'] at hrange
      obtain rfl := Option.some.inj hrange
      exact h.reply _ hreply
  | proceed hpc hreply hpc' frame hreply' hused =>
    refine ⟨⟨fun snapshot hsent => ?_, fun range hrange => ?_⟩, hnone⟩
    · rw [hreply'] at hsent
      cases hsent
    · rw [hpc'] at hrange
      obtain rfl := Option.some.inj hrange
      exact h.reply _ hreply
  | @record range answer hashes runTxs hpc hinput processed heq =>
    subst heq
    have hrange : AllSent P range.cacheSnapshot := h.range range (by rw [hpc]; rfl)
    refine ⟨⟨h.reply, fun other hother => ?_⟩, fun row hrow => ?_⟩
    · obtain rfl := Option.some.inj hother
      exact hrange
    · obtain ⟨runTx, hrunTx, rfl⟩ := List.mem_map.mp hrow
      obtain ⟨tx, htx, failed, hwritten⟩ := writtenFor_of_confirmed processed hrunTx
      exact ⟨tx.sent, hrange tx htx, failed, hwritten⟩
  | @skip range hpc hpc' frame hreply hused =>
    have hrange : AllSent P range.cacheSnapshot := h.range range (by rw [hpc]; rfl)
    refine ⟨⟨fun snapshot hsent => h.reply snapshot (hreply ▸ hsent), fun other hother => ?_⟩,
      hnone⟩
    rw [hpc'] at hother
    obtain rfl := Option.some.inj hother
    exact hrange
  | giveUp hpc hpc' frame hreply hused =>
    exact ⟨traced_of_resting h hpc' (Or.inl hreply), hnone⟩
  | @remove range hashes hpc heq =>
    subst heq
    refine ⟨⟨h.reply, fun other hother => ?_⟩, hnone⟩
    obtain rfl := Option.some.inj hother
    exact h.range range (by rw [hpc]; rfl)

end FlushLoop

/-! ### The actor -/

namespace TxActor

variable {P : CacheTx → Prop} {a : TxActor}

/-- The cached transactions were sent. -/
def Traced (P : CacheTx → Prop) (a : TxActor) : Prop := AllSent P a.cache.values

theorem traced_iff : a.Traced P ↔ ∀ h tx, a.cache.lookup h = some tx → P tx.sent := by
  unfold Traced AllSent
  constructor
  · intro hall h tx hlookup
    exact hall tx (AList.mem_values.mpr ⟨h, hlookup⟩)
  · intro hall tx hmem
    obtain ⟨h, hlookup⟩ := AList.mem_values.mp hmem
    exact hall h tx hlookup

private theorem traced_empty {b : TxActor} (h : b.cache = ∅) : b.Traced P := by
  rw [traced_iff, h]
  intro k tx hk
  rw [AList.lookup_empty] at hk
  cases hk

theorem Traced.handleMessage (ha : a.Traced P) (inserted : Bool) {m : TxActorMessage}
    (hsent : ∀ tx onReceive, m = CacheTx.message tx onReceive → P tx) :
    (a.handleMessage inserted m).actor.Traced P := by
  cases m with
  -- the new entry keeps what the message says
  | sentRunTx h start stop kind error onReceive =>
    have hnew : P ⟨h, start, stop, kind, error⟩ := hsent ⟨h, start, stop, kind, error⟩ onReceive rfl
    rw [traced_iff]
    intro k tx hk
    by_cases hkh : k = h
    · subst hkh
      have heq : some (a.pendingOf k start stop kind error) = some tx := by
        simpa [TxActor.handleMessage] using hk
      rw [← Option.some.inj heq]
      exact hnew
    · exact traced_iff.mp ha k tx
        (by simpa [TxActor.handleMessage, AList.lookup_insert_ne hkh] using hk)
  | removedRunTx h onRemove =>
    rw [traced_iff]
    intro k tx hk
    by_cases hmem : h ∈ a.cache
    · by_cases hkh : k = h
      · subst hkh
        simp [TxActor.handleMessage, removeCachedTx, hmem] at hk
      · apply traced_iff.mp ha k tx
        simpa [TxActor.handleMessage, removeCachedTx, hmem, AList.lookup_erase_ne hkh] using hk
    · exact traced_iff.mp ha k tx (by simpa [TxActor.handleMessage, removeCachedTx, hmem] using hk)
  | dumpCache runId onDumpCache =>
    rcases dumpCache_cases a inserted runId with ⟨-, txs, -, hdump⟩ | ⟨-, fault, hdump⟩
    · simp only [TxActor.handleMessage, hdump]
      exact traced_empty rfl
    · simp only [TxActor.handleMessage, hdump]
      exact ha
  | clearCache onClear => exact traced_empty rfl
  | _ => exact ha

/-- The rows of a dump are written for cached transactions. -/
theorem Traced.committed (chain : Chain) (ha : a.Traced P) (inserted : Bool) (m : TxActorMessage) :
    ∀ row ∈ (a.handleMessage inserted m).committed,
      ∃ tx, P tx ∧ ∃ failed, WrittenFor chain tx failed row.2 := by
  intro row hrow
  cases m with
  | dumpCache runId onDumpCache =>
    cases hdump : a.cache.values.mapM PendingRunTx.toDumpedRunTx with
    | none =>
      simp only [TxActor.handleMessage, TxActor.dumpCache, hdump] at hrow
      exact absurd hrow List.not_mem_nil
    | some txs =>
      cases inserted with
      | false =>
        simp only [TxActor.handleMessage, TxActor.dumpCache, hdump] at hrow
        exact absurd hrow List.not_mem_nil
      | true =>
        simp only [TxActor.handleMessage, TxActor.dumpCache, hdump, if_true] at hrow
        obtain ⟨runTx, hrunTx, rfl⟩ := List.mem_map.mp hrow
        obtain ⟨tx, htx, hwritten⟩ := (List.mapM_eq_some_iff.mp hdump).exists_of_mem_right hrunTx
        exact ⟨tx.sent, ha tx htx, false, .dumped rfl hwritten⟩
  | removedRunTx h onRemove =>
    simp only [TxActor.handleMessage] at hrow
    split at hrow <;> exact absurd hrow List.not_mem_nil
  | _ => exact absurd hrow List.not_mem_nil

theorem Traced.handleFlushRequest (ha : a.Traced P) (nowMs : Nat) (request : FlushRequest) :
    (a.handleFlushRequest nowMs request).Traced P := by
  cases request with
  | getSnapshot => exact ha
  | removeConfirmed hashes target =>
    rw [traced_iff]
    intro k tx hk
    have hlookup : (a.cache.eraseAll hashes).lookup k = some tx := hk
    rw [AList.lookup_eraseAll] at hlookup
    split_ifs at hlookup
    exact traced_iff.mp ha k tx hlookup

/-- A flashblock mark touches nothing that was sent. -/
theorem Traced.handleFlashblockMark (ha : a.Traced P) (mark : FlashblockMark) :
    (a.handleFlashblockMark mark).Traced P := by
  unfold TxActor.handleFlashblockMark
  split
  case h_1 tx htx =>
    split_ifs
    · rw [traced_iff]
      intro k other hk
      dsimp only at hk
      rw [AList.lookup_replace, htx] at hk
      split_ifs at hk
      · rw [← Option.some.inj hk]
        exact traced_iff.mp ha mark.txHash tx htx
      · exact traced_iff.mp ha k other hk
    · exact ha
  case h_2 => split_ifs <;> exact ha

end TxActor

/-! ### The system -/

namespace System

variable {chain : Chain} {P : CacheTx → Prop} {s t : System}

/-- An action that sends a transaction sends one that meets `P`. -/
def Sends (P : CacheTx → Prop) (_ : System) (action : Action) : Prop :=
  ∀ tx onReceive inserted, action = .message (CacheTx.message tx onReceive) inserted → P tx

/-- Whatever is cached, in the hands of a flush loop, or recorded, was sent. -/
structure Traced (chain : Chain) (P : CacheTx → Prop) (s : System) : Prop where
  cache : ∀ a, s.actor = some a → a.Traced P
  loops : ∀ k, (s.loops k).Traced P
  db : ∀ row ∈ s.db, ∃ tx, P tx ∧ ∃ failed, WrittenFor chain tx failed row.2

theorem traced_init : init.Traced chain P where
  cache a ha := by
    obtain rfl : TxActor.new 0 = a := Option.some.inj ha
    exact fun tx htx => absurd htx List.not_mem_nil
  loops := (Function.forall_update_iff _ fun _ (l : FlushLoop) => l.Traced P).mpr
    ⟨FlushLoop.traced_spawn _, fun _ _ => FlushLoop.traced_unspawned⟩
  db _ hrow := absurd hrow List.not_mem_nil

/-- One loop may be exchanged for one whose transactions were sent as well. -/
theorem Traced.update (h : s.Traced chain P) (k : Nat) {l : FlushLoop} (hl : l.Traced P) :
    ∀ j, (Function.update s.loops k l j).Traced P :=
  (Function.forall_update_iff _ fun _ (l : FlushLoop) => l.Traced P).mpr
    ⟨hl, fun j _ => h.loops j⟩

private theorem Traced.deliver {handled : Handled} (hloops : ∀ k, (s.loops k).Traced P)
    (hactor : handled.actor.Traced P)
    (hdb : ∀ row ∈ s.db ++ handled.committed,
      ∃ tx, P tx ∧ ∃ failed, WrittenFor chain tx failed row.2) :
    (s.deliver handled).Traced chain P := by
  unfold System.deliver
  cases hsurvivor : TxActor.survivor handled with
  | some a =>
    obtain ⟨-, -, rfl⟩ := TxActor.survivor_eq_some.mp hsurvivor
    exact ⟨fun b hb => Option.some.inj hb ▸ hactor, hloops, hdb⟩
  | none => exact ⟨fun b hb => (nomatch hb), fun k => (hloops k).close, hdb⟩

/-- Receiving a message moves no transaction. -/
private theorem Traced.receive (h : s.Traced chain P) {a : TxActor} {m : TxActorMessage}
    (hreceive : s.receive a m = some t) : (∀ k, (t.loops k).Traced P) ∧ t.db = s.db := by
  cases m with
  | replaceFlushReceiver k =>
    obtain ⟨-, rfl⟩ := receive_replaceFlushReceiver.mp hreceive
    refine ⟨?_, rfl⟩
    refine (Function.forall_update_iff _ fun _ (l : FlushLoop) => l.Traced P).mpr
      ⟨⟨(h.loops k).reply, (h.loops k).range⟩, fun j _ => ?_⟩
    exact h.update a.flushReceiver (h.loops a.flushReceiver).close j
  | _ =>
    obtain rfl := Option.some.inj hreceive
    exact ⟨h.loops, rfl⟩

/-- **Every action** moves only transactions that were sent. -/
theorem Traced.step {action : Action} (h : s.Traced chain P) (hok : s.Sends P action)
    (hstep : s.step chain action = some t) : t.Traced chain P := by
  cases action with
  | message m inserted =>
    obtain ⟨a, received, hactor, hreceive, rfl⟩ := step_message.mp hstep
    obtain ⟨hloops, hdb⟩ := h.receive hreceive
    have ha := h.cache a hactor
    have hsent : ∀ tx onReceive, m = CacheTx.message tx onReceive → P tx :=
      fun tx onReceive hm => hok tx onReceive inserted (hm ▸ rfl)
    refine Traced.deliver hloops (ha.handleMessage inserted hsent) fun row hrow => ?_
    rcases List.mem_append.mp hrow with hold | hnew
    · exact h.db row (hdb ▸ hold)
    · exact ha.committed chain inserted m row hnew
  | stopSignal =>
    obtain ⟨a, hactor, rfl⟩ := Option.map_eq_some_iff.mp hstep
    refine Traced.deliver h.loops (h.cache a hactor) fun row hrow => ?_
    exact h.db row (by simpa [TxActor.handle, TxActor.handleMessage] using hrow)
  | flushRequest nowMs =>
    obtain ⟨a, hactor, hserve⟩ := Option.bind_eq_some_iff.mp hstep
    obtain ⟨request, rest, hqueue, rfl⟩ := serve_eq_some.mp hserve
    have ha := h.cache a hactor
    refine ⟨fun b hb => ?_, h.update _ ?_, h.db⟩
    · rw [← Option.some.inj hb]
      exact ha.handleFlushRequest nowMs request
    -- the answer to a request carries the cache
    · cases request with
      | getSnapshot =>
        refine ⟨fun snapshot hsent => ?_, (h.loops _).range⟩
        obtain rfl := SnapshotReply.sent.inj hsent
        exact ha
      | removeConfirmed hashes target => exact ⟨(h.loops _).reply, (h.loops _).range⟩
  | flashblockMark mark =>
    obtain ⟨a, hactor, rfl⟩ := Option.map_eq_some_iff.mp hstep
    refine ⟨fun b hb => ?_, h.loops, h.db⟩
    rw [← Option.some.inj hb]
    exact (h.cache a hactor).handleFlashblockMark mark
  | restartFlush =>
    obtain ⟨a, hactor, rfl⟩ := Option.map_eq_some_iff.mp hstep
    exact ⟨h.cache, h.update s.spawned (FlushLoop.traced_spawn _), h.db⟩
  | cancel k =>
    obtain rfl := Option.some.inj hstep
    exact ⟨h.cache, h.update k ⟨(h.loops k).reply, (h.loops k).range⟩, h.db⟩
  | flush k input =>
    obtain ⟨⟨l, rows⟩, hloop, rfl⟩ := Option.map_eq_some_iff.mp hstep
    obtain ⟨hl, hrows⟩ := (h.loops k).move (FlushLoop.move_of_step hloop)
    refine ⟨h.cache, h.update k hl, fun row hrow => ?_⟩
    exact (List.mem_append.mp hrow).elim (h.db row) (hrows row)

/-- **Row origins.** Every row is written for a transaction that was sent. -/
theorem writtenFor_of_run {actions : List Action}
    (hrun : Execution.run (System.step chain) init actions = some t)
    (hsends : ∀ action ∈ actions, ∀ s, Sends P s action) {row : RunRow} (hrow : row ∈ t.db) :
    ∃ tx, P tx ∧ ∃ failed, WrittenFor chain tx failed row.2 := by
  have htraced : t.Traced chain P :=
    Execution.invariant (fun _ _ _ hok hstep h => Traced.step h hok hstep) traced_init hrun
      (Execution.along_of_forall hsends)
  exact htraced.db row hrow

end System

end Contender
