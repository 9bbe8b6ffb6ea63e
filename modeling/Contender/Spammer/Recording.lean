import Contender.Spammer.Simulation

/-!
# What is recorded, and how often

Two properties of the database over every interleaving of the actor, the flush loops
and the senders of messages.

* No transaction is lost while the actor lives: a transaction that was accepted, and
  not given up since, is cached or recorded.
* A transaction may be recorded twice. The flush loop commits the rows of a block
  before the actor drops the hashes from its cache, and the loop goes on with its
  snapshot while the actor handles other messages. A `DumpCache` handled in between
  writes the same transactions again, and so does the next flush loop after a
  `ReplaceFlushReceiver`. When neither is handled while a cached transaction is in
  the hands of the flush loop, every transaction is recorded once.
-/

namespace Contender

open Semantics Protocol

namespace Action

/-- Whether a transaction is owed to the database after an action: it was accepted
by `SentRunTx`, and neither removed nor cleared since. -/
def owes (h : TxHash) (owed : Prop) : Action → Prop
  | .message (.sentRunTx sent _ _ _ _ _) _ => h = sent ∨ owed
  | .message (.removedRunTx removed _) _ => h ≠ removed ∧ owed
  | .message (.clearCache _) _ => False
  | _ => owed

/-- The hash that an action sends to the actor. -/
def sentHash : Action → Option TxHash
  | .message (.sentRunTx sent _ _ _ _ _) _ => some sent
  | _ => none

end Action

/-- A transaction that is owed to the database after a list of actions. -/
def Owed (actions : List Action) (h : TxHash) : Prop :=
  actions.foldl (fun owed action => action.owes h owed) False

/-- The hashes sent to the actor, in order. -/
def sentHashes (actions : List Action) : List TxHash := actions.filterMap Action.sentHash

namespace System

variable {chain : Chain} {s t : System}

/-- A transaction is recorded when a committed row has its hash. -/
def Recorded (s : System) (h : TxHash) : Prop := ∃ row ∈ s.db, row.2.txHash = h

/-- The database has at most one row for each hash. -/
def RecordedOnce (s : System) : Prop := (s.db.map fun row => row.2.txHash).Nodup

theorem keys_view (s : System) : s.view.keys = s.db.map fun row => row.2.txHash := by
  simp only [WriteBehind.State.keys, view, records, List.map_map]
  rfl

theorem mem_keys_view {h : TxHash} : h ∈ s.view.keys ↔ s.Recorded h := by
  rw [keys_view, List.mem_map]
  exact Iff.rfl

/-! ## No transaction is lost -/

/-- An actor that is alive was alive before. -/
theorem actor_of_step {action : Action} (hstep : s.step chain action = some t) {b : TxActor}
    (halive : t.actor = some b) : ∃ a, s.actor = some a := by
  cases action with
  | message m inserted =>
    obtain ⟨a, hactor, -⟩ := Option.bind_eq_some_iff.mp hstep
    exact ⟨a, hactor⟩
  | stopSignal =>
    obtain ⟨a, hactor, -⟩ := Option.map_eq_some_iff.mp hstep
    exact ⟨a, hactor⟩
  | flushRequest nowMs =>
    obtain ⟨a, hactor, -⟩ := Option.bind_eq_some_iff.mp hstep
    exact ⟨a, hactor⟩
  | flashblockMark mark =>
    obtain ⟨a, hactor, -⟩ := Option.map_eq_some_iff.mp hstep
    exact ⟨a, hactor⟩
  | restartFlush =>
    obtain ⟨a, hactor, -⟩ := Option.map_eq_some_iff.mp hstep
    exact ⟨a, hactor⟩
  | cancel k =>
    obtain rfl := Option.some.inj hstep
    exact ⟨b, halive⟩
  | flush k input =>
    obtain ⟨loop, -, rfl⟩ := Option.map_eq_some_iff.mp hstep
    exact ⟨b, halive⟩

theorem deliver_alive {handled : Handled} {b : TxActor}
    (halive : (s.deliver handled).actor = some b) : haltOps handled = [] := by
  unfold deliver at halive
  unfold haltOps
  cases hsurvivor : TxActor.survivor handled with
  | some a => rfl
  | none => simp [hsurvivor] at halive

/-- While the actor lives, what an action leaves owed is what its operations leave
owed. -/
theorem owes_ops {action : Action} (hstep : s.step chain action = some t) {b : TxActor}
    (halive : t.actor = some b) {h : TxHash} {owed : Prop} (howes : action.owes h owed) :
    (s.ops chain action).foldl (fun owed op => op.owes h owed) owed := by
  cases action with
  | message m inserted =>
    obtain ⟨a, received, hactor, hreceive, rfl⟩ := step_message.mp hstep
    -- the actor survives the message, so `halt` is not among the operations
    simp only [ops, hactor, deliver_alive halive, List.append_nil]
    cases m with
    | sentRunTx sent start stop kind error r => exact howes
    -- a removal of an uncached transaction fails and stands for nothing
    | removedRunTx removed r =>
      simp only [messageOps]
      split_ifs
      · exact howes
      · exact howes.2
    | dumpCache runId r =>
      simp only [messageOps]
      split_ifs <;> exact howes
    | clearCache r => exact howes.elim
    | _ => exact howes
  -- no actor survives a stop
  | stopSignal =>
    obtain ⟨a, hactor, rfl⟩ := Option.map_eq_some_iff.mp hstep
    exact absurd (deliver_alive halive) (by simp [haltOps, TxActor.handle, TxActor.handleMessage,
      TxActor.survivor, Oneshot.send])
  | _ =>
    rw [WriteBehind.owes_of_byWorker fun op hop => byWorker_ops (by simp) (by simp) hop]
    exact howes

/-- What holds of an owed transaction: it is cached, or it is stored. -/
structure Collecting (actions : List Action) (s : System) : Prop where
  wellFormed : s.WellFormed
  savedStored : WriteBehind.SavedStored s.view
  kept : s.actor.isSome → ∀ h, Owed actions h → h ∈ s.view.buffer ∨ h ∈ s.view.keys

theorem collecting_init : Collecting [] init where
  wellFormed := wellFormed_init
  savedStored := initial_view_init.savedStored
  kept _ _ howed := howed.elim

theorem Collecting.step {actions : List Action} {action : Action}
    (hinv : Collecting actions s) (hstep : s.step chain action = some t) :
    Collecting (actions ++ [action]) t := by
  have hrun := run_ops hinv.wellFormed hstep
  refine ⟨hinv.wellFormed.step hstep, WriteBehind.saved_mem_keys hinv.savedStored hrun, ?_⟩
  intro halive h howed
  -- the actor was alive before the action, so the invariant speaks about it
  obtain ⟨b, hb⟩ := Option.isSome_iff_exists.mp halive
  have hbefore : s.actor.isSome := Option.isSome_iff_exists.mpr (actor_of_step hstep hb)
  have howes : action.owes h (Owed actions h) := by
    simpa [Owed, List.foldl_append] using howed
  exact WriteBehind.buffered_or_stored hinv.savedStored (hinv.kept hbefore h) hrun
    (owes_ops hstep hb howes)

/-- **No transaction is lost.** In every state that is reached with the actor alive,
a transaction accepted by `SentRunTx` and neither removed nor cleared since is in the
cache, or has a committed row. -/
theorem cached_or_recorded {actions : List Action} {a : TxActor} {h : TxHash}
    (hrun : Execution.run (System.step chain) init actions = some t) (halive : t.actor = some a)
    (howed : Owed actions h) : h ∈ a.cache ∨ t.Recorded h := by
  have hinv : Collecting actions t := Execution.history_invariant
    (fun _ _ _ _ _ hstep hinv => hinv.step hstep) [] collecting_init hrun
    (Execution.along_true _ _)
  have hkept := hinv.kept (by rw [halive]; rfl) h howed
  rwa [mem_keys_view, view_of_actor halive] at hkept

/-- A chain whose block 0 includes the transaction with hash 1. -/
def oneTxChain : Chain := ⟨fun b => if b = 0 then [⟨1, true, 21000⟩] else [], fun _ => 0⟩

/-- The first flush loop takes up run 7 and is about to process block 0, in a range up to
`newBlock`. -/
def enterRange (newBlock : Nat) : List Action :=
  [.message (.initCtx ⟨7, 0⟩) true,
    .message (.sentRunTx 1 0 none none none .listening) true,
    .flush 0 .tick, .flushRequest 0, .flush 0 .tick,
    .flush 0 (.blockNumber (some newBlock)), .flushRequest 0, .flush 0 .tick]

/-- The loop commits the transaction with hash 1, and has not asked for its removal yet. -/
def recordFirst : List Action := enterRange 1 ++ [.flush 0 (.receipts ⟨true, [], true⟩)]

/-- The transaction of `recordFirst` is cached or recorded. -/
theorem cached_or_recorded_recordFirst :
    ∃ t a, Execution.run (System.step oneTxChain) init recordFirst = some t ∧
      t.actor = some a ∧ (1 ∈ a.cache ∨ t.Recorded 1) := by
  have hrun : ((Execution.run (System.step oneTxChain) init recordFirst).bind
      System.actor).isSome := by decide
  obtain ⟨a, ha⟩ := Option.isSome_iff_exists.mp hrun
  obtain ⟨t, ht, hactor⟩ := Option.bind_eq_some_iff.mp ha
  exact ⟨t, a, ht, hactor,
    cached_or_recorded ht hactor (by simp [Owed, recordFirst, enterRange, Action.owes])⟩

/-! ## Every transaction is recorded once -/

/-- No cached transaction is in the hands of the flush loop that the actor serves: none
is in a snapshot it may still process, and none is recorded with its removal pending. -/
def Quiet (s : System) : Prop :=
  ∀ a ∈ s.actor, ∀ h ∈ a.cache.keys,
    h ∉ (s.loops a.flushReceiver).worker.holding ∧ h ∉ (s.loops a.flushReceiver).worker.saved

/-- `DumpCache` and `ReplaceFlushReceiver` are handled only while the flush loop has no
cached transaction in its hands. -/
def NoOverlap (s : System) : Action → Prop
  | .message (.dumpCache _ _) _ => s.Quiet
  | .message (.replaceFlushReceiver _) _ => s.Quiet
  | _ => True

theorem quiet_view (hquiet : s.Quiet) : WriteBehind.Quiet s.view := by
  intro k hk h hh
  obtain ⟨a, hactor, hcached⟩ := hh
  obtain rfl : a.flushReceiver = k := by
    rw [view_of_actor hactor] at hk
    exact Option.some.inj hk
  exact hquiet a hactor h hcached

theorem exclusive_ops {action : Action} (hok : s.NoOverlap action) :
    Execution.Along WriteBehind.State.step WriteBehind.Exclusive s.view (s.ops chain action) := by
  refine along_ops (fun u op hop => ?_) (fun _ => trivial)
    fun a m inserted haction hactor op hop => ?_
  · cases op <;> trivial
  · subst haction
    cases m with
    | dumpCache runId r =>
      simp only [messageOps] at hop
      split_ifs at hop
      · obtain rfl := List.mem_singleton.mp hop
        exact quiet_view hok
      · exact absurd hop List.not_mem_nil
    | replaceFlushReceiver k =>
      obtain rfl := List.mem_singleton.mp hop
      exact quiet_view hok
    | removedRunTx removed r =>
      simp only [messageOps] at hop
      split_ifs at hop
      · obtain rfl := List.mem_singleton.mp hop
        trivial
      · exact absurd hop List.not_mem_nil
    | getCacheLen r => exact absurd hop List.not_mem_nil
    | stop r => exact absurd hop List.not_mem_nil
    | _ =>
      obtain rfl := List.mem_singleton.mp hop
      trivial

/-- An action adds the hash it sends to the history of accepted transactions. -/
theorem sent_of_step {action : Action} (hstep : s.step chain action = some t) :
    t.sent.map Prod.fst = s.sent.map Prod.fst ++ action.sentHash.toList := by
  cases action with
  | message m inserted =>
    obtain ⟨a, received, -, hreceive, rfl⟩ := step_message.mp hstep
    have hdeliver : (received.deliver (a.handleMessage inserted m)).sent = received.sent := by
      unfold deliver
      split <;> rfl
    rw [hdeliver]
    cases m with
    | sentRunTx sent start stop kind error r =>
      obtain rfl := Option.some.inj hreceive
      simp [Action.sentHash]
    | replaceFlushReceiver k =>
      obtain ⟨-, rfl⟩ := receive_replaceFlushReceiver.mp hreceive
      simp [Action.sentHash]
    | _ =>
      obtain rfl := Option.some.inj hreceive
      simp [Action.sentHash]
  | stopSignal =>
    obtain ⟨a, -, rfl⟩ := Option.map_eq_some_iff.mp hstep
    unfold deliver
    split <;> simp [Action.sentHash]
  | flushRequest nowMs =>
    obtain ⟨a, -, hserve⟩ := Option.bind_eq_some_iff.mp hstep
    obtain ⟨request, rest, -, rfl⟩ := serve_eq_some.mp hserve
    simp [Action.sentHash]
  | flashblockMark mark =>
    obtain ⟨a, -, rfl⟩ := Option.map_eq_some_iff.mp hstep
    simp [Action.sentHash]
  | restartFlush =>
    obtain ⟨a, -, rfl⟩ := Option.map_eq_some_iff.mp hstep
    simp [Action.sentHash]
  | cancel k =>
    obtain rfl := Option.some.inj hstep
    simp [Action.sentHash]
  | flush k input =>
    obtain ⟨loop, -, rfl⟩ := Option.map_eq_some_iff.mp hstep
    simp [Action.sentHash]

/-- The history of accepted transactions lists the hashes that were sent. -/
theorem sent_of_run {actions : List Action}
    (hrun : Execution.run (System.step chain) init actions = some t) :
    t.sent.map Prod.fst = sentHashes actions := by
  refine Execution.history_invariant (I := fun w s => s.sent.map Prod.fst = sentHashes w)
    (fun w s action t _ hstep hinv => ?_) [] rfl hrun (Execution.along_true _ _)
  rw [sent_of_step hstep, hinv, sentHashes, sentHashes, List.filterMap_append]
  cases hcase : action.sentHash <;> simp [hcase]

/-- **No double recording.** When dumps and replacements of the flush receiver do not
overlap with the flush loop, a transaction that is sent once is recorded once. -/
theorem recordedOnce_of_noOverlap {actions : List Action}
    (hrun : Execution.run (System.step chain) init actions = some t)
    (honce : (sentHashes actions).Nodup)
    (hoverlap : Execution.Along (System.step chain) NoOverlap init actions) : t.RecordedOnce := by
  -- the run becomes a run of the protocol, whose guard follows from `NoOverlap`
  obtain ⟨ops, hops, hexclusive⟩ := Execution.simulation view (ops chain)
    (fun _ _ _ hstep hwf => WellFormed.step hwf hstep) (fun _ _ _ hstep hwf => run_ops hwf hstep)
    (fun _ _ _ _ _ hok => exclusive_ops hok) wellFormed_init hrun hoverlap
  have haccepted : t.view.acceptedKeys.Nodup := by
    have hsent := sent_of_run hrun
    rw [WriteBehind.State.acceptedKeys, show t.view.accepted = t.sent from rfl, hsent]
    exact honce
  have hkeys := WriteBehind.nodup_keys initial_view_init.distinct hops hexclusive haccepted
  rwa [keys_view] at hkeys

/-- A dump after the removal of the recorded transaction leaves one row. -/
theorem recordedOnce_of_dump_after_removal :
    ∃ t, Execution.run (System.step oneTxChain) init ((recordFirst ++
        [.flush 0 .tick, .flushRequest 0]) ++ [.message (.dumpCache 7 .listening) true]) =
          some t ∧ t.RecordedOnce := by
  have hremoved : (Execution.run (System.step oneTxChain) init (recordFirst ++
      [.flush 0 .tick, .flushRequest 0])).map (fun t => t.actor.map fun a => a.cache.keys) =
      some (some []) := by decide
  obtain ⟨u, hu, hcache⟩ := Option.map_eq_some_iff.mp hremoved
  have hrun : (Execution.run (System.step oneTxChain) init ((recordFirst ++
      [.flush 0 .tick, .flushRequest 0]) ++
      [.message (.dumpCache 7 .listening) true])).isSome := by decide
  obtain ⟨t, ht⟩ := Option.isSome_iff_exists.mp hrun
  -- the cache is empty when the dump is handled
  have hquiet : u.Quiet := by
    intro a ha h hh
    rw [show u.actor = some a from ha] at hcache
    have hempty : a.cache.keys = [] := Option.some.inj hcache
    rw [hempty] at hh
    exact absurd hh List.not_mem_nil
  have hbefore : Execution.Along (System.step oneTxChain) NoOverlap init
      (recordFirst ++ [.flush 0 .tick, .flushRequest 0]) :=
    Execution.along_of_forall (by simp [recordFirst, enterRange, NoOverlap])
  exact ⟨t, ht, recordedOnce_of_noOverlap ht (by decide)
    (hbefore.append hu ⟨hquiet, fun _ _ => trivial⟩)⟩

/-- A dump between the commit of a row and the removal of its hash records the
transaction a second time. -/
theorem not_recordedOnce_of_dump_before_removal :
    ∃ t, Execution.run (System.step oneTxChain) init
        (recordFirst ++ [.message (.dumpCache 7 .listening) true]) = some t ∧
      (sentHashes (recordFirst ++ [.message (.dumpCache 7 .listening) true])).Nodup ∧
      ¬ t.RecordedOnce := by
  have hrun : (Execution.run (System.step oneTxChain) init
      (recordFirst ++ [.message (.dumpCache 7 .listening) true])).map
      (fun t => t.db.map fun row => row.2.txHash) = some [1, 1] := by decide
  obtain ⟨t, ht, hdb⟩ := Option.map_eq_some_iff.mp hrun
  refine ⟨t, ht, by decide, ?_⟩
  rw [RecordedOnce, hdb]
  decide

end System

end Contender
