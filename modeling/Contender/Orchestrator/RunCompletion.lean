import Contender.Scenario.TxCallbacks
import Contender.Spammer.RunAttribution

/-!
# What a spam run leaves behind

`handle_tx_outcome` spawns a callback for each transaction and does not wait for it. The
callback of `LogCallback` sends the transaction to the actor, unless it is cancelled
first. When the spammer is done, `Contender::spam` cancels the token of the run and waits
for the flush loop: not for the callbacks, and not for the cache. A flush loop that finds
the cache empty ends although callbacks may still be on their way, and one that has not
found receipts for a while ends with a cache that nobody writes to the database.
Transactions that the node has rejected never get a receipt.

`complete_of_collected` says what is enough for every transaction to be recorded by the
time the run returns.
-/

namespace Contender

open Semantics Protocol

/-- What happens during spam runs. -/
inductive SpamEvent
  /-- A task reports on a transaction, with the info that it sends along. -/
  | report (report : SpamReport) (extra : RuntimeTxInfo)
  /-- A callback is cancelled before it has sent its message. -/
  | cancelCallback (tx : CacheTx)
  | act (action : Action)
  deriving DecidableEq, Repr

/-- The system with the caller of `Contender::spam`. `handled` are the transactions of the
current run that `handle_tx_outcome` was called for, and `callbacks` those whose message
the actor has not handled. -/
structure SpamSession where
  system : System
  driver : SpamDriver
  handled : List TxHash
  callbacks : List CacheTx

namespace SpamSession

def start : SpamSession := ⟨System.init, .start, [], []⟩

/-- What an action of the system means to the caller. The message of a callback may come
at any time. -/
def drive (p : SpamSession) : Action → Option SpamSession
  | .message (.sentRunTx txHash start stop kind error _) _ =>
    let tx : CacheTx := ⟨txHash, start, stop, kind, error⟩
    if tx ∈ p.callbacks then some { p with callbacks := p.callbacks.erase tx } else none
  | .message (.initCtx ctx) inserted =>
    (p.driver.step p.system (.message (.initCtx ctx) inserted)).map fun d =>
      { p with driver := d, handled := [] }
  | action => (p.driver.step p.system action).map fun d => { p with driver := d }

def step (chain : Chain) (p : SpamSession) : SpamEvent → Option SpamSession
  -- the tasks are awaited before the spammer is done
  | .report report extra =>
    if p.driver.phase = .sending then
      some { p with
        handled := (report.handled?.map Prod.fst).toList ++ p.handled
        callbacks := (report.onTxSent .log extra).toList ++ p.callbacks }
    else none
  | .cancelCallback tx =>
    if p.driver.phase ≠ .sending ∧ tx ∈ p.callbacks then
      some { p with callbacks := p.callbacks.erase tx }
    else none
  | .act action =>
    (p.system.step chain action).bind fun s => (p.drive action).map fun q => { q with system := s }

/-- `spam` has returned, or was never called: the caller has awaited the flush loop. -/
def Returned (p : SpamSession) : Prop :=
  p.driver.phase = .restarting ∨ p.driver.phase = .ready

/-- Every transaction that was handled in the run has a row under the id of the run. -/
def Complete (p : SpamSession) : Prop :=
  ∀ h ∈ p.handled, ∃ runId ∈ p.driver.runIds.head?, ∃ row ∈ p.system.db,
    row.1 = runId ∧ row.2.txHash = h

/-- The flush loop of a run ends when no callback is left and the cache is empty, no
callback is cancelled, and `InitCtx` finds the flush loop outside a block range. -/
def Collects (p : SpamSession) : SpamEvent → Prop
  | .cancelCallback _ => False
  | .act .restartFlush => p.callbacks = [] ∧ ∀ a ∈ p.system.actor, a.cache.keys = []
  | .act (.message (.initCtx _) _) =>
    ∀ a ∈ p.system.actor, (p.system.loops a.flushReceiver).worker.tag = none
  | _ => True

end SpamSession

/-! ### The actions of a run -/

/-- The actions of a run after `InitCtx`. -/
def Action.InRun : Action → Prop
  | .message (.sentRunTx _ _ _ _ _ _) _ => True
  | .message (.replaceFlushReceiver _) _ => True
  | .message _ _ => False
  | .stopSignal => False
  | _ => True

namespace System

variable {chain : Chain} {s t : System}

/-- While the actor lives, the actions of a run keep what it has accepted. -/
theorem keeps_ops {action : Action} (hinRun : action.InRun) (hstep : s.step chain action = some t)
    (halive : t.actor.isSome) : ∀ op ∈ s.ops chain action, op.Keeps := by
  intro op hop
  cases action with
  | message m inserted =>
    obtain ⟨a, received, hactor, -, rfl⟩ := step_message.mp hstep
    obtain ⟨b, hb⟩ := Option.isSome_iff_exists.mp halive
    simp only [ops, hactor, deliver_alive hb, List.append_nil] at hop
    cases m with
    | sentRunTx h start stop kind error r =>
      obtain rfl := List.mem_singleton.mp hop
      trivial
    | replaceFlushReceiver k =>
      obtain rfl := List.mem_singleton.mp hop
      trivial
    | _ => exact hinRun.elim
  | stopSignal => exact hinRun.elim
  | _ => exact (byWorker_ops (by simp) (by simp) hop).keeps

theorem betweenTags_of_inRun {action : Action} (hinRun : action.InRun) :
    Execution.Along WriteBehind.State.step WriteBehind.BetweenTags s.view
      (s.ops chain action) := by
  refine along_ops (fun u op hop => ?_) (fun _ => trivial)
    fun a m inserted haction _ op hop => ?_
  · cases op <;> trivial
  · subst haction
    cases m with
    | sentRunTx h start stop kind error r =>
      obtain rfl := List.mem_singleton.mp hop
      trivial
    | replaceFlushReceiver k =>
      obtain rfl := List.mem_singleton.mp hop
      trivial
    | _ => exact hinRun.elim

theorem betweenTags_of_initCtx {ctx : ActorContext} {inserted : Bool}
    (htag : ∀ a ∈ s.actor, (s.loops a.flushReceiver).worker.tag = none) :
    Execution.Along WriteBehind.State.step WriteBehind.BetweenTags s.view
      (s.ops chain (.message (.initCtx ctx) inserted)) := by
  refine along_ops (fun u op hop => ?_) (fun _ => trivial)
    fun a m inserted haction hactor op hop => ?_
  · cases op <;> trivial
  · obtain ⟨rfl, rfl⟩ := Action.message.inj haction
    obtain rfl := List.mem_singleton.mp hop
    intro k hk
    rw [view_of_actor hactor] at hk ⊢
    obtain rfl := Option.some.inj hk
    exact htag a hactor

/-- A message of a callback puts its transaction into the cache. -/
theorem secured_of_sentRunTx (hwf : s.WellFormed) {h : TxHash} {start : Nat} {stop : Option Nat}
    {kind error : Option String} {r : Oneshot} {inserted : Bool}
    (hstep : s.step chain (.message (.sentRunTx h start stop kind error r) inserted) = some t)
    (halive : t.actor.isSome) : WriteBehind.Secured t.view h := by
  have hrun := run_ops hwf hstep
  obtain ⟨a, received, hactor, -, rfl⟩ := step_message.mp hstep
  obtain ⟨b, hb⟩ := Option.isSome_iff_exists.mp halive
  simp only [ops, hactor, deliver_alive hb, List.append_nil, messageOps] at hrun
  rw [Execution.run_singleton] at hrun
  obtain ⟨-, heq⟩ := WriteBehind.State.step_eq_some.mp hrun
  rw [← heq]
  exact WriteBehind.secured_accept _ _

/-- `InitCtx` makes the run id current. -/
theorem tag_of_initCtx {ctx : ActorContext} {inserted : Bool}
    (hstep : s.step chain (.message (.initCtx ctx) inserted) = some t)
    (halive : t.actor.isSome) : t.view.tag = some ctx.runId := by
  obtain ⟨a, received, -, -, rfl⟩ := step_message.mp hstep
  obtain ⟨b, hb⟩ := Option.isSome_iff_exists.mp halive
  rw [view_of_actor hb]
  unfold deliver at hb
  cases hsurvivor : TxActor.survivor (a.handleMessage inserted (.initCtx ctx)) with
  | none => simp [hsurvivor] at hb
  | some c =>
    obtain ⟨-, -, rfl⟩ := TxActor.survivor_eq_some.mp hsurvivor
    simp only [hsurvivor, Option.some.injEq] at hb
    subst hb
    rfl

end System

namespace SpamSession

variable {chain : Chain} {p q : SpamSession}

/-! ### What every step keeps -/

/-- A handled transaction is with its callback, in the cache, or recorded under the id of
the run; and when the run has returned, it is recorded. -/
structure Tracked (p : SpamSession) : Prop where
  wellFormed : p.system.WellFormed
  tagged : WriteBehind.Tagged p.system.view
  running : p.system.actor.isSome → ¬p.Returned →
    p.system.view.tag = p.driver.runIds.head? ∧
      ∀ h ∈ p.handled, h ∈ p.callbacks.map CacheTx.txHash ∨ WriteBehind.Secured p.system.view h
  returned : p.Returned → p.Complete

theorem mem_store_view {s : System} {runId : Nat} {h : TxHash} :
    (runId, h) ∈ s.view.store ↔ ∃ row ∈ s.db, row.1 = runId ∧ row.2.txHash = h := by
  simp only [System.view, records, List.mem_map, Prod.mk.injEq]

theorem tracked_start : start.Tracked where
  wellFormed := System.wellFormed_init
  tagged := System.initial_view_init.tagged
  running _ hreturned := absurd (Or.inr rfl) hreturned
  returned _ _ hmem := absurd hmem List.not_mem_nil

/-- A run that has returned stays complete. -/
theorem Complete.mono (h : p.Complete) (hhandled : q.handled = p.handled)
    (hids : q.driver.runIds = p.driver.runIds)
    (hstore : ∀ row ∈ p.system.view.store, row ∈ q.system.view.store) : q.Complete := by
  intro hash hmem
  obtain ⟨runId, hrunId, hrow⟩ := h hash (hhandled ▸ hmem)
  exact ⟨runId, hids ▸ hrunId, mem_store_view.mp (hstore _ (mem_store_view.mpr hrow))⟩

/-- An action of the run that takes callbacks from the session at most by handling their
messages. -/
theorem Tracked.inRun (h : p.Tracked) {action : Action} {s : System}
    (hstep : p.system.step chain action = some s) (hinRun : action.InRun) (hsystem : q.system = s)
    (hhandled : q.handled = p.handled) (hids : q.driver.runIds = p.driver.runIds)
    (hreturned : q.Returned ↔ p.Returned)
    (hcallbacks : s.actor.isSome → ∀ hash ∈ p.callbacks.map CacheTx.txHash,
      hash ∈ q.callbacks.map CacheTx.txHash ∨ WriteBehind.Secured s.view hash) : q.Tracked := by
  subst hsystem
  have hrun := System.run_ops h.wellFormed hstep
  refine ⟨h.wellFormed.step hstep,
    WriteBehind.tagged_of_run h.tagged hrun (System.betweenTags_of_inRun hinRun),
    fun halive hrunning => ?_, fun hq => ?_⟩
  · obtain ⟨b, hb⟩ := Option.isSome_iff_exists.mp halive
    have hbefore : p.system.actor.isSome :=
      Option.isSome_iff_exists.mpr (System.actor_of_step hstep hb)
    obtain ⟨htag, hkept⟩ := h.running hbefore (mt hreturned.mpr hrunning)
    obtain ⟨hsame, hsecured⟩ := WriteBehind.secured_of_run h.tagged hrun
      (System.keeps_ops hinRun hstep halive)
    refine ⟨by rw [hsame, htag, hids], fun hash hmem => ?_⟩
    rcases hkept hash (hhandled ▸ hmem) with hcallback | hold
    · exact hcallbacks halive hash hcallback
    · exact .inr (hsecured hash hold)
  · exact (h.returned (hreturned.mp hq)).mono hhandled hids fun _ hrow =>
      WriteBehind.mem_store_of_run hrun hrow

/-- The caller takes every other action by itself. -/
theorem drive_eq_some {action : Action} (hsent : action.sentHash = none)
    (hinit : ∀ ctx inserted, action ≠ .message (.initCtx ctx) inserted)
    (h : p.drive action = some q) :
    ∃ d, p.driver.step p.system action = some d ∧ { p with driver := d } = q := by
  apply Option.map_eq_some_iff.mp
  rw [← h]
  cases action with
  | message m inserted =>
    cases m with
    | initCtx ctx => exact absurd rfl (hinit ctx inserted)
    | sentRunTx txHash start stop kind error r => cases hsent
    | _ => rfl
  | _ => rfl

theorem Tracked.report (h : p.Tracked) {report : SpamReport} {extra : RuntimeTxInfo}
    (hstep : p.step chain (.report report extra) = some q) : q.Tracked := by
  simp only [step] at hstep
  split_ifs at hstep with hphase
  obtain rfl := Option.some.inj hstep
  have hrunning : ¬p.Returned := by simp [Returned, hphase]
  refine ⟨h.wellFormed, h.tagged, fun halive _ => ?_, fun hreturned => absurd hreturned hrunning⟩
  obtain ⟨htag, hkept⟩ := h.running halive hrunning
  refine ⟨htag, fun hash hmem => ?_⟩
  simp only [List.map_append, List.mem_append] at hmem ⊢
  rcases hmem with hnew | hold
  · -- the callback of the report has just been spawned
    obtain ⟨tx, htx, rfl⟩ := Option.map_eq_some_iff.mp (Option.mem_toList.mp hnew)
    obtain ⟨cached, hcached, hhash⟩ := SpamReport.onTxSent_log htx extra
    rw [hcached]
    exact .inl (.inl (List.mem_singleton.mpr hhash.symm))
  · exact (hkept hash hold).imp_left .inr

/-- `InitCtx` starts a run without any transactions. -/
theorem Tracked.initCtx (h : p.Tracked) {ctx : ActorContext} {inserted : Bool} {s : System}
    {d : SpamDriver} (hdriver : p.driver.step p.system (.message (.initCtx ctx) inserted) = some d)
    (hstep : p.system.step chain (.message (.initCtx ctx) inserted) = some s)
    (htag : ∀ a ∈ p.system.actor, (p.system.loops a.flushReceiver).worker.tag = none) :
    Tracked { p with system := s, driver := d, handled := [] } := by
  have hrun := System.run_ops h.wellFormed hstep
  simp only [SpamDriver.step] at hdriver
  split_ifs at hdriver
  obtain rfl := Option.some.inj hdriver
  refine ⟨h.wellFormed.step hstep,
    WriteBehind.tagged_of_run h.tagged hrun (System.betweenTags_of_initCtx htag),
    fun halive _ => ⟨System.tag_of_initCtx hstep halive, fun _ hmem => ?_⟩,
    fun _ _ hmem => absurd hmem List.not_mem_nil⟩
  exact absurd hmem List.not_mem_nil

/-- The message of a callback. -/
theorem Tracked.sentRunTx (h : p.Tracked) {txHash : TxHash} {start : Nat} {stop : Option Nat}
    {kind error : Option String} {r : Oneshot} {inserted : Bool} {s : System}
    (hstep : p.system.step chain (.message (.sentRunTx txHash start stop kind error r) inserted) =
      some s) :
    Tracked { p with
      system := s
      callbacks := p.callbacks.erase ⟨txHash, start, stop, kind, error⟩ } := by
  refine h.inRun hstep trivial rfl rfl rfl Iff.rfl fun halive hash hmem => ?_
  obtain ⟨tx, htx, rfl⟩ := List.mem_map.mp hmem
  by_cases heq : tx = ⟨txHash, start, stop, kind, error⟩
  · subst heq
    exact .inr (System.secured_of_sentRunTx h.wellFormed hstep halive)
  · exact .inl (List.mem_map_of_mem ((List.mem_erase_of_ne heq).mpr htx))

/-- When the flush loop has ended with nothing left to collect, the run is complete. -/
theorem Tracked.restartFlush (h : p.Tracked) {s : System} {d : SpamDriver}
    (hdriver : p.driver.step p.system .restartFlush = some d)
    (hstep : p.system.step chain .restartFlush = some s)
    (hcallbacks : p.callbacks = []) (hcache : ∀ a ∈ p.system.actor, a.cache.keys = []) :
    Tracked { p with system := s, driver := d } := by
  have hrun := System.run_ops h.wellFormed hstep
  have hdriven : p.driver.phase = .flushing ∧
      { p.driver with phase := .restarting, loop := p.system.spawned } = d := by
    simp only [SpamDriver.step] at hdriver
    split at hdriver
    · split_ifs at hdriver with hphase
      exact ⟨hphase, Option.some.inj hdriver⟩
    · cases hdriver
  obtain ⟨hphase, rfl⟩ := hdriven
  have hrunning : ¬p.Returned := by simp [Returned, hphase]
  obtain ⟨a, hactor, -⟩ := Option.map_eq_some_iff.mp hstep
  obtain ⟨htag, hkept⟩ := h.running (by rw [hactor]; rfl) hrunning
  refine ⟨h.wellFormed.step hstep,
    WriteBehind.tagged_of_run h.tagged hrun (System.betweenTags_of_inRun trivial),
    fun _ hreturned => absurd (Or.inl rfl) hreturned, fun _ hash hmem => ?_⟩
  -- neither a callback nor the cache has the transaction
  rcases hkept hash hmem with hcallback | hbuffer | ⟨runId, hrunId, hstored⟩
  · rw [hcallbacks] at hcallback
    exact absurd hcallback List.not_mem_nil
  · rw [System.view_of_actor hactor] at hbuffer
    have hcached : hash ∈ a.cache.keys := AList.mem_keys.mp hbuffer
    rw [hcache a hactor] at hcached
    exact absurd hcached List.not_mem_nil
  · refine ⟨runId, htag ▸ hrunId, ?_⟩
    exact mem_store_view.mp (WriteBehind.mem_store_of_run hrun hstored)

/-- **Every event** of a run that collects its transactions. -/
theorem Tracked.step {event : SpamEvent} (h : p.Tracked) (hok : p.Collects event)
    (hstep : p.step chain event = some q) : q.Tracked := by
  cases event with
  | report report extra => exact h.report hstep
  | cancelCallback tx => exact hok.elim
  | act action =>
    obtain ⟨s, hsystem, hdrive⟩ := Option.bind_eq_some_iff.mp hstep
    obtain ⟨driven, hdriven, rfl⟩ := Option.map_eq_some_iff.mp hdrive
    cases action with
    | message m inserted =>
      cases m with
      | initCtx ctx =>
        obtain ⟨d, hdriver, rfl⟩ := Option.map_eq_some_iff.mp hdriven
        exact h.initCtx hdriver hsystem hok
      | sentRunTx txHash start stop kind error r =>
        simp only [drive] at hdriven
        split_ifs at hdriven
        obtain rfl := Option.some.inj hdriven
        exact h.sentRunTx hsystem
      | replaceFlushReceiver k =>
        obtain ⟨d, hdriver, rfl⟩ := drive_eq_some rfl (by simp) hdriven
        simp only [SpamDriver.step] at hdriver
        split_ifs at hdriver with hphase
        obtain rfl := Option.some.inj hdriver
        refine h.inRun hsystem trivial rfl rfl rfl ?_ fun _ _ hmem => .inl hmem
        exact iff_of_true (.inr rfl) (.inl hphase.1)
      | _ =>
        obtain ⟨d, hdriver, -⟩ := drive_eq_some rfl (by simp) hdriven
        cases hdriver
    | stopSignal =>
      obtain ⟨d, hdriver, -⟩ := drive_eq_some rfl (by simp) hdriven
      cases hdriver
    | restartFlush =>
      obtain ⟨d, hdriver, rfl⟩ := drive_eq_some rfl (by simp) hdriven
      exact h.restartFlush hdriver hsystem hok.1 hok.2
    | cancel k =>
      obtain ⟨d, hdriver, rfl⟩ := drive_eq_some rfl (by simp) hdriven
      simp only [SpamDriver.step] at hdriver
      split_ifs at hdriver with hphase
      obtain rfl := Option.some.inj hdriver
      refine h.inRun hsystem trivial rfl rfl rfl ?_ fun _ _ hmem => .inl hmem
      exact iff_of_false (by simp [Returned]) (by simp [Returned, hphase.1])
    | flushRequest nowMs =>
      obtain ⟨d, hdriver, rfl⟩ := drive_eq_some rfl (by simp) hdriven
      obtain rfl := Option.some.inj hdriver
      exact h.inRun hsystem trivial rfl rfl rfl Iff.rfl fun _ _ hmem => .inl hmem
    | flashblockMark mark =>
      obtain ⟨d, hdriver, rfl⟩ := drive_eq_some rfl (by simp) hdriven
      obtain rfl := Option.some.inj hdriver
      exact h.inRun hsystem trivial rfl rfl rfl Iff.rfl fun _ _ hmem => .inl hmem
    | flush k input =>
      obtain ⟨d, hdriver, rfl⟩ := drive_eq_some rfl (by simp) hdriven
      obtain rfl := Option.some.inj hdriver
      exact h.inRun hsystem trivial rfl rfl rfl Iff.rfl fun _ _ hmem => .inl hmem

/-- **Completeness.** Over any number of consecutive spam runs in which each flush loop
ends with nothing left to collect, every transaction that was handled in a run that has
returned is recorded under the id of that run. -/
theorem complete_of_collected {events : List SpamEvent}
    (hrun : Execution.run (SpamSession.step chain) start events = some p)
    (hcollects : Execution.Along (SpamSession.step chain) Collects start events)
    (hreturned : p.Returned) : p.Complete := by
  have htracked : p.Tracked :=
    Execution.invariant (fun _ _ _ hok hstep h => Tracked.step h hok hstep) tracked_start hrun
      hcollects
  exact htracked.returned hreturned

/-! ### One transaction -/

/-- The flush loop takes up the run. -/
def takeUp : List Action := [.flush 0 .tick, .flushRequest 0, .flush 0 .tick]

/-- A run that sends one transaction, with its outcome; the flush loop takes the actions in
`collected` once the token is cancelled. -/
def oneTxRun (error : Option Text) (collected : List Action) : List SpamEvent :=
  [.act (.message (.initCtx ⟨1, 0⟩) true)] ++
    ([.report (.txOutcome 1 { tx := {} } error) (RuntimeTxInfo.now 0),
      .act (.message (.sentRunTx 1 0 none none (error.map String.ofList) .listening) true),
      .act (.cancel 0)] ++
    (takeUp ++ collected).map .act) ++
  [.act .restartFlush]

/-- A transaction that the node rejects stays in the cache until the flush loop gives up
after six blocks, and nobody writes it to the database. -/
theorem not_complete_of_rejected :
    ∃ p, Execution.run (SpamSession.step Chain.empty) start
        (oneTxRun (some "insufficient funds".toList) (System.startRange 0 1 ++
          System.blockRound 0 ++ System.startRange 0 7 ++
            (List.replicate 6 (System.blockRound 0)).flatten)) = some p ∧
      p.Returned ∧ 1 ∈ p.handled ∧ p.system.actor.isSome ∧ ¬p.Complete := by
  have hrun : (Execution.run (SpamSession.step Chain.empty) start
      (oneTxRun (some "insufficient funds".toList) (System.startRange 0 1 ++
        System.blockRound 0 ++ System.startRange 0 7 ++
          (List.replicate 6 (System.blockRound 0)).flatten))).map
      (fun p => (p.driver.phase, p.handled, p.system.actor.isSome, p.system.db)) =
      some (.restarting, [1], true, []) := by decide +kernel
  obtain ⟨p, hp, hprobe⟩ := Option.map_eq_some_iff.mp hrun
  simp only [Prod.mk.injEq] at hprobe
  obtain ⟨hphase, hhandled, halive, hdb⟩ := hprobe
  have hmem : 1 ∈ p.handled := by
    rw [hhandled]
    exact List.mem_singleton_self 1
  refine ⟨p, hp, .inl hphase, hmem, halive, fun hcomplete => ?_⟩
  obtain ⟨runId, -, row, hrow, -⟩ := hcomplete 1 hmem
  rw [hdb] at hrow
  exact absurd hrow List.not_mem_nil

/-- A transaction that is in the next block is recorded. -/
theorem complete_of_included :
    ∃ p, Execution.run (SpamSession.step System.oneTxChain) start
        (oneTxRun none (System.startRange 0 1 ++ System.blockRound 0)) = some p ∧
      p.Returned ∧ p.handled = [1] ∧ p.Complete := by
  have hrun : (Execution.run (SpamSession.step System.oneTxChain) start
      (oneTxRun none (System.startRange 0 1 ++ System.blockRound 0))).map
      (fun p => (p.driver.phase, p.handled)) = some (.restarting, [1]) := by decide +kernel
  obtain ⟨p, hp, hprobe⟩ := Option.map_eq_some_iff.mp hrun
  obtain ⟨hphase, hhandled⟩ := Prod.mk.inj hprobe
  -- the loop has emptied the cache before it ends
  obtain ⟨u, hu, hend⟩ := Execution.run_append_eq_some.mp hp
  have hcollected : (Execution.run (SpamSession.step System.oneTxChain) start
      (oneTxRun none (System.startRange 0 1 ++ System.blockRound 0)).dropLast).map
      (fun u => (u.callbacks, u.system.actor.map fun a => a.cache.keys)) = some ([], some []) := by
    decide +kernel
  rw [oneTxRun, List.dropLast_concat, hu, Option.map_some, Option.some.injEq] at hcollected
  obtain ⟨hcallbacks, hcache⟩ := Prod.mk.inj hcollected
  obtain ⟨v, hv, -⟩ := Execution.run_append_eq_some.mp hu
  have hfirst : Execution.Along (SpamSession.step System.oneTxChain) Collects start
      [.act (.message (.initCtx ⟨1, 0⟩) true)] := by
    refine ⟨fun a ha => ?_, fun _ _ => trivial⟩
    obtain rfl := Option.some.inj ha
    rfl
  have hrest : Execution.Along (SpamSession.step System.oneTxChain) Collects v
      ([.report (.txOutcome 1 { tx := {} } none) (RuntimeTxInfo.now 0),
        .act (.message (.sentRunTx 1 0 none none none .listening) true), .act (.cancel 0)] ++
      (takeUp ++ (System.startRange 0 1 ++ System.blockRound 0)).map .act) :=
    Execution.along_of_forall
      (by simp [takeUp, System.startRange, System.blockRound, Collects])
  have hlast : Execution.Along (SpamSession.step System.oneTxChain) Collects u
      [.act .restartFlush] := by
    refine ⟨⟨hcallbacks, fun a ha => ?_⟩, fun _ _ => trivial⟩
    rw [show u.system.actor = some a from ha] at hcache
    exact Option.some.inj hcache
  exact ⟨p, hp, .inl hphase, hhandled, complete_of_collected hp
    ((hfirst.append hv hrest).append hu hlast) (.inl hphase)⟩

end SpamSession

end Contender
