import Contender.Spammer.ActorLifetime
import Contender.Spammer.FlushMoves

/-!
# Well-formed systems

In every reachable state each flush channel is sound, exactly the channel the actor
reads is attached, the channels that were never created are closed, and the actor's
cache is keyed by the hash of the transaction it stores.
-/

namespace Contender

open Semantics

/-- Every entry of the cache is stored under its own hash. -/
def TxActor.Keyed (a : TxActor) : Prop :=
  ∀ h tx, a.cache.lookup h = some tx → tx.txHash = h

namespace TxActor

variable {a : TxActor}

/-- Only `ReplaceFlushReceiver` changes the channel the actor reads. -/
theorem handleMessage_flushReceiver (a : TxActor) (inserted : Bool) (m : TxActorMessage) :
    (a.handleMessage inserted m).actor.flushReceiver =
      match m with
      | .replaceFlushReceiver k => k
      | _ => a.flushReceiver := by
  cases m with
  | removedRunTx h r =>
    by_cases hmem : h ∈ a.cache <;> simp [handleMessage, removeCachedTx, hmem]
  | dumpCache runId r =>
    unfold handleMessage dumpCache
    cases a.cache.values.mapM PendingRunTx.toDumpedRunTx <;> cases inserted <;> rfl
  | _ => rfl

theorem handleFlashblockMark_flushReceiver (a : TxActor) (mark : FlashblockMark) :
    (a.handleFlashblockMark mark).flushReceiver = a.flushReceiver := by
  unfold handleFlashblockMark
  split <;> split_ifs <;> rfl

theorem handleFlashblockMark_ctx (a : TxActor) (mark : FlashblockMark) :
    (a.handleFlashblockMark mark).ctx = a.ctx := by
  unfold handleFlashblockMark
  split <;> split_ifs <;> rfl

theorem handleFlushRequest_flushReceiver (a : TxActor) (nowMs : Nat) (request : FlushRequest) :
    (a.handleFlushRequest nowMs request).flushReceiver = a.flushReceiver := by
  cases request <;> rfl

private theorem keyed_empty {b : TxActor} (h : b.cache = ∅) : b.Keyed := by
  intro k tx hk
  rw [h, AList.lookup_empty] at hk
  cases hk

/-- Handling a message keeps the cache keyed. -/
theorem Keyed.handleMessage (hkeyed : a.Keyed) (inserted : Bool) (m : TxActorMessage) :
    (a.handleMessage inserted m).actor.Keyed := by
  cases m with
  -- the new entry is made from the hash it is stored under
  | sentRunTx h start stop kind error r =>
    intro k tx hk
    by_cases hkh : k = h
    · subst hkh
      have hnew : some (a.pendingOf k start stop kind error) = some tx := by
        simpa [TxActor.handleMessage] using hk
      rw [← Option.some.inj hnew]
      rfl
    · exact hkeyed k tx (by simpa [TxActor.handleMessage, AList.lookup_insert_ne hkh] using hk)
  | removedRunTx h r =>
    intro k tx hk
    by_cases hmem : h ∈ a.cache
    · by_cases hkh : k = h
      · subst hkh
        simp [TxActor.handleMessage, removeCachedTx, hmem] at hk
      · apply hkeyed k tx
        simpa [TxActor.handleMessage, removeCachedTx, hmem, AList.lookup_erase_ne hkh] using hk
    · exact hkeyed k tx (by simpa [TxActor.handleMessage, removeCachedTx, hmem] using hk)
  | dumpCache runId r =>
    unfold TxActor.handleMessage TxActor.dumpCache
    cases a.cache.values.mapM PendingRunTx.toDumpedRunTx with
    | none => exact hkeyed
    | some txs =>
      cases inserted with
      | false => exact hkeyed
      | true => exact keyed_empty rfl
  | clearCache r => exact keyed_empty rfl
  | _ => exact hkeyed

theorem Keyed.handleFlashblockMark (hkeyed : a.Keyed) (mark : FlashblockMark) :
    (a.handleFlashblockMark mark).Keyed := by
  unfold TxActor.handleFlashblockMark
  split
  -- the marked entry keeps its hash
  case h_1 tx htx =>
    split_ifs
    · intro k other hk
      dsimp only at hk
      rw [AList.lookup_replace, htx] at hk
      split_ifs at hk with hkm
      · rw [← Option.some.inj hk, hkm]
        exact hkeyed mark.txHash tx htx
      · exact hkeyed k other hk
    · exact hkeyed
  case h_2 => split_ifs <;> exact hkeyed

theorem Keyed.handleFlushRequest (hkeyed : a.Keyed) (nowMs : Nat) (request : FlushRequest) :
    (a.handleFlushRequest nowMs request).Keyed := by
  cases request with
  | getSnapshot => exact hkeyed
  | removeConfirmed hashes target =>
    intro k tx hk
    have hlookup : (a.cache.eraseAll hashes).lookup k = some tx := hk
    rw [AList.lookup_eraseAll] at hlookup
    split_ifs at hlookup
    exact hkeyed k tx hlookup

/-- The hashes of a keyed cache enumerate its keys. -/
theorem Keyed.mem_values (hkeyed : a.Keyed) {h : TxHash} :
    h ∈ a.cache.values.map PendingRunTx.txHash ↔ h ∈ a.cache := by
  rw [List.mem_map, AList.mem_iff_lookup]
  constructor
  · rintro ⟨tx, htx, rfl⟩
    obtain ⟨k, hk⟩ := AList.mem_values.mp htx
    rw [hkeyed k tx hk]
    exact ⟨tx, hk⟩
  · rintro ⟨tx, htx⟩
    exact ⟨tx, AList.mem_values.mpr ⟨h, htx⟩, hkeyed h tx htx⟩

theorem Keyed.nodup_values (hkeyed : a.Keyed) :
    (a.cache.values.map PendingRunTx.txHash).Nodup := by
  have hkeys : a.cache.values.map PendingRunTx.txHash = a.cache.keys := by
    unfold AList.values AList.keys List.keys
    rw [List.map_map]
    apply List.map_congr_left
    intro e he
    exact hkeyed e.1 e.2 (AList.mem_lookup_iff.mpr he)
  rw [hkeys]
  exact a.cache.keys_nodup

end TxActor

namespace System

variable {chain : Chain} {s t : System}

structure WellFormed (s : System) : Prop where
  sound : ∀ k, (s.loops k).Sound
  attached : ∀ k, (s.loops k).receiver = .attached ↔
    ∃ a, s.actor = some a ∧ a.flushReceiver = k
  unspawned : ∀ k, s.spawned ≤ k → (s.loops k).pc = .done ∧ (s.loops k).receiver = .closed
  keyed : ∀ a, s.actor = some a → a.Keyed

theorem wellFormed_init : init.WellFormed where
  sound := (Function.forall_update_iff _ fun _ (l : FlushLoop) => l.Sound).mpr
    ⟨FlushLoop.sound_spawn _, fun _ _ => FlushLoop.sound_unspawned⟩
  attached k := by
    by_cases hk : k = 0
    · subst hk
      simp [init, FlushLoop.spawn, TxActor.new]
    · simp [init, Function.update_of_ne hk, FlushLoop.unspawned, FlushLoop.spawn, TxActor.new,
        Ne.symm hk]
  unspawned k hk := by
    have hk0 : k ≠ 0 := by
      have : 1 ≤ k := hk
      omega
    simp [init, Function.update_of_ne hk0, FlushLoop.unspawned, FlushLoop.spawn]
  keyed a ha := by
    obtain rfl : TxActor.new 0 = a := Option.some.inj ha
    intro h tx htx
    simp [TxActor.new] at htx

/-- A loop whose receiver is not dropped was spawned. -/
theorem WellFormed.lt_spawned (hwf : s.WellFormed) {k : Nat}
    (hopen : (s.loops k).receiver ≠ .closed) : k < s.spawned := by
  by_contra hge
  exact hopen (hwf.unspawned k (Nat.le_of_not_lt hge)).2

/-- The actor reads the one attached channel. -/
theorem WellFormed.attached_iff (hwf : s.WellFormed) {a : TxActor} (hactor : s.actor = some a)
    (k : Nat) : (s.loops k).receiver = .attached ↔ a.flushReceiver = k := by
  rw [hwf.attached k, hactor]
  simp

/-- One loop may be exchanged for a sound one with the same receiver. -/
theorem WellFormed.update (hwf : s.WellFormed) {k : Nat} {l : FlushLoop} (hsound : l.Sound)
    (hreceiver : l.receiver = (s.loops k).receiver)
    (hdone : s.spawned ≤ k → l.pc = .done) (db : List RunRow) :
    ({ s with loops := Function.update s.loops k l, db := db } : System).WellFormed where
  sound := (Function.forall_update_iff _ fun _ (l : FlushLoop) => l.Sound).mpr
    ⟨hsound, fun j _ => hwf.sound j⟩
  attached := by
    refine (Function.forall_update_iff s.loops fun j l => l.receiver = .attached ↔
      ∃ a, s.actor = some a ∧ a.flushReceiver = j).mpr ⟨?_, fun j _ => hwf.attached j⟩
    rw [hreceiver]
    exact hwf.attached k
  unspawned := by
    refine (Function.forall_update_iff s.loops fun j l => s.spawned ≤ j →
      l.pc = .done ∧ l.receiver = .closed).mpr ⟨fun hk => ?_, fun j _ => hwf.unspawned j⟩
    rw [hreceiver]
    exact ⟨hdone hk, (hwf.unspawned k hk).2⟩
  keyed := hwf.keyed

/-- A handled message leaves a well-formed system, when the actor it leaves reads the
attached channel. -/
theorem wellFormed_deliver {h : Handled} (hsound : ∀ k, (s.loops k).Sound)
    (hattached : ∀ k, (s.loops k).receiver = .attached ↔ h.actor.flushReceiver = k)
    (hunspawned : ∀ k, s.spawned ≤ k →
      (s.loops k).pc = .done ∧ (s.loops k).receiver = .closed)
    (hkeyed : h.actor.Keyed) : (s.deliver h).WellFormed := by
  unfold deliver
  cases hsurvivor : TxActor.survivor h with
  | some a =>
    obtain ⟨-, -, rfl⟩ := TxActor.survivor_eq_some.mp hsurvivor
    refine ⟨hsound, fun k => ?_, hunspawned, fun a ha => ?_⟩
    · rw [hattached k]
      simp
    · obtain rfl : h.actor = a := Option.some.inj ha
      exact hkeyed
  -- the actor has ended: every receiver is dropped
  | none =>
    refine ⟨fun k => (hsound k).close, fun k => ?_, fun k hk => ?_, fun a ha => ?_⟩
    · simp [FlushLoop.close]
    · exact ⟨(hunspawned k hk).1, rfl⟩
    · cases ha

theorem receive_replaceFlushReceiver {a : TxActor} {k : Nat} :
    s.receive a (.replaceFlushReceiver k) = some t ↔
      (s.loops k).receiver = .inTransit ∧
        { s with loops := Function.update (Function.update s.loops a.flushReceiver
            (s.loops a.flushReceiver).close) k { s.loops k with receiver := .attached } } = t := by
  simp [System.receive]

/-- Receiving a message keeps the channels sound, and attaches the one the actor
reads once it has handled the message. -/
theorem WellFormed.receive (hwf : s.WellFormed) {a : TxActor} (hactor : s.actor = some a)
    {m : TxActorMessage} (hreceive : s.receive a m = some t) (inserted : Bool) :
    (∀ k, (t.loops k).Sound) ∧
    (∀ k, (t.loops k).receiver = .attached ↔
      (a.handleMessage inserted m).actor.flushReceiver = k) ∧
    ∀ k, t.spawned ≤ k → (t.loops k).pc = .done ∧ (t.loops k).receiver = .closed := by
  have hattached := hwf.attached_iff hactor
  rw [TxActor.handleMessage_flushReceiver]
  cases m with
  | replaceFlushReceiver k =>
    obtain ⟨htransit, rfl⟩ := receive_replaceFlushReceiver.mp hreceive
    have hspawned : k < s.spawned := hwf.lt_spawned (by simp [htransit])
    have hsound : ({ s.loops k with receiver := .attached } : FlushLoop).Sound :=
      ⟨(hwf.sound k).shape, fun h => (by cases h), fun h => (by cases h)⟩
    -- in the updated map only `k` is attached: the channel read before is closed
    have hloops : ∀ j, j ≠ k → Function.update (Function.update s.loops a.flushReceiver
        (s.loops a.flushReceiver).close) k { s.loops k with receiver := .attached } j =
        if j = a.flushReceiver then (s.loops j).close else s.loops j := by
      intro j hj
      rw [Function.update_of_ne hj, Function.update_apply]
      split_ifs with hread
      · rw [hread]
      · rfl
    refine ⟨fun j => ?_, fun j => ?_, fun j hle => ?_⟩
    all_goals by_cases hj : j = k
    · subst hj
      simpa using hsound
    · dsimp only
      rw [hloops j hj]
      split_ifs
      · exact (hwf.sound j).close
      · exact hwf.sound j
    · subst hj
      simp
    · dsimp only
      rw [hloops j hj]
      split_ifs with hread
      · simp [FlushLoop.close, Ne.symm hj]
      · rw [hattached j]
        exact ⟨fun h => absurd h.symm hread, fun h => absurd h.symm hj⟩
    · subst hj
      exact absurd hle (Nat.not_le_of_lt hspawned)
    · dsimp only
      rw [hloops j hj]
      split_ifs
      · exact ⟨(hwf.unspawned j hle).1, rfl⟩
      · exact hwf.unspawned j hle
  | _ =>
    obtain rfl := Option.some.inj hreceive
    exact ⟨hwf.sound, hattached, hwf.unspawned⟩

/-- Serving the attached loop keeps the system well formed. -/
theorem WellFormed.serve (hwf : s.WellFormed) {a : TxActor} (hactor : s.actor = some a)
    {nowMs : Nat} (hserve : s.serve a nowMs = some t) : t.WellFormed := by
  have hread := (hwf.attached_iff hactor a.flushReceiver).mpr rfl
  obtain ⟨request, rest, hqueue, rfl⟩ := serve_eq_some.mp hserve
  have hsound := (hwf.sound a.flushReceiver).answer hread hqueue a.snapshot
  have hspawned : a.flushReceiver < s.spawned := hwf.lt_spawned (by simp [hread])
  have hchannel : (answer (s.loops a.flushReceiver) rest a.snapshot request).receiver =
      (s.loops a.flushReceiver).receiver := by cases request <;> rfl
  -- the loop is updated in place; the actor changes apart from the channel it reads
  have hupdate := hwf.update hsound hchannel (fun h => absurd h (Nat.not_le_of_lt hspawned)) s.db
  refine ⟨hupdate.sound, fun k => ?_, hupdate.unspawned, fun b hb => ?_⟩
  · apply (hupdate.attached k).trans
    simp [hactor, TxActor.handleFlushRequest_flushReceiver]
  · obtain rfl := Option.some.inj hb
    exact (hwf.keyed a hactor).handleFlushRequest _ _

/-- A restarted loop is a new one, whose receiver is on its way. -/
theorem WellFormed.restart (hwf : s.WellFormed) :
    ({ s with
      loops := Function.update s.loops s.spawned (FlushLoop.spawn .inTransit)
      spawned := s.spawned + 1 } : System).WellFormed := by
  refine ⟨?_, ?_, ?_, hwf.keyed⟩
  · exact (Function.forall_update_iff _ fun _ (l : FlushLoop) => l.Sound).mpr
      ⟨FlushLoop.sound_spawn _, fun j _ => hwf.sound j⟩
  · refine (Function.forall_update_iff s.loops fun j l => l.receiver = .attached ↔
      ∃ a, s.actor = some a ∧ a.flushReceiver = j).mpr ⟨?_, fun j _ => hwf.attached j⟩
    -- the name was free: nobody reads the channel yet
    have hclosed := (hwf.unspawned s.spawned le_rfl).2
    have hnone := hwf.attached s.spawned
    rw [hclosed] at hnone
    simpa [FlushLoop.spawn] using hnone
  · refine (Function.forall_update_iff s.loops fun j l => s.spawned + 1 ≤ j →
      l.pc = .done ∧ l.receiver = .closed).mpr ⟨fun h => ?_, fun j _ h => ?_⟩
    · omega
    · exact hwf.unspawned j (by omega)

/-- **Every action keeps the system well formed.** -/
theorem WellFormed.step {action : Action} (hwf : s.WellFormed)
    (hstep : s.step chain action = some t) : t.WellFormed := by
  cases action with
  | message m inserted =>
    obtain ⟨a, received, hactor, hreceive, rfl⟩ := step_message.mp hstep
    obtain ⟨hsound, hread, hunspawned⟩ := hwf.receive hactor hreceive inserted
    exact wellFormed_deliver hsound hread hunspawned ((hwf.keyed a hactor).handleMessage _ _)
  | stopSignal =>
    obtain ⟨a, hactor, rfl⟩ := Option.map_eq_some_iff.mp hstep
    have hread : ∀ k, (s.loops k).receiver = .attached ↔
        (a.handle .stopSignal).actor.flushReceiver = k := fun k => hwf.attached_iff hactor k
    exact wellFormed_deliver hwf.sound hread hwf.unspawned
      ((hwf.keyed a hactor).handleMessage false (.stop .listening))
  | flushRequest nowMs =>
    obtain ⟨a, hactor, hserve⟩ := Option.bind_eq_some_iff.mp hstep
    exact hwf.serve hactor hserve
  | flashblockMark mark =>
    obtain ⟨a, hactor, rfl⟩ := Option.map_eq_some_iff.mp hstep
    refine ⟨hwf.sound, fun k => ?_, hwf.unspawned, fun b hb => ?_⟩
    · apply (hwf.attached k).trans
      simp [hactor, TxActor.handleFlashblockMark_flushReceiver]
    · obtain rfl := Option.some.inj hb
      exact (hwf.keyed a hactor).handleFlashblockMark _
  | restartFlush =>
    obtain ⟨a, hactor, rfl⟩ := Option.map_eq_some_iff.mp hstep
    exact hwf.restart
  | cancel k =>
    obtain rfl := Option.some.inj hstep
    have hsound := hwf.sound k
    exact hwf.update (l := { s.loops k with cancelled := true })
      ⟨hsound.shape, hsound.closed, hsound.inTransit⟩ rfl (fun h => (hwf.unspawned k h).1) s.db
  | flush k input =>
    obtain ⟨⟨l, rows⟩, hloop, rfl⟩ := Option.map_eq_some_iff.mp hstep
    have hmove := FlushLoop.move_of_step hloop
    -- a loop that was never spawned is done and takes no step
    refine hwf.update (hmove.sound (hwf.sound k)) hmove.receiver (fun hle => ?_) _
    have hdone := (hwf.unspawned k hle).1
    simp [FlushLoop.step, hdone] at hloop

/-- Every reachable system is well formed. -/
theorem wellFormed_of_run {actions : List Action}
    (hrun : Execution.run (System.step chain) init actions = some t) : t.WellFormed :=
  Execution.invariant (fun _ _ _ _ hstep hwf => hwf.step hstep) wellFormed_init hrun
    (Execution.along_true _ _)

end System

end Contender
