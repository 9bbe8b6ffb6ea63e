import Contender.Spammer.Recording

/-!
# Consecutive spam runs

`Contender::spam` drives the system through one run after another: it announces a fresh
run id with `InitCtx`, sends its transactions, cancels the flush loop and awaits it, and
restarts it for the next run. The driver waits for the flush loop, not for the cache: a
loop that gives up on stale transactions leaves them cached. They are then collected by
the loop of the next run, and recorded under its run id.

A row has the run id its transaction was sent under whenever `InitCtx` finds the cache
empty and the flush loop between two block ranges.
-/

namespace Contender

open Semantics Protocol

/-- Where `Contender::spam` is: before `InitCtx`, sending, waiting for the flush loop it
cancelled, or restarting it. -/
inductive SpamPhase
  | ready
  | sending
  | flushing
  | restarting
  deriving DecidableEq, Repr

/-- The caller of `Contender::spam`: its phase, the flush loop of the current run, and
the run ids used so far. -/
structure SpamDriver where
  phase : SpamPhase
  loop : Nat
  runIds : List Nat
  deriving DecidableEq, Repr

namespace SpamDriver

/-- The first call of `spam` finds the flush loop that came with the actor. -/
def start : SpamDriver := ⟨.ready, 0, []⟩

/-- The actions that consecutive calls of `spam` lead to. The flush loops and the
flashblock listener run on their own. -/
def step (d : SpamDriver) (s : System) : Action → Option SpamDriver
  | .message (.initCtx ctx) _ =>
    if d.phase = .ready ∧ ctx.runId ∉ d.runIds then
      some { d with phase := .sending, runIds := ctx.runId :: d.runIds }
    else none
  | .message (.sentRunTx _ _ _ _ _ _) _ => if d.phase = .sending then some d else none
  -- the driver cancels its own loop, after the last transaction was sent
  | .cancel k =>
    if d.phase = .sending ∧ k = d.loop then some { d with phase := .flushing } else none
  | .restartFlush =>
    -- `await_flush` returned: the loop has ended, whatever is left in the cache
    match (s.loops d.loop).pc with
    | .done =>
      if d.phase = .flushing then some { d with phase := .restarting, loop := s.spawned } else none
    | _ => none
  | .message (.replaceFlushReceiver k) _ =>
    if d.phase = .restarting ∧ k = d.loop then some { d with phase := .ready } else none
  | .flushRequest _ => some d
  | .flashblockMark _ => some d
  | .flush _ _ => some d
  | _ => none

end SpamDriver

/-- The system together with the caller of `Contender::spam`. -/
def spamStep (chain : Chain) (p : System × SpamDriver) (action : Action) :
    Option (System × SpamDriver) :=
  (p.1.step chain action).bind fun s => (p.2.step p.1 action).map fun d => (s, d)

namespace System

variable {chain : Chain} {s t : System}

/-- Every row has the run id that was current when its transaction was sent. -/
def AttributedRows (s : System) : Prop := ∀ row ∈ s.db, (row.2.txHash, some row.1) ∈ s.sent

/-- `InitCtx` is handled with an empty cache, while the flush loop that the actor serves
is outside a block range and has no snapshot to start one. -/
def BetweenRuns (s : System) : Action → Prop
  | .message (.initCtx _) _ =>
    ∀ a ∈ s.actor, a.cache.keys = [] ∧ (s.loops a.flushReceiver).worker.tag = none
  | _ => True

/-- The operations of an action that a driver takes are between batches. -/
theorem betweenBatches_ops {d e : SpamDriver} {action : Action}
    (hdriver : d.step s action = some e) (hok : s.BetweenRuns action) :
    Execution.Along WriteBehind.State.step WriteBehind.BetweenBatches s.view
      (s.ops chain action) := by
  refine along_ops (fun u op hop => ?_) (fun _ => trivial)
    fun a m inserted haction hactor op hop => ?_
  · cases op <;> trivial
  · subst haction
    cases m with
    -- the only operation with a guard
    | initCtx ctx =>
      obtain rfl := List.mem_singleton.mp hop
      obtain ⟨hcache, htag⟩ := hok a hactor
      rw [view_of_actor hactor]
      refine ⟨?_, fun k hk => ?_⟩
      · ext h
        have huncached : h ∉ a.cache := by
          rw [AList.mem_keys, hcache]
          exact List.not_mem_nil
        simpa using huncached
      · obtain rfl := Option.some.inj hk
        exact htag
    | sentRunTx sent start stop kind error r =>
      obtain rfl := List.mem_singleton.mp hop
      trivial
    | replaceFlushReceiver k =>
      obtain rfl := List.mem_singleton.mp hop
      trivial
    | _ => exact absurd hdriver (by simp [SpamDriver.step])

/-- **Run attribution.** Over any number of consecutive spam runs, every row has the run
id that was current when its transaction was sent, as long as each `InitCtx` finds the
cache empty and the flush loop outside a block range. -/
theorem attributedRows_of_betweenRuns {actions : List Action} {d : SpamDriver}
    (hrun : Execution.run (spamStep chain) (init, .start) actions = some (t, d))
    (hbetween : Execution.Along (spamStep chain) (fun p => p.1.BetweenRuns) (init, .start)
      actions) : t.AttributedRows := by
  have hparts : ∀ (p : System × SpamDriver) action q, spamStep chain p action = some q →
      p.1.step chain action = some q.1 ∧ p.2.step p.1 action = some q.2 := by
    intro p action q hstep
    obtain ⟨s, hs, hd⟩ := Option.bind_eq_some_iff.mp hstep
    obtain ⟨e, he, rfl⟩ := Option.map_eq_some_iff.mp hd
    exact ⟨hs, he⟩
  -- the caller is carried along; only its restriction on messages is used
  obtain ⟨ops, hops, hbatches⟩ := Execution.simulation (I := fun p => p.1.WellFormed)
    (fun p : System × SpamDriver => p.1.view) (fun p => p.1.ops chain)
    (fun p action q hstep hwf => hwf.step (hparts p action q hstep).1)
    (fun p action q hstep hwf => run_ops hwf (hparts p action q hstep).1)
    (fun p action q hstep _ hok => betweenBatches_ops (hparts p action q hstep).2 hok)
    wellFormed_init hrun hbetween
  have hattributed := WriteBehind.store_attributed initial_view_init.attributed hops hbatches
  intro row hrow
  exact hattributed.stored row.1 row.2.txHash (List.mem_map.mpr ⟨row, hrow, rfl⟩)

/-- What `BetweenRuns` reads off the state. -/
def between (s : System) : Option (List TxHash × Option Nat) :=
  s.actor.map fun a => (a.cache.keys, (s.loops a.flushReceiver).worker.tag)

theorem betweenRuns_of_between (h : s.between = some ([], none)) (action : Action) :
    s.BetweenRuns action := by
  unfold BetweenRuns
  split
  · intro a ha
    rw [between, show s.actor = some a from ha] at h
    exact Prod.mk.inj (Option.some.inj h)
  · trivial

/-- One block of a range, from its receipts to the refreshed snapshot. -/
def blockRound (loop : Nat) : List Action :=
  [.flush loop (.receipts ⟨true, [], true⟩), .flush loop .tick, .flushRequest 0,
    .flush loop .tick, .flushRequest 0, .flush loop .tick]

/-- Loop `loop` starts a range up to `newBlock`. -/
def startRange (loop newBlock : Nat) : List Action :=
  [.flush loop (.blockNumber (some newBlock)), .flushRequest 0, .flush loop .tick]

/-- A first run that sends one transaction, whose flush loop is awaited and replaced.
The loop collects the ranges in `collected` in between. -/
def firstRun (collected : List Action) : List Action :=
  [.message (.sentRunTx 1 0 none none none .listening) true, .cancel 0,
    .flush 0 .tick, .flushRequest 0, .flush 0 .tick] ++ collected ++
  [.restartFlush, .message (.replaceFlushReceiver 1) true]

/-- A second run that starts after the first one has been collected is attributed. -/
theorem attributedRows_of_collected :
    ∃ t d, Execution.run (spamStep oneTxChain) (init, .start)
        ([.message (.initCtx ⟨1, 0⟩) true] ++ firstRun (startRange 0 1 ++ blockRound 0) ++
          [.message (.initCtx ⟨2, 1⟩) true]) = some (t, d) ∧ t.AttributedRows := by
  have hmid : (Execution.run (spamStep oneTxChain) (init, .start)
      ([.message (.initCtx ⟨1, 0⟩) true] ++ firstRun (startRange 0 1 ++ blockRound 0))).map
      (fun p => p.1.between) = some (some ([], none)) := by decide +kernel
  have hrun : (Execution.run (spamStep oneTxChain) (init, .start)
      ([.message (.initCtx ⟨1, 0⟩) true] ++ firstRun (startRange 0 1 ++ blockRound 0) ++
        [.message (.initCtx ⟨2, 1⟩) true])).isSome := by decide +kernel
  obtain ⟨⟨t, d⟩, ht⟩ := Option.isSome_iff_exists.mp hrun
  obtain ⟨u, hu, hbetween⟩ := Option.map_eq_some_iff.mp hmid
  obtain ⟨v, hv, -⟩ := Execution.run_append_eq_some.mp hu
  have hfirst : Execution.Along (spamStep oneTxChain) (fun p => p.1.BetweenRuns) (init, .start)
      [.message (.initCtx ⟨1, 0⟩) true] :=
    ⟨betweenRuns_of_between (by decide) _, fun _ _ => trivial⟩
  have hrest : Execution.Along (spamStep oneTxChain) (fun p => p.1.BetweenRuns) v
      (firstRun (startRange 0 1 ++ blockRound 0)) :=
    Execution.along_of_forall (by simp [firstRun, startRange, blockRound, BetweenRuns])
  have hsecond : Execution.Along (spamStep oneTxChain) (fun p => p.1.BetweenRuns) u
      [.message (.initCtx ⟨2, 1⟩) true] :=
    ⟨betweenRuns_of_between hbetween _, fun _ _ => trivial⟩
  exact ⟨t, d, ht, attributedRows_of_betweenRuns ht ((hfirst.append hv hrest).append hu hsecond)⟩

/-- A chain whose block 7 includes the transaction with hash 1. -/
def lateChain : Chain := ⟨fun b => if b = 7 then [⟨1, true, 21000⟩] else [], fun _ => 0⟩

/-- The loop of the first run gives up after six blocks without the transaction, the
loop of the second run finds it in block 7. -/
def lateInclusion : List Action :=
  [.message (.initCtx ⟨1, 0⟩) true] ++
    firstRun (startRange 0 1 ++ blockRound 0 ++ startRange 0 7 ++
      (List.replicate 6 (blockRound 0)).flatten) ++
    [.message (.initCtx ⟨2, 7⟩) true, .flush 1 .tick, .flushRequest 0, .flush 1 .tick] ++
    startRange 1 8 ++ [.flush 1 (.receipts ⟨true, [], true⟩)]

/-- A transaction that the first run sent and its flush loop gave up on is recorded under
the run id of the second run. -/
theorem not_attributedRows_of_lateInclusion :
    ∃ t d, Execution.run (spamStep lateChain) (init, .start) lateInclusion = some (t, d) ∧
      ¬ t.AttributedRows := by
  have hrun : (Execution.run (spamStep lateChain) (init, .start) lateInclusion).map
      (fun p => (p.1.db.map fun row => (row.1, row.2.txHash), p.1.sent)) =
      some ([(2, 1)], [(1, some 1)]) := by decide +kernel
  obtain ⟨⟨t, d⟩, ht, hprobe⟩ := Option.map_eq_some_iff.mp hrun
  obtain ⟨hdb, hsent⟩ := Prod.mk.inj hprobe
  refine ⟨t, d, ht, fun hattributed => ?_⟩
  have hrow : (2, 1) ∈ t.db.map fun row => (row.1, row.2.txHash) := by
    rw [hdb]
    exact List.mem_singleton_self _
  obtain ⟨row, hmem, heq⟩ := List.mem_map.mp hrow
  obtain ⟨hrunId, hhash⟩ := Prod.mk.inj heq
  have hentry := hattributed row hmem
  rw [hrunId, hhash, show t.sent = [(1, some 1)] from hsent] at hentry
  exact absurd hentry (by decide)

end System

end Contender
