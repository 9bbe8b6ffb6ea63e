import Mathlib.Data.List.Perm.Subperm
import Contender.Cli.FundConfirmations

/-!
# The channel of pending transactions

The channel has room for 9000 pending transactions. It is drained only after every task has been
joined, so with more tasks than that the main task waits for one that waits for room.

## Main results

* `FundCall.neverDeadlocks_iff` — no schedule of the tasks reaches such a state exactly when the
  checks fail, or at most 9000 recipients are below `min_balance` and get a nonce
-/

namespace Contender

open Semantics

namespace FundPlan

/-- The main task waits for a task that waits for room in the channel. -/
def State.Deadlocked (s : State) : Prop :=
  ∃ k tx, s.main = .joining k ∧ s.tasks k = .sending tx ∧ s.closed = false ∧
    pendingTxCapacity ≤ s.channel.length

variable (p : FundPlan)

/-- The number of tasks whose nonce fits its type. -/
def nonceCount : ℕ := min p.count (2 ^ 64 - p.adminNonce)

/-! ### The channel holds at most one transaction of each task -/

/-- The transactions of the channel belong to different tasks, which have ended. -/
structure Filled (s : State) : Prop where
  unspawned : ∀ k, s.main = .spawning k → ∀ i ≥ k, s.tasks i = .unspawned
  nodup : (s.channel.map FundingTx.nonce).Nodup
  sent : ∀ tx ∈ s.channel, ∃ k, p.IsTx k tx ∧ s.tasks k = .finished (.ok ())

variable {p} {s t : State}

theorem IsTx.eq_of_nonce {j k : ℕ} {tx tx' : FundingTx} (h : p.IsTx j tx) (h' : p.IsTx k tx')
    (hnonce : tx.nonce = tx'.nonce) : j = k := by
  have hj := (addU64_eq_some.mp h.nonce).1
  have hk := (addU64_eq_some.mp h'.nonce).1
  omega

/-- A transaction that waits for room has a nonce that the channel does not hold. -/
theorem Filled.nonce_notMem {w : List Event} {k : ℕ} {tx : FundingTx} (h : p.Filled s)
    (hsound : p.Sound w s) (htask : s.tasks k = .sending tx) :
    tx.nonce ∉ s.channel.map FundingTx.nonce := by
  intro hmem
  obtain ⟨tx', hmem', hnonce⟩ := List.mem_map.mp hmem
  obtain ⟨j, htx', hdone⟩ := h.sent tx' hmem'
  obtain rfl := htx'.eq_of_nonce (hsound.sending k tx htask) hnonce
  rw [htask] at hdone
  cases hdone

/-- A task that has started and has not ended moves on. -/
theorem Filled.setTask {k : ℕ} (h : p.Filled s) (hstarted : s.tasks k ≠ .unspawned)
    (hrunning : ∀ r, s.tasks k ≠ .finished r) (task : Task) : p.Filled (s.setTask k task) where
  unspawned := by
    intro j hmain i hi
    have hold := h.unspawned j hmain i hi
    have hik : i ≠ k := by
      rintro rfl
      exact hstarted hold
    simpa [State.setTask, hik] using hold
  nodup := h.nodup
  sent := by
    intro tx htx
    obtain ⟨j, hj, hdone⟩ := h.sent tx htx
    have hjk : j ≠ k := by
      rintro rfl
      exact hrunning _ hdone
    exact ⟨j, hj, by simpa [State.setTask, hjk] using hdone⟩

theorem Filled.main {main : Main} {closed : Bool} (h : p.Filled s)
    (hmain : ∀ k, main ≠ .spawning k) : p.Filled { s with main := main, closed := closed } where
  unspawned := fun k hk => absurd hk (hmain k)
  nodup := h.nodup
  sent := h.sent

theorem watchNext_ne_spawning (left : List FundingTx) (chunks : List (List FundingTx)) (k : ℕ) :
    Main.watchNext left chunks ≠ .spawning k := by
  unfold Main.watchNext
  split_ifs <;> simp

/-- **One step.** -/
theorem Filled.move {w : List Event} {e : Event} (h : p.Filled s) (hsound : p.Sound w s)
    (hmove : p.Move s e t) : p.Filled t := by
  cases hmove with
  | spawn k hmain hk =>
    have hfresh := h.unspawned k hmain
    refine ⟨?_, h.nodup, fun tx htx => ?_⟩
    · rintro j ⟨⟩ i hi
      have hik : i ≠ k := by omega
      simpa [State.setTask, hik] using hfresh i (by omega)
    · obtain ⟨j, hj, hdone⟩ := h.sent tx htx
      have hjk : j ≠ k := by
        rintro rfl
        rw [hfresh j le_rfl] at hdone
        cases hdone
      exact ⟨j, hj, by simpa [State.setTask, hjk] using hdone⟩
  | spawned k hmain hk => exact h.main (by simp)
  | acquire k nonce htask hnonce => exact h.setTask (by simp [htask]) (by simp [htask]) _
  | overflow k htask hnonce => exact h.setTask (by simp [htask]) (by simp [htask]) _
  | fund k nonce recipient answers htask hrecipient =>
    exact h.setTask (by simp [htask]) (by simp [htask]) _
  | crash k nonce htask => exact h.setTask (by simp [htask]) (by simp [htask]) _
  | drop k tx htask hclosed => exact h.setTask (by simp [htask]) (by simp [htask]) _
  | send k tx htask hopen hroom =>
    -- the only move that adds to the channel
    have hset := h.setTask (by simp [htask]) (by simp [htask]) (.finished (.ok ())) (k := k)
    refine ⟨hset.unspawned, ?_, fun tx' htx' => ?_⟩
    · rw [List.map_append]
      exact h.nodup.append (List.nodup_singleton _)
        (List.disjoint_singleton.mpr (h.nonce_notMem hsound htask))
    · rcases List.mem_append.mp htx' with hold | hnew
      · exact hset.sent tx' hold
      · obtain rfl := List.mem_singleton.mp hnew
        exact ⟨k, hsound.sending k _ htask, by simp [State.setTask]⟩
  | join k hmain htask => exact h.main (by simp)
  | close hmain => exact h.main (by simp)
  | recv pendingTxs tx rest hmain hchannel =>
    obtain ⟨hunspawned, hnodup, hsent⟩ := h
    rw [hchannel] at hnodup hsent
    refine ⟨(fun _ hk => absurd hk (by simp)), (List.nodup_cons.mp hnodup).2, fun tx' htx' => ?_⟩
    exact hsent tx' (List.mem_cons_of_mem _ htx')
  | drained pendingTxs hmain hchannel => exact h.main (by simp)
  | finish advanced hmain => exact h.main (by simp)
  | chunk advanced txs chunks hmain => exact h.main (watchNext_ne_spawning _ _)
  | confirm tx left chunks hmain => exact h.main (watchNext_ne_spawning _ _)
  | fail e err =>
    exact ⟨fun _ hk => absurd hk (by simp [State.fail]), List.nodup_nil,
      fun _ htx => absurd htx List.not_mem_nil⟩

theorem filled_initial : p.Filled .initial :=
  ⟨fun _ _ _ _ => rfl, List.nodup_nil, fun _ htx => absurd htx List.not_mem_nil⟩

theorem filled_of_run {w : List Event} (h : Execution.run p.step .initial w = some s) :
    p.Sound w s ∧ p.Filled s :=
  Execution.history_invariant (I := fun w s => p.Sound w s ∧ p.Filled s)
    (fun _ _ _ _ _ hstep hinv =>
      ⟨hinv.1.move (move_of_step hstep), hinv.2.move hinv.1 (move_of_step hstep)⟩)
    [] ⟨sound_initial, filled_initial⟩ h (Execution.along_true _ _)

/-- A task that waits for room leaves room for all others. -/
theorem Filled.length_lt {w : List Event} {k : ℕ} {tx : FundingTx} (h : p.Filled s)
    (hsound : p.Sound w s) (htask : s.tasks k = .sending tx) :
    s.channel.length < p.nonceCount := by
  have hnodup : (tx.nonce :: s.channel.map FundingTx.nonce).Nodup :=
    List.nodup_cons.mpr ⟨h.nonce_notMem hsound htask, h.nodup⟩
  -- the nonces are distinct numbers of an interval
  have hnonce : ∀ tx j, p.IsTx j tx → tx.nonce ∈ List.range' p.adminNonce p.nonceCount := by
    intro tx j htx
    have hj := lt_count_of_recipient htx.recipient
    have hfits := addU64_eq_some.mp htx.nonce
    rw [List.mem_range'_1, nonceCount]
    omega
  have hsub : tx.nonce :: s.channel.map FundingTx.nonce ⊆
      List.range' p.adminNonce p.nonceCount := by
    intro n hn
    rcases List.mem_cons.mp hn with rfl | hn
    · exact hnonce tx k (hsound.sending k tx htask)
    · obtain ⟨tx', htx', rfl⟩ := List.mem_map.mp hn
      obtain ⟨j, hj, -⟩ := h.sent tx' htx'
      exact hnonce tx' j hj
  have hle := (hnodup.subperm hsub).length_le
  rwa [List.length_cons, List.length_map, List.length_range'] at hle

/-! ### The tasks in order -/

/-- The first `j` tasks have been spawned. -/
def spawnedState (j : ℕ) : State where
  main := .spawning j
  tasks i := if i < j then .waiting else .unspawned
  channel := []
  closed := false

/-- What an honest node answers. -/
def accepted : FundAnswers := ⟨.ok 0, .ok 0, .ok 1, .ok (), .ok ()⟩

variable (p) in
/-- The transaction of the task that the node accepts. -/
def acceptedTx (k : ℕ) : FundingTx :=
  ⟨p.fundWith, (p.recipient k).getD 0, p.minBalance, p.adminNonce + k, 1⟩

variable (p) in
/-- The first `j` tasks have sent their transactions and have been joined; the others have not
begun. -/
def joinedState (j : ℕ) : State where
  main := .joining j
  tasks i := if i < j then .finished (.ok ()) else if i < p.count then .waiting else .unspawned
  channel := (List.range j).map p.acceptedTx
  closed := false

/-- One task sends its transaction and ends. -/
def sendWord (k : ℕ) : List Event := [.acquire k, .fund k accepted, .send k, .join]

theorem step_spawn {j : ℕ} (h : j < p.count) :
    p.step (spawnedState j) .spawn = some (spawnedState (j + 1)) := by
  have hstep : p.step (spawnedState j) .spawn =
      some { (spawnedState j).setTask j .waiting with main := .spawning (j + 1) } := if_pos h
  rw [hstep, Option.some.injEq]
  refine State.ext rfl (funext fun i => ?_) rfl rfl
  by_cases hij : i = j
  · subst hij
    simp [spawnedState]
  · have hlt : i < j + 1 ↔ i < j := by omega
    rw [State.setTask_of_ne _ hij]
    unfold spawnedState
    simp only [hlt]

theorem recipient_of_lt {k : ℕ} (h : k < p.count) : ∃ recipient, p.recipient k = some recipient :=
  ⟨_, congrArg (Option.map Prod.fst) (List.getElem?_eq_getElem h)⟩

theorem nonce_of_lt {k : ℕ} (h : k < p.nonceCount) : p.nonce k = some (p.adminNonce + k) := by
  have hfits : p.adminNonce + k < 2 ^ 64 := by
    unfold nonceCount at h
    omega
  exact addU64_eq_some.mpr ⟨rfl, hfits⟩

theorem permitFree_joinedState (j : ℕ) : p.PermitFree (p.joinedState j) := by
  have hnone : (List.range p.count).countP
      (fun k => ((p.joinedState j).tasks k).HoldsPermit) = 0 := by
    refine List.countP_eq_zero.mpr fun k _ => ?_
    unfold joinedState
    dsimp only
    split_ifs <;> exact Bool.false_ne_true
  rw [PermitFree, hnone]
  decide

/-- The next task gets a permit and is ready to send. -/
theorem run_fund {j : ℕ} (h : j < p.nonceCount) :
    Execution.run p.step (p.joinedState j) [.acquire j, .fund j accepted] =
      some ((p.joinedState j).setTask j (.sending (p.acceptedTx j))) := by
  have hlt : j < p.count := h.trans_le (min_le_left _ _)
  obtain ⟨recipient, hrecipient⟩ := recipient_of_lt hlt
  -- no other task holds a permit
  have hwaiting : (p.joinedState j).tasks j = .waiting := by simp [joinedState, hlt]
  have hacquire : p.step (p.joinedState j) (.acquire j) =
      some ((p.joinedState j).setTask j (.funding (p.adminNonce + j))) := by
    simp [step, hwaiting, permitFree_joinedState, nonce_of_lt h]
  refine Execution.run_cons_eq_some.mpr ⟨_, hacquire, (Execution.run_singleton _ _).trans ?_⟩
  have hfund : fundAccount p.fundWith recipient p.minBalance accepted (p.adminNonce + j) =
      .ok (p.acceptedTx j) := by
    rw [acceptedTx, hrecipient]
    rfl
  simp only [step, State.setTask_self, hrecipient, hfund, funded, State.setTask_setTask]

/-- It sends its transaction while there is room, and is joined. -/
theorem run_sendWord {j : ℕ} (h : j < p.nonceCount) (hroom : j < pendingTxCapacity) :
    Execution.run p.step (p.joinedState j) (sendWord j) = some (p.joinedState (j + 1)) := by
  refine Execution.run_append_eq_some.mpr ⟨_, run_fund h, ?_⟩
  have hsend : p.step ((p.joinedState j).setTask j (.sending (p.acceptedTx j))) (.send j) =
      some { (p.joinedState j).setTask j (.finished (.ok ())) with
        channel := (p.joinedState j).channel ++ [p.acceptedTx j] } := by
    have hlength : (p.joinedState j).channel.length < pendingTxCapacity := by
      simpa [joinedState] using hroom
    have hopen : (p.joinedState j).closed = false := rfl
    simp [step, State.setTask, hlength, hopen]
  refine Execution.run_cons_eq_some.mpr ⟨_, hsend, (Execution.run_singleton _ _).trans ?_⟩
  have hjoin : p.step { (p.joinedState j).setTask j (.finished (.ok ())) with
        channel := (p.joinedState j).channel ++ [p.acceptedTx j] } .join =
      some { (p.joinedState j).setTask j (.finished (.ok ())) with
        main := .joining (j + 1)
        channel := (p.joinedState j).channel ++ [p.acceptedTx j] } := by
    simp [step, State.setTask, joinedState]
  rw [hjoin, Option.some.injEq]
  refine State.ext rfl (funext fun i => ?_) ?_ rfl
  · change ((p.joinedState j).setTask j (.finished (.ok ()))).tasks i = _
    by_cases hij : i = j
    · subst hij
      simp [joinedState]
    · have hlt : i < j + 1 ↔ i < j := by omega
      rw [State.setTask_of_ne _ hij]
      unfold joinedState
      simp only [hlt]
  · simp [joinedState, List.range_succ]

/-- The main task waits for a task that waits for room. -/
theorem exists_deadlocked (h : pendingTxCapacity < p.nonceCount) :
    ∃ w s, Execution.run p.step .initial w = some s ∧ s.Deadlocked := by
  -- every task is spawned, the first ones fill the channel, and the next one gets stuck
  have hspawn : Execution.run p.step .initial
      ((List.range p.count).flatMap fun _ => [.spawn]) = some (spawnedState p.count) :=
    Execution.run_flatMap_range (f := spawnedState) fun i hi =>
      (Execution.run_singleton _ _).trans (step_spawn hi)
  have hspawned : p.step (spawnedState p.count) .spawn = some (p.joinedState 0) := by
    have hstep : p.step (spawnedState p.count) .spawn =
        some { spawnedState p.count with main := .joining 0 } := if_neg (lt_irrefl _)
    rw [hstep, Option.some.injEq]
    refine State.ext rfl (funext fun i => ?_) rfl rfl
    simp [spawnedState, joinedState]
  have hsend : Execution.run p.step (p.joinedState 0)
      ((List.range pendingTxCapacity).flatMap sendWord) =
        some (p.joinedState pendingTxCapacity) :=
    Execution.run_flatMap_range fun i hi => run_sendWord (hi.trans h) hi
  refine ⟨_, _, Execution.run_append_eq_some.mpr ⟨_, hspawn, Execution.run_cons_eq_some.mpr
    ⟨_, hspawned, Execution.run_append_eq_some.mpr ⟨_, hsend, run_fund h⟩⟩⟩, ?_⟩
  exact ⟨pendingTxCapacity, _, rfl, State.setTask_self _ _ _, rfl, by
    simp [State.setTask, joinedState]⟩

end FundPlan

namespace FundCall

variable (call : FundCall) (checks : FundChecks)

/-- No schedule of the tasks reaches a deadlock. -/
def NeverDeadlocks : Prop :=
  ∀ plan, call.prepare checks = .ok plan → ∀ w s,
    Execution.run plan.step .initial w = some s → ¬ s.Deadlocked

/-- The checks before the tasks pass. -/
def ChecksPass : Prop := ∃ plan, call.prepare checks = .ok plan

/-- **No deadlock.** Exactly when the checks fail, or at most as many recipients as the channel has
room for are below `min_balance` and get a nonce. -/
theorem neverDeadlocks_iff : call.NeverDeadlocks checks ↔
    (call.ChecksPass checks → ∀ n, checks.transactionCount = .ok n →
      min (call.belowMinBalance checks) (2 ^ 64 - n) ≤ pendingTxCapacity) := by
  constructor
  · rintro hnever ⟨plan, hplan⟩ n hn
    obtain ⟨-, hnonce, -⟩ := of_prepare hplan
    obtain rfl := Except.ok.inj (hnonce.symm.trans hn)
    rw [← length_of_prepare hplan]
    by_contra hmore
    obtain ⟨w, s, hrun, hdeadlocked⟩ := FundPlan.exists_deadlocked (not_le.mp hmore)
    exact hnever plan hplan w s hrun hdeadlocked
  · rintro hfew plan hplan w s hrun ⟨k, tx, -, htask, -, hfull⟩
    -- the transaction that waits and those in the channel are from different tasks
    obtain ⟨hsound, hfilled⟩ := FundPlan.filled_of_run hrun
    obtain ⟨-, hnonce, -⟩ := of_prepare hplan
    have hlt : s.channel.length < min plan.insufficientBalances.length (2 ^ 64 - plan.adminNonce) :=
      hfilled.length_lt hsound htask
    have hle := hfew ⟨plan, hplan⟩ _ hnonce
    rw [length_of_prepare hplan] at hlt
    omega

end FundCall

/-- Every recipient is checked if every balance is answered. -/
theorem exists_findInsufficientBalances (minBalance : U256)
    {balance : ℕ → Except UtilError U256} (h : ∀ i, ∃ b, balance i = .ok b)
    (addresses : List Address) :
    ∃ found, findInsufficientBalances minBalance balance addresses = .ok found := by
  obtain ⟨answers, hanswers⟩ := List.exists_mapM_eq_ok
    (f := fun a : Address × ℕ => (isBalanceSufficient minBalance (balance a.2)).map fun r =>
      if r.1 then none else some (a.1, r.2)) (l := addresses.zipIdx) fun a _ => by
        obtain ⟨b, hb⟩ := h a.2
        rw [hb]
        exact ⟨_, rfl⟩
  exact ⟨answers.filterMap id, by rw [findInsufficientBalances, hanswers]; rfl⟩

theorem FundCall.prepare_of_found {call : FundCall} {checks : FundChecks}
    {found : List (Address × U256)} (h : findInsufficientBalances call.minBalance checks.balance
      call.recipientAddresses = .ok found) :
    call.prepare checks = call.planFor checks (found.insertionSort fun a b => a.1 ≤ b.1) := by
  rw [prepare, h]
  rfl

namespace Crowd

/-- 9001 recipients. -/
def call : FundCall where
  recipientAddresses := (List.range 9001).map (BitVec.ofNat 160)
  fundWith := 0xa
  minBalance := 100
  callFcu := false
  engineProvider := false

/-- None of them has anything. -/
def checks : FundChecks where
  balance _ := .ok 0
  transactionCount := .ok 7
  gasPrice := .ok 10
  chainId := .ok 1
  adminBalance := .ok 10000000000
  adminBalanceAgain := .ok 10000000000

theorem belowMin_zero : BelowMin call.minBalance (checks.balance 0) := ⟨0, rfl, by decide⟩

theorem belowMinBalance_eq : call.belowMinBalance checks = 9001 := by
  have hall : call.belowMinBalance checks = call.recipientAddresses.zipIdx.length :=
    List.countP_eq_length.mpr fun _ _ => decide_eq_true belowMin_zero
  rw [hall, List.length_zipIdx, call, List.length_map, List.length_range]

/-- The admin account can pay for 9001 recipients. -/
theorem planFor_of_length {found : List (Address × U256)} (h : found.length = 9001) :
    call.planFor checks found = .ok ⟨0xa, 100, found, 7, false, false⟩ := by
  unfold FundCall.planFor
  rw [h]
  rfl

theorem checksPass : call.ChecksPass checks := by
  obtain ⟨found, hfound⟩ := exists_findInsufficientBalances call.minBalance (fun _ => ⟨0, rfl⟩ :
    ∀ i, ∃ b, checks.balance i = .ok b) call.recipientAddresses
  have hlength : (found.insertionSort fun a b => a.1 ≤ b.1).length = 9001 := by
    rw [List.length_insertionSort, length_findInsufficientBalances hfound]
    exact belowMinBalance_eq
  exact ⟨_, (FundCall.prepare_of_found hfound).trans (planFor_of_length hlength)⟩

/-- The main task waits for the last task, which waits for room. -/
theorem not_neverDeadlocks_crowd : ¬ call.NeverDeadlocks checks := by
  obtain ⟨plan, hplan⟩ := checksPass
  obtain ⟨-, hnonce, -⟩ := FundCall.of_prepare hplan
  obtain hseven : 7 = plan.adminNonce := Except.ok.inj hnonce
  have hcount : plan.nonceCount = 9001 := by
    rw [FundPlan.nonceCount, FundPlan.count, FundCall.length_of_prepare hplan, belowMinBalance_eq,
      ← hseven]
    decide
  obtain ⟨w, s, hrun, hdeadlocked⟩ := plan.exists_deadlocked (hcount ▸ by decide)
  exact fun hnever => hnever plan hplan w s hrun hdeadlocked

end Crowd

end Contender
