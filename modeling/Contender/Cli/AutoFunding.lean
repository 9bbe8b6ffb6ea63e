import Contender.Cli.FundAccounts
import Contender.Data.Places

/-!
# Funding while spam runs

Spam that runs forever leaves a signal behind after each round, in a channel with one place: a full
channel takes no more. A background task waits for the signal, looks at the balances, and funds the
spammers when one of them has come near the minimum. It ends when it is cancelled or when the spam
has dropped its end of the channel; the channel is closed then, and a signal in it is lost.

The command and the server run the same loop. They differ in the check: the command gives up at the
first answer that is an error, and the server passes over it.

## Main results

* `sweeps_follow_rounds` — no round goes unseen: it is followed by a check, or its signal is still
  in the channel, or the task was cancelled and has exited; no check happens without a round before
  it, and what a check finds decides whether the task funds
* `task_exits` — when the spam has gone, the task makes at most one more check and exits
-/

namespace Contender.AutoFunding

open Semantics Semantics.Execution

/-! ## The check -/

/-- The minimum and a quarter of it. -/
def threshold (minBalance : U256) : U256 := minBalance + minBalance / 4

variable (minBalance : U256) (balance : ℕ → Except UtilError U256) (addresses : List Address)

/-- `spawn_balance_checked_funding_task` funds the accounts when it finds one of them. -/
def commandFunds : Bool :=
  match findInsufficientBalances (threshold minBalance) balance addresses with
  | .ok below => !below.isEmpty
  | .error _ => false

/-- The loop over the addresses in `run_funding_loop`: it stops at the first one below. -/
def scan (limit : U256) : List (Except UtilError U256) → Bool
  | [] => false
  | .ok b :: answers => if b < limit then true else scan limit answers
  | .error _ :: answers => scan limit answers

/-- `run_funding_loop` funds the spammers when the scan finds one of them. -/
def serverFunds : Bool :=
  scan (threshold minBalance) (addresses.zipIdx.map fun a => balance a.2)

theorem scan_eq_true {limit : U256} {answers : List (Except UtilError U256)} :
    scan limit answers = true ↔ ∃ b, .ok b ∈ answers ∧ b < limit := by
  induction answers with
  | nil => simp [scan]
  | cons answer answers ih =>
    cases answer with
    | error e => simp [scan, ih]
    | ok b =>
      rw [scan]
      split_ifs with hb
      -- the scan stops here
      · exact ⟨fun _ => ⟨b, List.mem_cons_self, hb⟩, fun _ => rfl⟩
      · rw [ih]
        constructor
        · rintro ⟨c, hc, hlt⟩
          exact ⟨c, List.mem_cons_of_mem _ hc, hlt⟩
        · rintro ⟨c, hc, hlt⟩
          rcases List.mem_cons.mp hc with heq | hmem
          · exact (hb (Except.ok.inj heq ▸ hlt)).elim
          · exact ⟨c, hmem, hlt⟩

/-- Some answer is a balance below the threshold. -/
def SomeBelow : Prop :=
  ∃ i, i < addresses.length ∧ BelowMin (threshold minBalance) (balance i)

theorem serverFunds_iff :
    serverFunds minBalance balance addresses = true ↔ SomeBelow minBalance balance addresses := by
  rw [serverFunds, scan_eq_true]
  constructor
  · rintro ⟨b, hb, hlt⟩
    obtain ⟨⟨a, i⟩, hmem, hbalance⟩ := List.mem_map.mp hb
    have hi := (List.mem_zipIdx hmem).2.1
    exact ⟨i, by simpa using hi, b, hbalance, hlt⟩
  · rintro ⟨i, hi, b, hbalance, hlt⟩
    refine ⟨b, List.mem_map.mpr ⟨(addresses[i], i), ?_, hbalance⟩, hlt⟩
    exact List.mem_zipIdx_iff_getElem?.mpr (List.getElem?_eq_getElem hi)

/-- The command funds only when the node has answered for every account. -/
theorem commandFunds_iff :
    commandFunds minBalance balance addresses = true ↔
      (∀ i < addresses.length, ∃ b, balance i = .ok b) ∧
        SomeBelow minBalance balance addresses := by
  rw [commandFunds]
  cases hfound : findInsufficientBalances (threshold minBalance) balance addresses with
  | error e =>
    refine ⟨fun h => absurd h Bool.false_ne_true, fun h => ?_⟩
    obtain ⟨hok, -⟩ := h
    obtain ⟨⟨a, i⟩, hmem, hi⟩ := List.exists_of_mapM_eq_error (Except.map_eq_error_iff.mp hfound)
    obtain ⟨b, hb⟩ := hok i (by simpa using (List.mem_zipIdx hmem).2.1)
    rw [hb] at hi
    cases hi
  | ok below =>
    have hcount := length_findInsufficientBalances hfound
    have hsome : below ≠ [] ↔ SomeBelow minBalance balance addresses := by
      rw [← List.length_pos_iff, hcount, List.countP_pos_iff]
      constructor
      · rintro ⟨⟨a, i⟩, hmem, hbelow⟩
        exact ⟨i, by simpa using (List.mem_zipIdx hmem).2.1, of_decide_eq_true hbelow⟩
      · rintro ⟨i, hi, hbelow⟩
        exact ⟨(addresses[i], i), List.mem_zipIdx_iff_getElem?.mpr (List.getElem?_eq_getElem hi),
          decide_eq_true hbelow⟩
    rw [Bool.not_eq_true', List.isEmpty_eq_false_iff, hsome]
    refine ⟨fun h => ⟨fun i hi => ?_, h⟩, fun h => h.2⟩
    obtain ⟨b, hb, -⟩ := mem_findInsufficientBalances hfound (List.getElem?_eq_getElem hi)
    exact ⟨b, hb⟩

/-- The two places that start the task. -/
inductive Caller
  | command
  | server
  deriving DecidableEq, Repr

/-- The check of each of them. -/
def Caller.funds : Caller → (ℕ → Except UtilError U256) → Bool
  | .command => fun balance => commandFunds minBalance balance addresses
  | .server => fun balance => serverFunds minBalance balance addresses

/-- The checks differ only where some answer is an error. -/
theorem Caller.funds_iff (caller : Caller) :
    caller.funds minBalance addresses balance = true ↔
      (caller = .command → ∀ i < addresses.length, ∃ b, balance i = .ok b) ∧
        SomeBelow minBalance balance addresses := by
  cases caller with
  | command => exact (commandFunds_iff _ _ _).trans (by simp)
  | server => exact (serverFunds_iff _ _ _).trans (by simp)

/-! ## The loop -/

/-- What the background task is at. -/
inductive Worker
  | waiting
  | checking
  | funding
  | exited
  deriving DecidableEq, Repr

/-- What the spam is at: it has rounds to come, or has had its last one, or has dropped its end of
the channel. -/
inductive Spam
  | spamming
  | collecting
  | gone
  deriving DecidableEq, Repr

structure State where
  spam : Spam
  signal : Bool
  cancelled : Bool
  worker : Worker
  deriving DecidableEq, Repr

def State.initial : State := ⟨.spamming, false, false, .waiting⟩

/-- The steps of the spam, of whoever cancels, and of the task. -/
inductive Event
  | roundEnds (again : Bool)
  | dropSender
  | cancel
  | recv
  -- with the answers of the node
  | checked (balance : ℕ → Except UtilError U256)
  -- with an error or without
  | funded
  | exit

def Event.isRecv : Event → Bool
  | .recv => true
  | _ => false

def Event.isChecked : Event → Bool
  | .checked _ => true
  | _ => false

-- the check, with the minimum and the accounts it is called with
variable (funds : (ℕ → Except UtilError U256) → Bool)

def step (s : State) : Event → Option State
  | .roundEnds again =>
    if s.spam = .spamming then
      -- `try_send` does not wait, and its error is dropped: the channel is full, or closed
      if again then some { s with signal := s.signal || s.worker ≠ .exited }
      else some { s with spam := .collecting }
    else none
  | .dropSender => if s.spam = .gone then none else some { s with spam := .gone }
  | .cancel => if s.cancelled then none else some { s with cancelled := true }
  | .recv =>
    if s.worker = .waiting ∧ s.signal then
      some { s with signal := false, worker := .checking }
    else none
  | .checked balance =>
    if s.worker = .checking then
      some { s with worker := if funds balance then .funding else .waiting }
    else none
  | .funded => if s.worker = .funding then some { s with worker := .waiting } else none
  | .exit =>
    -- a closed channel still gives the message in it
    if s.worker = .waiting ∧ (s.cancelled ∨ s.spam = .gone ∧ s.signal = false) then
      -- the receiver is dropped, and what is in the channel with it
      some { s with signal := false, worker := .exited }
    else none

/-- A round with another one to come has ended, and no check has begun since. -/
def Unseen (w : List Event) : Prop :=
  ∃ u v, w = u ++ .roundEnds true :: v ∧ .recv ∉ v

variable {funds} {s t : State} {w : List Event}

theorem unseen_concat {e : Event} :
    Unseen (w ++ [e]) ↔ e = .roundEnds true ∨ e ≠ .recv ∧ Unseen w := by
  constructor
  · rintro ⟨u, v, hsplit, hv⟩
    rcases concat_eq_append_cons_iff.mp hsplit with ⟨-, he, -⟩ | ⟨front, hw, rfl⟩
    · exact .inl he.symm
    · rw [List.mem_append, not_or, List.mem_singleton] at hv
      exact .inr ⟨Ne.symm hv.2, u, front, hw, hv.1⟩
  · rintro (rfl | ⟨he, u, v, rfl, hv⟩)
    · exact ⟨w, [], rfl, List.not_mem_nil⟩
    · refine ⟨u, v ++ [e], by rw [List.append_assoc, List.cons_append], ?_⟩
      rw [List.mem_append, List.mem_singleton]
      exact fun h => h.elim hv fun h => he h.symm

theorem not_unseen_nil : ¬ Unseen [] := by
  rintro ⟨u, v, h, -⟩
  exact absurd h.symm (List.append_ne_nil_of_right_ne_nil u (List.cons_ne_nil _ v))

/-- What a step does to the signal. -/
theorem signal_of_step {e : Event} (h : step funds s e = some t) :
    t.signal = true ↔ (e = .roundEnds true ∧ s.worker ≠ .exited) ∨
      (e ≠ .recv ∧ e ≠ .exit ∧ s.signal = true) := by
  cases e with
  | roundEnds again =>
    rw [step] at h
    split_ifs at h with hspam hagain
    · obtain rfl := Option.some.inj h
      simp [hagain, or_comm]
    · obtain rfl := Option.some.inj h
      simp [hagain]
  | dropSender | cancel | recv | checked balance | funded | exit =>
    rw [step] at h
    split_ifs at h
    all_goals
      obtain rfl := Option.some.inj h
      simp

/-- A task that has exited stays that way, and only `.exit` gets there. -/
theorem exited_of_step {e : Event} (h : step funds s e = some t) :
    t.worker = .exited ↔ s.worker = .exited ∨ e = .exit := by
  cases e with
  | roundEnds again | dropSender | cancel | recv | funded | exit =>
    rw [step] at h
    split_ifs at h
    all_goals
      obtain rfl := Option.some.inj h
      simp [*]
  | checked balance =>
    rw [step] at h
    split at h
    case isFalse => cases h
    case isTrue hchecking =>
      obtain rfl := Option.some.inj h
      cases hfunds : funds balance <;> simp [hchecking]

theorem cancelled_of_step {e : Event} (h : step funds s e = some t)
    (hcancelled : s.cancelled = true) : t.cancelled = true := by
  cases e with
  | roundEnds again | dropSender | cancel | recv | checked balance | funded | exit =>
    rw [step] at h
    split_ifs at h
    all_goals
      obtain rfl := Option.some.inj h
      simp [hcancelled]

/-- Spam that is gone has no more rounds. -/
theorem gone_of_step {e : Event} (h : step funds s e = some t) (hgone : s.spam = .gone) :
    t.spam = .gone ∧ e ≠ .roundEnds true := by
  cases e with
  | roundEnds again | dropSender =>
    rw [step] at h
    simp [hgone] at h
  | cancel | recv | checked balance | funded | exit =>
    rw [step] at h
    split_ifs at h
    all_goals
      obtain rfl := Option.some.inj h
      simp [hgone]

/-- Why the task exits. -/
theorem ready_of_exit (h : step funds s .exit = some t) :
    s.worker = .waiting ∧ (s.cancelled = true ∨ s.spam = .gone ∧ s.signal = false) := by
  rw [step] at h
  split_ifs at h with hready
  exact hready

/-- What the signal and the end of the task say about the rounds so far. -/
structure Tracked (w : List Event) (s : State) : Prop where
  signal_iff : s.signal = true ↔ Unseen w ∧ s.worker ≠ .exited
  exited : s.worker = .exited → s.cancelled = true ∨ s.spam = .gone ∧ ¬ Unseen w

theorem Tracked.step {e : Event} (hinv : Tracked w s) (h : step funds s e = some t) :
    Tracked (w ++ [e]) t := by
  constructor
  · rw [signal_of_step h, unseen_concat, hinv.signal_iff, ne_eq t.worker, exited_of_step h]
    by_cases hexit : e = .exit
    · simp [hexit]
    · tauto
  · rw [exited_of_step h, unseen_concat]
    rintro (hexited | rfl)
    · refine (hinv.exited hexited).imp (cancelled_of_step h) fun hgone => ?_
      obtain ⟨ht, hround⟩ := gone_of_step h hgone.1
      exact ⟨ht, fun hor => hor.elim hround fun hunseen => hgone.2 hunseen.2⟩
    · obtain ⟨hwaiting, hready⟩ := ready_of_exit h
      refine hready.imp (cancelled_of_step h) fun hgone => ?_
      refine ⟨(gone_of_step h hgone.1).1, fun hor => ?_⟩
      -- a round that nobody has seen would still have its signal
      obtain hround | hunseen := hor
      · cases hround
      · have hsignal := hinv.signal_iff.mpr ⟨hunseen.2, by rw [hwaiting]; decide⟩
        exact Bool.false_ne_true (hgone.2.symm.trans hsignal)

theorem tracked_of_run (hrun : run (step funds) .initial w = some s) : Tracked w s :=
  history_invariant (fun _ _ _ _ _ hstep hinv => hinv.step hstep) []
    ⟨iff_of_false Bool.false_ne_true fun h => not_unseen_nil h.1, fun h => by cases h⟩ hrun
    (along_true _ _)

/-- A check begins only when there is a signal. -/
theorem signal_of_recv (h : step funds s .recv = some t) : s.signal = true := by
  rw [step] at h
  split_ifs at h with hready
  exact hready.2

theorem funding_of_step {e : Event} (h : step funds s e = some t) (hfunding : t.worker = .funding) :
    (s.worker = .funding ∧ e.isChecked = false) ∨
      ∃ balance, e = .checked balance ∧ funds balance = true := by
  cases e with
  | roundEnds again =>
    rw [step] at h
    split_ifs at h
    all_goals
      obtain rfl := Option.some.inj h
      exact .inl ⟨hfunding, rfl⟩
  | dropSender | cancel =>
    rw [step] at h
    split_ifs at h
    obtain rfl := Option.some.inj h
    exact .inl ⟨hfunding, rfl⟩
  | recv | funded | exit =>
    rw [step] at h
    split_ifs at h
    obtain rfl := Option.some.inj h
    cases hfunding
  | checked balance =>
    rw [step] at h
    split at h
    case isFalse => cases h
    case isTrue =>
      obtain rfl := Option.some.inj h
      refine .inr ⟨balance, rfl, ?_⟩
      by_contra hnot
      rw [Bool.not_eq_true] at hnot
      simp only [hnot] at hfunding
      cases hfunding

/-- The task funds only on a check that has found a shortage, the last one. -/
theorem checked_of_funding (hrun : run (step funds) .initial w = some s)
    (hfunding : s.worker = .funding) :
    ∃ u balance v, w = u ++ .checked balance :: v ∧ funds balance = true ∧
      ∀ e ∈ v, e.isChecked = false := by
  refine history_invariant (I := fun w s => s.worker = .funding →
    ∃ u balance v, w = u ++ .checked balance :: v ∧ funds balance = true ∧
      ∀ e ∈ v, e.isChecked = false)
    (fun past u e t _ hstep hinv ht => ?_) [] ?_ hrun (along_true _ _) hfunding
  · rcases funding_of_step hstep ht with ⟨hu, he⟩ | ⟨balance, rfl, hfunds⟩
    · obtain ⟨front, balance, v, rfl, hfunds, hv⟩ := hinv hu
      refine ⟨front, balance, v ++ [e], by rw [List.append_assoc, List.cons_append], hfunds, ?_⟩
      intro e' he'
      rcases List.mem_append.mp he' with hmem | hmem
      · exact hv e' hmem
      · rw [List.mem_singleton.mp hmem]
        exact he
    · exact ⟨past, balance, [], rfl, hfunds, fun e he => absurd he List.not_mem_nil⟩
  · exact fun h => by cases h

/-- What the last check has found decides whether the task funds. -/
theorem funding_iff_of_checked {balance : ℕ → Except UtilError U256}
    (h : step funds s (.checked balance) = some t) :
    t.worker = .funding ↔ funds balance = true := by
  rw [step] at h
  split at h
  case isFalse => cases h
  case isTrue =>
    obtain rfl := Option.some.inj h
    cases hfunds : funds balance <;> simp

namespace OneAccount

/-- An account with 120 wei, and a minimum of 100. -/
def near : (ℕ → Except UtilError U256) → Bool := fun balance => commandFunds 100 balance [7]

/-- The check of the command for that account. -/
def events : List Event :=
  [.roundEnds true, .roundEnds true, .recv, .checked fun _ => .ok 120]

/-- A round ends after the task was cancelled: its signal is lost with the channel. -/
example : run (step (Caller.command.funds 100 [7])) .initial [.roundEnds true, .cancel, .exit] =
    some ⟨.spamming, false, true, .exited⟩ :=
  rfl

end OneAccount

/-! ### The end of the task -/

/-- The steps that the worker still has before it waits again. -/
def Worker.left : Worker → ℕ
  | .waiting => 1
  | .checking => 3
  | .funding => 2
  | .exited => 0

/-- The steps left when no round is to come. -/
def State.left (s : State) : ℕ :=
  s.worker.left + (if s.signal then 3 else 0) + (if s.cancelled then 0 else 1)

/-- Without a sender there are no more signals, and each step brings the end nearer. -/
theorem left_of_step {e : Event} (hgone : s.spam = .gone) (h : step funds s e = some t) :
    t.spam = .gone ∧ t.left < s.left := by
  cases e with
  | roundEnds again =>
    rw [step, if_neg (by rw [hgone]; decide)] at h
    cases h
  | dropSender =>
    rw [step, if_pos hgone] at h
    cases h
  | cancel =>
    rw [step] at h
    split_ifs at h with hcancelled
    obtain rfl := Option.some.inj h
    exact ⟨hgone, by simp [State.left, hcancelled]⟩
  | recv =>
    rw [step] at h
    split_ifs at h with hready
    obtain rfl := Option.some.inj h
    exact ⟨hgone, by simp [State.left, hready, Worker.left]⟩
  | checked balance =>
    rw [step] at h
    split at h
    case isFalse => cases h
    case isTrue hchecking =>
      obtain rfl := Option.some.inj h
      refine ⟨hgone, ?_⟩
      cases hfunds : funds balance <;> simp [State.left, hchecking, Worker.left]
  | funded =>
    rw [step] at h
    split_ifs at h with hfunding
    obtain rfl := Option.some.inj h
    exact ⟨hgone, by simp [State.left, hfunding, Worker.left]⟩
  | exit =>
    rw [step] at h
    split_ifs at h with hready
    obtain rfl := Option.some.inj h
    refine ⟨hgone, ?_⟩
    simp only [State.left, hready.1, Worker.left, Bool.false_eq_true, if_false]
    omega

/-- A task that has not exited can go on without a sender. -/
theorem exited_of_stuck (hgone : s.spam = .gone) (hstuck : Stuck (step funds) s) :
    s.worker = .exited := by
  cases hworker : s.worker with
  | waiting =>
    cases hsignal : s.signal with
    | true =>
      have := hstuck .recv
      rw [step, if_pos ⟨hworker, hsignal⟩] at this
      cases this
    | false =>
      have := hstuck .exit
      rw [step, if_pos ⟨hworker, .inr ⟨hgone, hsignal⟩⟩] at this
      cases this
  | checking =>
    have := hstuck (.checked fun _ => .ok 0)
    rw [step, if_pos hworker] at this
    cases this
  | funding =>
    have := hstuck .funded
    rw [step, if_pos hworker] at this
    cases this
  | exited => rfl

theorem run_gone (hgone : s.spam = .gone) (hrun : run (step funds) s w = some t) :
    t.spam = .gone ∧ w.length + t.left ≤ s.left := by
  induction w generalizing s with
  | nil =>
    obtain rfl := Option.some.inj hrun
    exact ⟨hgone, by simp⟩
  | cons e w ih =>
    obtain ⟨u, hstep, hrest⟩ := run_cons_eq_some.mp hrun
    obtain ⟨hu, hlt⟩ := left_of_step hgone hstep
    obtain ⟨ht, hle⟩ := ih hu hrest
    refine ⟨ht, ?_⟩
    rw [List.length_cons]
    omega

/-- Without a sender there is at most the check for the signal that is left. -/
theorem countP_isRecv_le (hgone : s.spam = .gone) (hrun : run (step funds) s w = some t) :
    w.countP Event.isRecv + t.signal.toNat ≤ s.signal.toNat := by
  induction w generalizing s with
  | nil =>
    obtain rfl := Option.some.inj hrun
    simp
  | cons e w ih =>
    obtain ⟨u, hstep, hrest⟩ := run_cons_eq_some.mp hrun
    have hle := ih (left_of_step hgone hstep).1 hrest
    by_cases he : e = .recv
    · have hu : u.signal = false := by
        rw [← Bool.not_eq_true, signal_of_step hstep, he]
        simp
      rw [hu] at hle
      have hs : s.signal = true := signal_of_recv (he ▸ hstep)
      rw [he, List.countP_cons_of_pos rfl, hs]
      simp only [Bool.toNat_false, Bool.toNat_true] at hle ⊢
      omega
    · have hu : u.signal.toNat ≤ s.signal.toNat := by
        refine Bool.toNat_le_toNat fun hsignal => ?_
        obtain ⟨hround, -⟩ | ⟨-, -, hs⟩ := (signal_of_step hstep).mp hsignal
        · exact absurd hround (gone_of_step hstep hgone).2
        · exact hs
      have hother : e.isRecv = true → False := by
        cases e <;> simp_all [Event.isRecv]
      rw [List.countP_cons_of_neg hother]
      exact hle.trans hu

/-- When the spam has dropped its end of the channel, at any point of the task's loop, the task
exits after at most one more check, whatever the node answers. -/
theorem task_exits (hgone : s.spam = .gone) :
    Inevitable (step funds) (fun t => t.worker = .exited) s ∧
      ∀ v t, run (step funds) s v = some t → v.countP Event.isRecv ≤ 1 := by
  refine ⟨⟨⟨s.left, fun v t hrun => ?_⟩, fun v t hrun hstuck => ?_⟩, fun v t hrun => ?_⟩
  · have := (run_gone hgone hrun).2
    omega
  · exact exited_of_stuck (run_gone hgone hrun).1 hstuck
  · have hcount := countP_isRecv_le hgone hrun
    have hle : s.signal.toNat ≤ 1 := Bool.toNat_le s.signal
    omega

/-- The spam is gone while the task funds, with a signal left. -/
theorem OneAccount.task_exits_oneAccount :
    Inevitable (step OneAccount.near) (fun t => t.worker = .exited)
        ⟨.gone, true, false, .funding⟩ ∧
      ∀ v t, run (step OneAccount.near) ⟨.gone, true, false, .funding⟩ v = some t →
        v.countP Event.isRecv ≤ 1 :=
  task_exits rfl

end Contender.AutoFunding
