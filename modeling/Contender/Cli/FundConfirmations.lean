import Contender.Cli.FundAccounts

/-!
# What a successful call of `fund_accounts` has confirmed

## Main results

* `FundCall.settlesBeforeOk` — when the call returns `Ok`, every recipient had enough, or its
  own transaction was confirmed, or its task was refused and skipped
-/

namespace Contender

namespace FundPlan

variable {p : FundPlan} {s t : State}

/-! ### What a run accounts for -/

variable (p) in
/-- The transaction of the `k`-th task: `min_balance` to its recipient. -/
structure IsTx (k : ℕ) (tx : FundingTx) : Prop where
  recipient : p.recipient k = some tx.recipient
  value : tx.value = p.minBalance
  nonce : p.nonce k = some tx.nonce

variable (p) in
/-- A request of the `k`-th task was refused with one of the texts. -/
def Refused (w : List Event) (k : ℕ) : Prop :=
  ∃ recipient nonce answers message, p.recipient k = some recipient ∧ p.nonce k = some nonce ∧
    Event.fund k answers ∈ w ∧ AlreadyInMempool message ∧
    fundAccount p.fundWith recipient p.minBalance answers nonce = .error (.rpc message)

/-- The node confirmed the transaction. -/
def Confirmed (w : List Event) (tx : FundingTx) : Prop := Event.watch tx .confirmed ∈ w

def State.Failed (s : State) : Prop := ∃ e, s.main = .returned (.error e)

/-- The transactions taken out of the channel and not yet confirmed. -/
def Main.held : Main → List FundingTx
  | .draining pendingTxs => pendingTxs
  | .confirming chunks => chunks.flatten
  | .watching left chunks => left ++ chunks.flatten
  | _ => []

/-- How many of the tasks have been joined. -/
def Main.joined (count : ℕ) : Main → ℕ
  | .spawning _ => 0
  | .joining k => k
  | .returned (.error _) => 0
  | _ => count

/-- The channel has been closed. -/
def Main.Closed : Main → Prop
  | .spawning _ => False
  | .joining _ => False
  | _ => True

/-- The channel has been drained. -/
def Main.Drained : Main → Prop
  | .confirming _ => True
  | .watching _ _ => True
  | .returned _ => True
  | _ => False

variable (p) in
/-- The task was skipped, or its transaction is on its way to the confirmation. -/
def Accounted (w : List Event) (s : State) (k : ℕ) : Prop :=
  p.Refused w k ∨ ∃ tx, p.IsTx k tx ∧ (tx ∈ s.channel ++ s.main.held ∨ Confirmed w tx)

variable (p) in
/-- What every run keeps: a task that has ended well is accounted for, as long as
`fund_accounts` has not failed. -/
structure Sound (w : List Event) (s : State) : Prop where
  funding : ∀ k nonce, s.tasks k = .funding nonce → p.nonce k = some nonce
  sending : ∀ k tx, s.tasks k = .sending tx → p.IsTx k tx
  accounted : ¬ s.Failed → ∀ k, s.tasks k = .finished (.ok ()) → p.Accounted w s k
  joined : ∀ k < s.main.joined p.count, s.tasks k = .finished (.ok ())
  closed : s.closed = true ↔ s.main.Closed
  drained : s.main.Drained → s.channel = []

theorem Main.Drained.closed {main : Main} (h : main.Drained) : main.Closed := by
  cases main with
  | spawning k => exact h
  | joining k => exact h
  | draining pendingTxs => trivial
  | confirming chunks => trivial
  | watching left chunks => trivial
  | returned result => trivial

/-- All tasks are joined before the channel is closed. -/
theorem joined_of_closed (count : ℕ) (h : s.main.Closed) (hok : ¬ s.Failed) :
    s.main.joined count = count := by
  unfold State.Failed at hok
  cases hmain : s.main with
  | returned result =>
    cases result with
    | ok _ => rfl
    | error e => exact absurd ⟨e, hmain⟩ hok
  | spawning k =>
    rw [hmain] at h
    exact h.elim
  | joining k =>
    rw [hmain] at h
    exact h.elim
  | draining pendingTxs => rfl
  | confirming chunks => rfl
  | watching left chunks => rfl

theorem isTx_of_fundAccount {k nonce : ℕ} {recipient : Address} {answers : FundAnswers}
    {tx : FundingTx} (hrecipient : p.recipient k = some recipient) (hnonce : p.nonce k = some nonce)
    (h : fundAccount p.fundWith recipient p.minBalance answers nonce = .ok tx) : p.IsTx k tx := by
  obtain ⟨_, -, h⟩ := Except.bind_eq_ok_iff.mp h
  obtain ⟨_, -, h⟩ := Except.bind_eq_ok_iff.mp h
  obtain ⟨_, -, h⟩ := Except.bind_eq_ok_iff.mp h
  obtain ⟨_, -, h⟩ := Except.bind_eq_ok_iff.mp h
  obtain ⟨_, -, h⟩ := Except.bind_eq_ok_iff.mp h
  cases h
  exact ⟨hrecipient, rfl, hnonce⟩

theorem lt_count_of_recipient {k : ℕ} {recipient : Address} (h : p.recipient k = some recipient) :
    k < p.count := by
  obtain ⟨entry, hentry, -⟩ := Option.map_eq_some_iff.mp h
  exact (List.getElem?_eq_some_iff.mp hentry).1

/-- What has been accounted for stays so while its transaction is kept or confirmed. -/
theorem Accounted.mono {w w' : List Event} {k : ℕ} (h : p.Accounted w s k) (hw : ∀ e ∈ w, e ∈ w')
    (hkept : ∀ tx ∈ s.channel ++ s.main.held,
      tx ∈ t.channel ++ t.main.held ∨ Confirmed w' tx) : p.Accounted w' t k := by
  obtain ⟨recipient, nonce, answers, message, hrecipient, hnonce, hmem, hrefused⟩ |
    ⟨tx, htx, hheld | hdone⟩ := h
  · exact .inl ⟨recipient, nonce, answers, message, hrecipient, hnonce, hw _ hmem, hrefused⟩
  · exact .inr ⟨tx, htx, hkept tx hheld⟩
  · exact .inr ⟨tx, htx, .inr (hw _ hdone)⟩

/-- A task that has not ended moves on. -/
theorem Sound.task {w : List Event} {e : Event} {k : ℕ} {task : Task} {channel : List FundingTx}
    (h : p.Sound w s) (hrunning : ∀ j < s.main.joined p.count, j ≠ k)
    (hfunding : ∀ nonce, task = .funding nonce → p.nonce k = some nonce)
    (hsending : ∀ tx, task = .sending tx → p.IsTx k tx)
    (hchannel : ∀ tx ∈ s.channel, tx ∈ channel)
    (hdone : ¬ s.Failed → task = .finished (.ok ()) →
      p.Accounted (w ++ [e]) { s.setTask k task with channel := channel } k)
    (hdrained : s.main.Drained → channel = []) :
    p.Sound (w ++ [e]) { s.setTask k task with channel := channel } where
  funding := by
    intro j nonce htask
    by_cases hjk : j = k
    · subst hjk
      exact hfunding nonce (by simpa [State.setTask] using htask)
    · exact h.funding j nonce (by simpa [State.setTask, hjk] using htask)
  sending := by
    intro j tx htask
    by_cases hjk : j = k
    · subst hjk
      exact hsending tx (by simpa [State.setTask] using htask)
    · exact h.sending j tx (by simpa [State.setTask, hjk] using htask)
  accounted := by
    intro hfailed j htask
    by_cases hjk : j = k
    · subst hjk
      exact hdone hfailed (by simpa [State.setTask] using htask)
    · refine (h.accounted hfailed j (by simpa [State.setTask, hjk] using htask)).mono
        (fun _ => List.mem_append_left _) fun tx htx => .inl ?_
      rcases List.mem_append.mp htx with htx | htx
      · exact List.mem_append_left _ (hchannel tx htx)
      · exact List.mem_append_right _ htx
  joined := by
    intro j hj
    have hjoined := h.joined j hj
    simpa [State.setTask, hrunning j hj] using hjoined
  closed := h.closed
  drained := hdrained

/-- A task that has not ended has not been joined. -/
theorem Sound.ne_of_running {w : List Event} {k : ℕ} (h : p.Sound w s)
    (hrunning : ∀ r, s.tasks k ≠ .finished r) : ∀ j < s.main.joined p.count, j ≠ k := by
  rintro j hj rfl
  exact hrunning _ (h.joined j hj)

/-- `fund_accounts` moves on. -/
theorem Sound.main {w w' : List Event} {main : Main} {channel : List FundingTx}
    {closed : Bool} (h : p.Sound w s) (hw : ∀ e ∈ w, e ∈ w') (hok : ¬ s.Failed)
    (hkept : ∀ tx ∈ s.channel ++ s.main.held, tx ∈ channel ++ main.held ∨ Confirmed w' tx)
    (hjoined : ∀ k < main.joined p.count, s.tasks k = .finished (.ok ()))
    (hclosed : closed = true ↔ main.Closed) (hdrained : main.Drained → channel = []) :
    p.Sound w' { s with main := main, channel := channel, closed := closed } where
  funding := h.funding
  sending := h.sending
  accounted := fun _ k htask =>
    (h.accounted hok k htask).mono hw hkept
  joined := hjoined
  closed := hclosed
  drained := hdrained

theorem Sound.fail {w : List Event} {e : Event} (h : p.Sound w s) (err : FundError) :
    p.Sound (w ++ [e]) (s.fail err) where
  funding := h.funding
  sending := h.sending
  accounted := fun hok => absurd ⟨err, rfl⟩ hok
  joined := fun _ hk => absurd hk (Nat.not_lt_zero _)
  closed := iff_of_true rfl trivial
  drained := fun _ => rfl

theorem held_watchNext (left : List FundingTx) (chunks : List (List FundingTx)) :
    (Main.watchNext left chunks).held = left ++ chunks.flatten := by
  unfold Main.watchNext
  split_ifs with hleft
  · rw [hleft]
    rfl
  · rfl

theorem joined_watchNext (count : ℕ) (left : List FundingTx) (chunks : List (List FundingTx)) :
    (Main.watchNext left chunks).joined count = count := by
  unfold Main.watchNext
  split_ifs <;> rfl

theorem not_failed_of_main {main : Main} (h : s.main = main)
    (hmain : ∀ e, main ≠ .returned (.error e)) : ¬ s.Failed := by
  rintro ⟨e, he⟩
  exact hmain e (h ▸ he)

theorem drained_watchNext (left : List FundingTx) (chunks : List (List FundingTx)) :
    (Main.watchNext left chunks).Drained := by
  unfold Main.watchNext
  split_ifs <;> trivial

/-- Going on with the chunks: the transactions are kept, but for one that is confirmed. -/
theorem Sound.watchNext {w : List Event} {e : Event} {left : List FundingTx}
    {chunks : List (List FundingTx)} (h : p.Sound w s) (hok : ¬ s.Failed)
    (hdrained : s.main.Drained)
    (hkept : ∀ tx ∈ s.main.held, tx ∈ left ++ chunks.flatten ∨ Confirmed (w ++ [e]) tx) :
    p.Sound (w ++ [e]) { s with main := .watchNext left chunks } := by
  have hchannel := h.drained hdrained
  have hnext := drained_watchNext left chunks
  refine h.main (fun _ => List.mem_append_left _) hok ?_ ?_
    (iff_of_true (h.closed.mpr hdrained.closed) hnext.closed) fun _ => hchannel
  · rw [hchannel, held_watchNext]
    exact hkept
  · rw [joined_watchNext, ← joined_of_closed p.count hdrained.closed hok]
    exact h.joined

/-- A task that is funded sends its transaction, unless it was skipped. -/
theorem funded_cases (result : Except UtilError FundingTx) :
    (∃ tx, result = .ok tx ∧ funded result = .sending tx) ∨
      (∃ message, result = .error (.rpc message) ∧ AlreadyInMempool message ∧
        funded result = .finished (.ok ())) ∨
      ∃ e, funded result = .finished (.error e) := by
  rcases result with e | tx
  · cases e with
    | rpc message =>
      by_cases hmempool : AlreadyInMempool message
      · exact .inr (.inl ⟨message, rfl, hmempool, if_pos hmempool⟩)
      · exact .inr (.inr ⟨_, if_neg hmempool⟩)
    | insufficientUserFunds sender have_ need chainId => exact .inr (.inr ⟨_, rfl⟩)
    | other message => exact .inr (.inr ⟨_, rfl⟩)
  · exact .inl ⟨tx, rfl, rfl⟩

/-- **One step.** -/
theorem Sound.move {w : List Event} {e : Event} (h : p.Sound w s) (hmove : p.Move s e t) :
    p.Sound (w ++ [e]) t := by
  cases hmove with
  | spawn k hmain hk =>
    -- the task begins, and then the counter moves on
    have hok : ¬ s.Failed := not_failed_of_main hmain (by simp)
    have htask : p.Sound (w ++ [.spawn]) (s.setTask k .waiting) := by
      refine h.task ?_ (by simp) (by simp) (fun _ => id) (by simp) h.drained
      rw [hmain]
      exact fun _ hj => absurd hj (Nat.not_lt_zero _)
    refine htask.main (fun _ => id) hok (fun tx htx => .inl ?_)
      (fun _ hj => absurd hj (Nat.not_lt_zero _)) ?_ (fun h => h.elim)
    · simpa [State.setTask, hmain, Main.held] using htx
    · have hclosed := h.closed
      rwa [hmain] at hclosed
  | spawned k hmain hk =>
    refine h.main (fun _ => List.mem_append_left _) (not_failed_of_main hmain (by simp))
      (fun tx htx => .inl ?_) (fun _ hj => absurd hj (Nat.not_lt_zero _)) ?_ (fun h => h.elim)
    · simpa [hmain, Main.held] using htx
    · have hclosed := h.closed
      rwa [hmain] at hclosed
  | acquire k nonce htask hnonce =>
    exact h.task (h.ne_of_running (by simp [htask])) (by rintro _ ⟨⟩; exact hnonce) (by simp)
      (fun _ => id) (by simp) h.drained
  | overflow k htask hnonce =>
    exact h.task (h.ne_of_running (by simp [htask])) (by simp) (by simp) (fun _ => id) (by simp)
      h.drained
  | fund k nonce recipient answers htask hrecipient =>
    have hnonce := h.funding k nonce htask
    have hrunning := h.ne_of_running (k := k) (by simp [htask])
    obtain ⟨tx, hresult, hfunded⟩ | ⟨message, hresult, hmempool, hfunded⟩ | ⟨e, hfunded⟩ :=
      funded_cases (fundAccount p.fundWith recipient p.minBalance answers nonce)
    · rw [hfunded]
      refine h.task hrunning (by simp) ?_ (fun _ => id) (by simp) h.drained
      rintro _ ⟨⟩
      exact isTx_of_fundAccount hrecipient hnonce hresult
    -- a skipped task ends at once, and the refusal is in the record
    · rw [hfunded]
      refine h.task hrunning (by simp) (by simp) (fun _ => id) (fun _ _ => .inl ?_) h.drained
      exact ⟨recipient, nonce, answers, message, hrecipient, hnonce, by simp, hmempool, hresult⟩
    · rw [hfunded]
      exact h.task hrunning (by simp) (by simp) (fun _ => id) (by simp) h.drained
  | crash k nonce htask =>
    exact h.task (h.ne_of_running (by simp [htask])) (by simp) (by simp) (fun _ => id) (by simp)
      h.drained
  | drop k tx htask hclosed =>
    refine h.task (h.ne_of_running (by simp [htask])) (by simp) (by simp) (fun _ => id)
      (fun hok _ => ?_) h.drained
    -- every task has been joined, and this one has not ended
    have hlt := lt_count_of_recipient (h.sending k tx htask).recipient
    have hend := h.joined k (by rwa [joined_of_closed p.count (h.closed.mp hclosed) hok])
    rw [htask] at hend
    cases hend
  | send k tx htask hopen hroom =>
    refine h.task (h.ne_of_running (by simp [htask])) (by simp) (by simp)
      (fun _ => List.mem_append_left _)
      (fun _ _ => .inr ⟨tx, h.sending k tx htask, .inl ?_⟩) fun hdrained => ?_
    · simp
    · have hclosed := h.closed.mpr hdrained.closed
      rw [hopen] at hclosed
      cases hclosed
  | join k hmain htask =>
    -- the main task goes on only from a task that has ended well
    refine h.main (fun _ => List.mem_append_left _) (not_failed_of_main hmain (by simp))
      (fun tx htx => .inl ?_) (fun j hj => ?_) ?_ (fun h => h.elim)
    · simpa [hmain, Main.held] using htx
    · rcases Nat.lt_succ_iff_lt_or_eq.mp hj with hj | rfl
      · exact h.joined j (by rwa [hmain])
      · exact htask
    · have hclosed := h.closed
      rwa [hmain] at hclosed
  | close hmain =>
    refine h.main (fun _ => List.mem_append_left _) (not_failed_of_main hmain (by simp))
      (fun tx htx => .inl ?_) (fun j hj => h.joined j ?_) (iff_of_true rfl trivial)
      (fun h => h.elim)
    · simpa [hmain, Main.held] using htx
    · rwa [hmain]
  | recv pendingTxs tx rest hmain hchannel =>
    have hclosed := h.closed
    rw [hmain] at hclosed
    refine h.main (fun _ => List.mem_append_left _) (not_failed_of_main hmain (by simp))
      (fun tx' htx => .inl ?_) (fun j hj => h.joined j ?_) hclosed (fun h => h.elim)
    · have hmem : tx' = tx ∨ tx' ∈ rest ∨ tx' ∈ pendingTxs := by
        simpa [hmain, hchannel, Main.held] using htx
      simp only [Main.held, List.mem_append, List.mem_singleton]
      tauto
    · rwa [hmain]
  | drained pendingTxs hmain hchannel =>
    have hclosed := h.closed
    rw [hmain] at hclosed
    refine h.main (fun _ => List.mem_append_left _) (not_failed_of_main hmain (by simp))
      (fun tx htx => .inl ?_) (fun j hj => h.joined j ?_) hclosed fun _ => hchannel
    · have hmem : tx ∈ pendingTxs := by simpa [hmain, hchannel, Main.held] using htx
      have hflat : (pendingTxs.chunksOf 100).flatten = pendingTxs :=
        List.flatten_chunksOf (by decide) pendingTxs
      rw [Main.held, hflat]
      exact List.mem_append_right _ hmem
    · rwa [hmain]
  | finish advanced hmain =>
    have hclosed := h.closed
    have hchannel := h.drained (hmain ▸ trivial)
    rw [hmain] at hclosed
    refine h.main (fun _ => List.mem_append_left _) (not_failed_of_main hmain (by simp))
      (fun tx htx => ?_) (fun j hj => h.joined j ?_) hclosed fun _ => hchannel
    · simp [hmain, hchannel, Main.held] at htx
    · rwa [hmain]
  | chunk advanced txs chunks hmain =>
    refine h.watchNext (not_failed_of_main hmain (by simp)) (hmain ▸ trivial) fun tx htx => .inl ?_
    simpa [hmain, Main.held] using htx
  | confirm tx left chunks hmain =>
    refine h.watchNext (not_failed_of_main hmain (by simp)) (hmain ▸ trivial) fun tx' htx => ?_
    have hmem : tx' = tx ∨ tx' ∈ left ++ chunks.flatten := by
      simpa [hmain, Main.held] using htx
    -- the first one leaves the chunk because it is confirmed
    rcases hmem with rfl | hmem
    · exact .inr (List.mem_append_right _ (List.mem_singleton_self _))
    · exact .inl hmem
  | fail e err => exact h.fail err

theorem sound_initial : p.Sound [] .initial where
  funding := fun _ _ htask => by cases htask
  sending := fun _ _ htask => by cases htask
  accounted := fun _ _ htask => by cases htask
  joined := fun _ hk => absurd hk (Nat.not_lt_zero _)
  closed := by simp [State.initial, Main.Closed]
  drained := fun _ => rfl

/-- **Every run.** -/
theorem sound_of_run {w : List Event} (h : Semantics.Execution.run p.step .initial w = some s) :
    p.Sound w s :=
  Semantics.Execution.history_invariant (I := p.Sound)
    (fun _ _ _ _ _ hstep hsound => hsound.move (move_of_step hstep)) [] sound_initial h
    (Semantics.Execution.along_true _ _)

end FundPlan

namespace FundCall

variable (call : FundCall) (checks : FundChecks)

/-- The recipient at this position had at least `min_balance` at the check. -/
def HadEnough (i : ℕ) : Prop :=
  ∃ balance, checks.balance i = .ok balance ∧ call.minBalance ≤ balance

/-- A funding transaction of its own has been confirmed for the address. -/
def Funds (w : List FundPlan.Event) (a : Address) : Prop :=
  ∃ plan k tx, call.prepare checks = .ok plan ∧ plan.recipient k = some a ∧ plan.IsTx k tx ∧
    tx.value = call.minBalance ∧ FundPlan.Confirmed w tx

/-- The task for the address was skipped. -/
def Skips (w : List FundPlan.Event) (a : Address) : Prop :=
  ∃ plan k, call.prepare checks = .ok plan ∧ plan.recipient k = some a ∧ plan.Refused w k

/-- `Ok` is returned only when every recipient had enough or was funded. -/
def ConfirmsBeforeOk : Prop :=
  ∀ w, call.Returns checks w (.ok ()) → ∀ i a, call.recipientAddresses[i]? = some a →
    call.HadEnough checks i ∨ call.Funds checks w a

variable {call checks}

/-- **Confirmed or skipped.** When the call returns `Ok`, every recipient had enough, or its own
transaction was confirmed, or the node refused it with one of the three texts. -/
theorem settlesBeforeOk {w : List FundPlan.Event} (h : call.Returns checks w (.ok ())) {i : ℕ}
    {a : Address} (ha : call.recipientAddresses[i]? = some a) :
    call.HadEnough checks i ∨ call.Funds checks w a ∨ call.Skips checks w a := by
  unfold Returns at h
  split at h
  · cases h
  · rename_i plan hplan
    obtain ⟨s, hrun, hreturned⟩ := h
    obtain ⟨hmin, -, found, hfound, hperm⟩ := of_prepare hplan
    obtain ⟨b, hb, henough | hmem⟩ := mem_findInsufficientBalances hfound ha
    · exact .inl ⟨b, hb, henough⟩
    · right
      have hsound := FundPlan.sound_of_run hrun
      obtain ⟨k, hk⟩ := List.mem_iff_getElem?.mp (hperm.mem_iff.mpr hmem)
      have hrecipient : plan.recipient k = some a := by
        rw [FundPlan.recipient, hk]
        rfl
      -- the call has joined every task
      have htask : s.tasks k = .finished (.ok ()) := by
        refine hsound.joined k ?_
        rw [hreturned]
        exact FundPlan.lt_count_of_recipient hrecipient
      have hok : ¬ s.Failed := FundPlan.not_failed_of_main hreturned (by simp)
      have hchannel := hsound.drained (hreturned ▸ trivial)
      obtain hrefused | ⟨tx, htx, hheld | hconfirmed⟩ := hsound.accounted hok k htask
      · exact .inr ⟨plan, k, hplan, hrecipient, hrefused⟩
      -- nothing is held any more
      · simp [hchannel, hreturned, FundPlan.Main.held] at hheld
      · exact .inl ⟨plan, k, tx, hplan, hrecipient, htx, hmin ▸ htx.value, hconfirmed⟩

end FundCall

namespace TwoRecipients

/-- The first recipient has 500, and the second has nothing. -/
def call : FundCall where
  recipientAddresses := [0xb, 0xc]
  fundWith := 0xa
  minBalance := 100
  callFcu := false
  engineProvider := false

def checks : FundChecks where
  balance i := .ok (if i = 0 then 500 else 0)
  transactionCount := .ok 7
  gasPrice := .ok 10
  chainId := .ok 1
  adminBalance := .ok 1000000
  adminBalanceAgain := .ok 1000000

def answers (send : Except UtilError Unit) : FundAnswers :=
  ⟨.ok 10, .ok 7, .ok 1, .ok (), send⟩

def accepted : FundAnswers := answers (.ok ())

/-- Another transaction of the admin account has the nonce. -/
def underpriced : FundAnswers :=
  answers (.error (.rpc "server returned: Replacement transaction underpriced".toList))

def fundingTx : FundingTx := ⟨0xa, 0xc, 100, 7, 1⟩

/-- The transaction is accepted and confirmed. -/
def confirmedRun : List FundPlan.Event :=
  [.spawn, .spawn, .acquire 0, .fund 0 accepted, .send 0, .join, .close, .recv, .recv,
    .chunk (.ok ()), .watch fundingTx .confirmed, .chunk (.ok ())]

/-- The transaction is refused, and nothing is waited for. -/
def refusedRun : List FundPlan.Event :=
  [.spawn, .spawn, .acquire 0, .fund 0 underpriced, .join, .close, .recv, .chunk (.ok ())]

theorem returns_refusedRun : call.Returns checks refusedRun (.ok ()) := ⟨_, rfl, rfl⟩

/-- The second recipient is left without funds. -/
theorem not_confirmsBeforeOk_refused : ¬ call.ConfirmsBeforeOk checks := by
  intro hconfirms
  obtain ⟨b, hb, henough⟩ | ⟨plan, k, tx, -, -, -, -, hconfirmed⟩ :=
    hconfirms refusedRun returns_refusedRun 1 0xc rfl
  · obtain rfl := Except.ok.inj hb
    exact absurd henough (by decide)
  · unfold FundPlan.Confirmed refusedRun at hconfirmed
    simp at hconfirmed

theorem settlesBeforeOk_confirmed :
    call.Returns checks confirmedRun (.ok ()) ∧
      (call.HadEnough checks 1 ∨ call.Funds checks confirmedRun 0xc ∨
        call.Skips checks confirmedRun 0xc) := by
  have hreturns : call.Returns checks confirmedRun (.ok ()) := ⟨_, rfl, rfl⟩
  exact ⟨hreturns, FundCall.settlesBeforeOk hreturns rfl⟩

end TwoRecipients

end Contender
