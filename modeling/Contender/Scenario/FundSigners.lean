import Contender.Scenario.Requests
import Contender.Semantics.Execution
import Mathlib.Data.List.Flatten
import Mathlib.Data.List.Infix
import Mathlib.Data.List.Sort
import Mathlib.Logic.Function.Basic

/-!
# Funding the signers of an agent

`fund_signers` asks the node how many transactions the funder has made, gives the numbers from there
on to the transactions for the signers of an agent, sends them one after another, and waits until
each of them is in the chain. The calls of several agents, sessions and clients have the same
funder, and nothing keeps them from running at the same time. `initialize` makes one call after the
other.

## Main results

* `transfers_of_ok` — a call that returns without an error has its transfers next to each other in
  the chain, each at its nonce, and nowhere else
* `finished_sublist` — where no two calls run at the same time, the chain has the transfers of all
  calls that have returned without an error, one call after the other
* `initialize_funds` — so it has those of all agents after an initialization
-/

namespace Contender.FundSigners

open Semantics.Execution
open scoped List

/-- One call of `fund_signers`: the accounts of an agent, and what each of them gets. -/
structure Call where
  signers : List Address
  amount : U256

/-- The transaction for one signer. -/
def txRequest (funder address : Address) (amount : U256) (nonce gasPrice chainId : ℕ) :
    TransactionRequest where
  fromAddr := some funder
  toKind := some (.call address)
  maxFeePerGas := some gasPrice
  maxPriorityFeePerGas := some (gasPrice / 10)
  gas := some 21000
  value := some amount
  nonce := some nonce
  chainId := some chainId

/-- The transactions for the signers, with one nonce after the other. -/
def txRequests (funder : Address) (amount : U256) (gasPrice chainId : ℕ) :
    List Address → ℕ → List TransactionRequest
  | [], _ => []
  | address :: signers, nonce =>
    txRequest funder address amount nonce gasPrice chainId ::
      txRequests funder amount gasPrice chainId signers (nonce + 1)

/-- Where a call is: the question it asks the node, or its result. -/
inductive Phase
  | gasPrice
  | transactionCount
  | chainId
  | signing
  | sending (sent : ℕ)
  | watching (landed : ℕ)
  | returned (result : Except Text Unit)

def Phase.isReturned : Phase → Bool
  | .returned _ => true
  | _ => false

/-- The transactions are made, and not all of them have been sent. -/
def Phase.isSending : Phase → Bool
  | .signing | .sending _ => true
  | _ => false

/-- A call with its variables. -/
structure Task where
  phase : Phase := .gasPrice
  gasPrice : ℕ := 0
  nonce : ℕ := 0
  txRequests : List TransactionRequest := []

/-- The transactions of the funder that are in the chain, the calls, and which of them have returned
without an error, in this order. -/
structure State (ι : Type) where
  chain : List TransactionRequest
  tasks : ι → Task
  finished : List ι

/-- What the node answers; the signing is an answer of the wallet. -/
inductive Reply
  | gasPrice (price : ℕ)
  | transactionCount
  | chainId (chainId : ℕ)
  | signed
  | sent
  | landed

inductive Event (ι : Type)
  | answer (i : ι) (result : Except Text Reply)
  /-- A block has one more transaction of the funder, whoever sent it. -/
  | mine (tx : TransactionRequest)

section Step

variable {ι : Type} [DecidableEq ι] (funder : Address) (calls : ι → Call)

namespace State

variable (s : State ι) (i : ι)

def setTask (task : Task) : State ι := { s with tasks := Function.update s.tasks i task }

/-- `?`. -/
def fail (e : Text) : State ι := s.setTask i { s.tasks i with phase := .returned (.error e) }

/-- The loop over the transactions that have been sent. -/
def watchNext (landed : ℕ) : State ι :=
  if landed < (s.tasks i).txRequests.length then
    s.setTask i { s.tasks i with phase := .watching landed }
  else
    { s.setTask i { s.tasks i with phase := .returned (.ok ()) } with
      finished := s.finished ++ [i] }

/-- The loop over the transactions that have been signed. -/
def sendNext (sent : ℕ) : State ι :=
  if sent < (s.tasks i).txRequests.length then
    s.setTask i { s.tasks i with phase := .sending sent }
  else s.watchNext i 0

end State

/-- The call goes on with an answer. -/
def reply (s : State ι) (i : ι) (reply : Reply) : Option (State ι) :=
  let task := s.tasks i
  match task.phase, reply with
  | .gasPrice, .gasPrice price =>
    match toU128 (price * 11) with
    | some boosted =>
      some (s.setTask i { task with phase := .transactionCount, gasPrice := boosted / 10 })
    | none => some (s.fail i "overflow".toList)
  | .transactionCount, .transactionCount =>
    some (s.setTask i { task with phase := .chainId, nonce := s.chain.length })
  | .chainId, .chainId chainId =>
    some (s.setTask i { task with
      phase := .signing
      txRequests := txRequests funder (calls i).amount task.gasPrice chainId (calls i).signers
        task.nonce })
  | .signing, .signed => some (s.sendNext i 0)
  | .sending sent, .sent => some (s.sendNext i (sent + 1))
  | .watching landed, .landed =>
    -- a transaction with a confirmation is in the chain
    if ∀ tx ∈ task.txRequests[landed]?, tx ∈ s.chain then some (s.watchNext i (landed + 1))
    else none
  | _, _ => none

def step (s : State ι) : Event ι → Option (State ι)
  | .answer i (.ok answer) => reply funder calls s i answer
  | .answer i (.error e) => if (s.tasks i).phase.isReturned then none else some (s.fail i e)
  | .mine tx =>
    if tx.nonce = some s.chain.length then some { s with chain := s.chain ++ [tx] } else none

/-- Before any call, and before any transaction of the funder. -/
def State.initial : State ι := ⟨[], fun _ => {}, []⟩

end Step

/-! ### What a step does -/

def Task.isOk (task : Task) : Bool :=
  match task.phase with
  | .returned (.ok _) => true
  | _ => false

/-- What a call can do with an answer, with these transactions of the funder in the chain. -/
inductive Turn (funder : Address) (call : Call) (chain : List TransactionRequest) (task : Task) :
    Except Text Reply → Task → Prop
  | price {r : Except Text Reply} (price : ℕ) (h : task.phase = .gasPrice) :
    Turn funder call chain task r { task with phase := .transactionCount, gasPrice := price }
  | count (h : task.phase = .transactionCount) :
    Turn funder call chain task (.ok .transactionCount)
      { task with phase := .chainId, nonce := chain.length }
  | build {r : Except Text Reply} (chainId : ℕ) (h : task.phase = .chainId) :
    Turn funder call chain task r { task with
      phase := .signing
      txRequests := txRequests funder call.amount task.gasPrice chainId call.signers task.nonce }
  | send {r : Except Text Reply} (sent : ℕ) (h : task.phase.isSending = true) :
    Turn funder call chain task r { task with phase := .sending sent }
  | watch {r : Except Text Reply} (h : task.phase.isSending = true) :
    Turn funder call chain task r { task with phase := .watching 0 }
  | land {r : Except Text Reply} (k : ℕ) (h : task.phase = .watching k)
      (hmem : ∀ tx ∈ task.txRequests[k]?, tx ∈ chain) :
    Turn funder call chain task r { task with phase := .watching (k + 1) }
  | none {r : Except Text Reply} (h : task.phase.isSending = true) (hnil : task.txRequests = []) :
    Turn funder call chain task r { task with phase := .returned (.ok ()) }
  | last {r : Except Text Reply} (k : ℕ) (h : task.phase = .watching k)
      (hmem : ∀ tx ∈ task.txRequests[k]?, tx ∈ chain) (hle : task.txRequests.length ≤ k + 1) :
    Turn funder call chain task r { task with phase := .returned (.ok ()) }
  | fail {r : Except Text Reply} (e : Text) (h : task.phase.isReturned = false) :
    Turn funder call chain task r { task with phase := .returned (.error e) }

section Moves

variable {ι : Type} [DecidableEq ι] {funder : Address} {calls : ι → Call} {s t : State ι} {i : ι}

/-- The state after a turn of a call. -/
def State.turn (s : State ι) (i : ι) (task : Task) : State ι :=
  { s.setTask i task with finished := if task.isOk then s.finished ++ [i] else s.finished }

@[simp] theorem tasks_turn_self (task : Task) : (s.turn i task).tasks i = task := by
  change Function.update s.tasks i task i = task
  rw [Function.update_self]

theorem tasks_turn_of_ne {j : ι} {task : Task} (h : j ≠ i) :
    (s.turn i task).tasks j = s.tasks j := by
  change Function.update s.tasks i task j = _
  rw [Function.update_of_ne h]

/-- What a call does when its transactions are signed, or one more has been sent. -/
theorem turn_sendNext {r : Except Text Reply} (sent : ℕ)
    (h : (s.tasks i).phase.isSending = true) :
    ∃ task, Turn funder (calls i) s.chain (s.tasks i) r task ∧
      s.sendNext i sent = s.turn i task := by
  unfold State.sendNext State.watchNext
  split_ifs with hsent hlt
  · exact ⟨_, .send sent h, rfl⟩
  · exact ⟨_, .watch h, rfl⟩
  · exact ⟨_, .none h (List.eq_nil_of_length_eq_zero (Nat.eq_zero_of_not_pos hlt)), rfl⟩

/-- What a call does when one more of its transactions is in the chain. -/
theorem turn_watchNext {r : Except Text Reply} {k : ℕ} (h : (s.tasks i).phase = .watching k)
    (hmem : ∀ tx ∈ (s.tasks i).txRequests[k]?, tx ∈ s.chain) :
    ∃ task, Turn funder (calls i) s.chain (s.tasks i) r task ∧
      s.watchNext i (k + 1) = s.turn i task := by
  unfold State.watchNext
  split_ifs with hlt
  · exact ⟨_, .land k h hmem, rfl⟩
  · exact ⟨_, .last k h hmem (Nat.le_of_not_lt hlt), rfl⟩

/-- An answer lets the call take a turn. -/
theorem turn_of_reply {answer : Reply} (h : reply funder calls s i answer = some t) :
    ∃ task, Turn funder (calls i) s.chain (s.tasks i) (.ok answer) task ∧
      t = s.turn i task := by
  simp only [reply] at h
  split at h
  case h_1 =>
    rename_i hphase
    split at h
    · obtain rfl := Option.some.inj h
      exact ⟨_, .price _ hphase, rfl⟩
    · obtain rfl := Option.some.inj h
      exact ⟨_, .fail _ (by rw [hphase]; rfl), rfl⟩
  case h_2 =>
    rename_i hphase
    obtain rfl := Option.some.inj h
    exact ⟨_, .count hphase, rfl⟩
  case h_3 =>
    rename_i hphase
    obtain rfl := Option.some.inj h
    exact ⟨_, .build _ hphase, rfl⟩
  case h_4 =>
    rename_i hphase
    obtain rfl := Option.some.inj h
    exact turn_sendNext 0 (by rw [hphase]; rfl)
  case h_5 =>
    rename_i hphase
    obtain rfl := Option.some.inj h
    exact turn_sendNext _ (by rw [hphase]; rfl)
  case h_6 =>
    rename_i hphase
    split at h
    case isTrue hmem =>
      obtain rfl := Option.some.inj h
      exact turn_watchNext hphase hmem
    case isFalse => cases h
  case h_7 => cases h

/-- A step is a turn of a call, or a transaction comes into the chain. -/
theorem move_of_step {e : Event ι} (h : step funder calls s e = some t) :
    (∃ tx, tx.nonce = some s.chain.length ∧ t = { s with chain := s.chain ++ [tx] }) ∨
      ∃ i r task, e = .answer i r ∧ Turn funder (calls i) s.chain (s.tasks i) r task ∧
        t = s.turn i task := by
  cases e with
  | answer i result =>
    right
    cases result with
    | ok answer =>
      obtain ⟨task, hturn, ht⟩ := turn_of_reply h
      exact ⟨i, _, task, rfl, hturn, ht⟩
    | error e =>
      simp only [step] at h
      split_ifs at h with hreturned
      obtain rfl := Option.some.inj h
      exact ⟨i, _, _, rfl, .fail e (by simpa using hreturned), rfl⟩
  | mine tx =>
    left
    simp only [step] at h
    split_ifs at h with hnonce
    exact ⟨tx, hnonce, (Option.some.inj h).symm⟩

end Moves

/-! ### The transfers of a call -/

section Transfers

variable {funder address : Address} {amount : U256} {gasPrice chainId nonce k : ℕ}
  {signers : List Address} {tx : TransactionRequest} {chain : List TransactionRequest}

theorem getElem?_txRequests (nonce k : ℕ) :
    (txRequests funder amount gasPrice chainId signers nonce)[k]? =
      signers[k]?.map fun address =>
        txRequest funder address amount (nonce + k) gasPrice chainId := by
  induction signers generalizing nonce k with
  | nil => rfl
  | cons address signers ih =>
    cases k with
    | zero => rfl
    | succ k =>
      rw [txRequests, List.getElem?_cons_succ, List.getElem?_cons_succ, ih, Nat.add_right_comm]
      rfl

theorem nonce_of_getElem?_txRequests
    (h : (txRequests funder amount gasPrice chainId signers nonce)[k]? = some tx) :
    tx.nonce = some (nonce + k) := by
  rw [getElem?_txRequests, Option.map_eq_some_iff] at h
  obtain ⟨address, -, rfl⟩ := h
  rfl

/-- Each transaction of the funder has its nonce as its place in the chain. -/
def InPlace (chain : List TransactionRequest) : Prop :=
  ∀ (k : ℕ) (tx : TransactionRequest), chain[k]? = some tx → tx.nonce = some k

theorem InPlace.concat (h : InPlace chain) (htx : tx.nonce = some chain.length) :
    InPlace (chain ++ [tx]) := by
  intro k tx' hget
  rcases Nat.lt_trichotomy k chain.length with hlt | rfl | hgt
  · exact h k tx' (List.getElem?_append_left hlt ▸ hget)
  · obtain rfl : tx = tx' := Option.some.inj (List.getElem?_concat_length.symm.trans hget)
    exact htx
  · rw [List.getElem?_eq_none (by rw [List.length_append]; exact hgt)] at hget
    cases hget

theorem InPlace.getElem?_of_mem (h : InPlace chain) (hmem : tx ∈ chain) (htx : tx.nonce = some k) :
    chain[k]? = some tx := by
  obtain ⟨m, hm⟩ := List.getElem?_of_mem hmem
  obtain rfl : m = k := Option.some.inj ((h m tx hm).symm.trans htx)
  exact hm

theorem InPlace.nodup (h : InPlace chain) : chain.Nodup := by
  refine List.nodup_iff_getElem?_ne_getElem?.mpr fun i j hij hlt heq => ?_
  obtain ⟨tx, hj⟩ : ∃ tx, chain[j]? = some tx := ⟨_, List.getElem?_eq_getElem hlt⟩
  exact absurd (Option.some.inj ((h i tx (heq.trans hj)).symm.trans (h j tx hj))) hij.ne

/-- The call has made its transactions, for the nonces from the count on that it has read, and the
first `k` of them are in the chain. -/
structure Built (funder : Address) (call : Call) (chain : List TransactionRequest) (task : Task)
    (k : ℕ) : Prop where
  requests : ∃ chainId, task.txRequests =
    txRequests funder call.amount task.gasPrice chainId call.signers task.nonce
  le_length : task.nonce ≤ chain.length
  landed : ∀ j < k, ∀ tx ∈ task.txRequests[j]?, chain[task.nonce + j]? = some tx

/-- What a call has done where it is. -/
def Fits (funder : Address) (call : Call) (chain : List TransactionRequest) (task : Task) : Prop :=
  match task.phase with
  | .gasPrice | .transactionCount | .returned (.error _) => True
  | .chainId => task.nonce ≤ chain.length
  | .signing | .sending _ => Built funder call chain task 0
  | .watching k => Built funder call chain task k
  | .returned (.ok _) => Built funder call chain task task.txRequests.length

variable {call : Call} {task task' : Task} {r : Except Text Reply}

theorem Built.concat (h : Built funder call chain task k) (tx : TransactionRequest) :
    Built funder call (chain ++ [tx]) task k where
  requests := h.requests
  le_length := by
    rw [List.length_append]
    exact h.le_length.trans (Nat.le_add_right _ _)
  landed j hj tx' htx' := by
    have hget := h.landed j hj tx' htx'
    exact (List.getElem?_append_left (List.getElem?_eq_some_iff.mp hget).1).trans hget

theorem Fits.concat (h : Fits funder call chain task) (tx : TransactionRequest) :
    Fits funder call (chain ++ [tx]) task := by
  unfold Fits at h ⊢
  split at h
  case h_4 =>
    rw [List.length_append]
    exact h.trans (Nat.le_add_right _ _)
  case h_5 | h_6 | h_7 | h_8 => exact h.concat tx
  all_goals trivial

theorem Built.zero_of_isSending (h : Fits funder call chain task)
    (hphase : task.phase.isSending = true) : Built funder call chain task 0 := by
  unfold Fits at h
  cases hat : task.phase with
  | signing => rwa [hat] at h
  | sending k => rwa [hat] at h
  | _ => rw [hat] at hphase; cases hphase

/-- The next transaction has come into the chain, at its place. -/
theorem Built.succ (h : Built funder call chain task k) (hchain : InPlace chain)
    (hmem : ∀ tx ∈ task.txRequests[k]?, tx ∈ chain) : Built funder call chain task (k + 1) where
  requests := h.requests
  le_length := h.le_length
  landed j hj tx htx := by
    rcases Nat.lt_succ_iff_lt_or_eq.mp hj with hlt | rfl
    · exact h.landed j hlt tx htx
    · obtain ⟨chainId, hrequests⟩ := h.requests
      have hget : task.txRequests[j]? = some tx := htx
      exact hchain.getElem?_of_mem (hmem tx htx)
        (nonce_of_getElem?_txRequests (hrequests ▸ hget))

theorem Built.of_le {m : ℕ} (h : Built funder call chain task k) (hle : m ≤ k) :
    Built funder call chain task m where
  requests := h.requests
  le_length := h.le_length
  landed j hj := h.landed j (hj.trans_le hle)

/-- The transactions follow on those that the funder had made before. -/
theorem Built.prefix_drop (h : Built funder call chain task task.txRequests.length) :
    task.txRequests <+: chain.drop task.nonce := by
  refine List.prefix_iff_getElem?.mpr fun j hj => ?_
  rw [List.getElem?_drop]
  exact h.landed j hj _ (List.getElem?_eq_getElem hj)

theorem Built.goTo (h : Built funder call chain task k) (phase : Phase) :
    Built funder call chain { task with phase } k := ⟨h.requests, h.le_length, h.landed⟩

theorem Turn.fits (hturn : Turn funder call chain task r task') (hchain : InPlace chain)
    (h : Fits funder call chain task) : Fits funder call chain task' := by
  cases hturn with
  | price => trivial
  | count => exact le_rfl
  | build chainId hphase =>
    have hle : task.nonce ≤ chain.length := by
      unfold Fits at h
      rwa [hphase] at h
    exact ⟨⟨chainId, rfl⟩, hle, fun j hj => absurd hj j.not_lt_zero⟩
  | send sent hphase => exact (Built.zero_of_isSending h hphase).goTo _
  | watch hphase => exact (Built.zero_of_isSending h hphase).goTo _
  | land k hphase hmem =>
    unfold Fits at h
    rw [hphase] at h
    exact (h.succ hchain hmem).goTo _
  | none hphase hnil =>
    have hlength : task.txRequests.length ≤ 0 := by rw [hnil, List.length_nil]
    exact ((Built.zero_of_isSending h hphase).of_le hlength).goTo _
  | last k hphase hmem hle =>
    unfold Fits at h
    rw [hphase] at h
    exact ((h.succ hchain hmem).of_le hle).goTo _
  | fail => trivial

end Transfers

/-! ### Runs -/

section Runs

variable {ι : Type} [DecidableEq ι] {funder : Address} {calls : ι → Call} {s t : State ι}
  {w : List (Event ι)}

structure Sound (funder : Address) (calls : ι → Call) (s : State ι) : Prop where
  inPlace : InPlace s.chain
  fits : ∀ i, Fits funder (calls i) s.chain (s.tasks i)

theorem sound_step {e : Event ι} (h : step funder calls s e = some t)
    (hs : Sound funder calls s) : Sound funder calls t := by
  rcases move_of_step h with ⟨tx, htx, rfl⟩ | ⟨i, r, task, -, hturn, rfl⟩
  · exact ⟨hs.inPlace.concat htx, fun i => (hs.fits i).concat tx⟩
  · refine ⟨hs.inPlace, fun j => ?_⟩
    rcases eq_or_ne j i with rfl | hne
    · rw [tasks_turn_self]
      exact hturn.fits hs.inPlace (hs.fits j)
    · rw [tasks_turn_of_ne hne]
      exact hs.fits j

omit [DecidableEq ι] in
theorem sound_initial : Sound funder calls .initial :=
  ⟨fun k tx hget => (by cases hget), fun i => trivial⟩

theorem sound_of_run (hrun : run (step funder calls) .initial w = some s) :
    Sound funder calls s :=
  invariant (I := Sound funder calls) (fun _ _ _ _ hstep hs => sound_step hstep hs) sound_initial
    hrun (along_true _ _)

omit [DecidableEq ι] in
theorem built_of_ok (hs : Sound funder calls s) {i : ι} (hok : (s.tasks i).isOk = true) :
    Built funder (calls i) s.chain (s.tasks i) (s.tasks i).txRequests.length := by
  have hfits := hs.fits i
  unfold Task.isOk at hok
  unfold Fits at hfits
  split at hok
  case h_1 hphase => rwa [hphase] at hfits
  case h_2 => cases hok

/-- **Finished calls.** A call that has returned without an error has its transfers next to each
other in the chain, each at its nonce, and nowhere else. -/
theorem transfers_of_ok (hrun : run (step funder calls) .initial w = some s) {i : ι}
    (hok : (s.tasks i).isOk = true) :
    ∃ before after gasPrice chainId,
      s.chain = before ++ txRequests funder (calls i).amount gasPrice chainId (calls i).signers
        before.length ++ after ∧ s.chain.Nodup := by
  have hs := sound_of_run hrun
  have hbuilt := built_of_ok hs hok
  obtain ⟨chainId, hrequests⟩ := hbuilt.requests
  obtain ⟨after, hafter⟩ := hbuilt.prefix_drop
  have hlength : (s.chain.take (s.tasks i).nonce).length = (s.tasks i).nonce := by
    rw [List.length_take]
    exact min_eq_left hbuilt.le_length
  refine ⟨s.chain.take (s.tasks i).nonce, after, (s.tasks i).gasPrice, chainId, ?_,
    hs.inPlace.nodup⟩
  rw [hlength, ← hrequests, List.append_assoc, hafter, List.take_append_drop]

end Runs

namespace TwoAgents

/-- Two agents, with two accounts and one. -/
def agents : Bool → Call
  | false => ⟨[0xa, 0xb], 5⟩
  | true => ⟨[0xc], 7⟩

/-- What the transactions of an agent are when they begin at a nonce. -/
def transfers (i : Bool) (nonce : ℕ) : List TransactionRequest :=
  txRequests 0x1 (agents i).amount 11 1 (agents i).signers nonce

/-- The first answers, up to the signing. -/
def begins {ι : Type} (i : ι) : List (Event ι) :=
  [.answer i (.ok (.gasPrice 10)), .answer i (.ok .transactionCount),
    .answer i (.ok (.chainId 1)), .answer i (.ok .signed)]

/-- The transactions are sent, come into the chain, and are seen there. -/
def ends {ι : Type} (i : ι) (txs : List TransactionRequest) : List (Event ι) :=
  txs.map (fun _ => .answer i (.ok .sent)) ++ txs.map .mine ++
    txs.map fun _ => .answer i (.ok .landed)

/-- Both calls begin with the same count, and the first one finishes. -/
def crossed : List (Event Bool) :=
  begins false ++ begins true ++ ends false (transfers false 0)

theorem transfers_of_ok_crossed :
    ∃ s, run (step 0x1 agents) .initial crossed = some s ∧
      (s.tasks true).phase.isSending = true ∧
      ∃ before after gasPrice chainId, s.chain = before ++ txRequests 0x1 (agents false).amount
        gasPrice chainId (agents false).signers before.length ++ after ∧ s.chain.Nodup := by
  have hends : (run (step 0x1 agents) .initial crossed).any
      (fun s => (s.tasks false).isOk && (s.tasks true).phase.isSending) = true := by decide
  obtain ⟨s, hs, hphases⟩ := (Option.any_eq_true _ _).mp hends
  obtain ⟨hok, hsending⟩ := Bool.and_eq_true_iff.mp hphases
  exact ⟨s, hs, hsending, transfers_of_ok hs hok⟩

end TwoAgents

/-! ### One call at a time -/

section Alone

variable {ι : Type} [DecidableEq ι] {funder : Address} {calls : ι → Call} {s t : State ι}
  {w : List (Event ι)}

/-- The call has read the count, and has not returned. -/
def Phase.isRunning : Phase → Bool
  | .chainId | .signing | .sending _ | .watching _ => true
  | .gasPrice | .transactionCount | .returned _ => false

/-- A call reads the count when no other call is running. -/
def Alone (s : State ι) : Event ι → Prop
  | .answer i (.ok .transactionCount) => ∀ j ≠ i, (s.tasks j).phase.isRunning = false
  | _ => True

instance Alone.decidable [Fintype ι] (s : State ι) (e : Event ι) : Decidable (Alone s e) := by
  unfold Alone
  split <;> infer_instance

/-- The transactions of the calls that have finished are in the chain one call after the other, and
a running call has read a count behind them. -/
structure Settled (s : State ι) : Prop where
  nodup : s.finished.Nodup
  isOk : ∀ i, i ∈ s.finished ↔ (s.tasks i).isOk = true
  placed : ∃ m ≤ s.chain.length,
    s.finished.flatMap (fun i => (s.tasks i).txRequests) <+ s.chain.take m ∧
      ∀ i, (s.tasks i).phase.isRunning = true → m ≤ (s.tasks i).nonce
  alone : ∀ i j, (s.tasks i).phase.isRunning = true → (s.tasks j).phase.isRunning = true → i = j

/-- What a turn is for the calls that run. -/
inductive Course (chain : List TransactionRequest) (task : Task) (r : Except Text Reply)
    (task' : Task) : Prop
  | starts (hr : r = .ok .transactionCount) (hnonce : task'.nonce = chain.length)
      (hok : task'.isOk = false)
  | stays (hrunning : task'.phase.isRunning = false) (hok : task'.isOk = false)
  | runs (hrunning : task.phase.isRunning = true) (hnonce : task'.nonce = task.nonce)
      (hok : task'.isOk = false)
  | finishes (hrunning : task.phase.isRunning = true) (hnonce : task'.nonce = task.nonce)
      (hphase : task'.phase.isRunning = false) (hok : task'.isOk = true)

theorem isRunning_of_isSending {phase : Phase} (h : phase.isSending = true) :
    phase.isRunning = true := by
  cases phase <;> first | rfl | cases h

theorem Turn.course {call : Call} {chain : List TransactionRequest} {task task' : Task}
    {r : Except Text Reply} (h : Turn funder call chain task r task') :
    Course chain task r task' := by
  cases h with
  | price => exact .stays rfl rfl
  | count => exact .starts rfl rfl rfl
  | build _ hphase => exact .runs (by rw [hphase]; rfl) rfl rfl
  | send _ hphase => exact .runs (isRunning_of_isSending hphase) rfl rfl
  | watch hphase => exact .runs (isRunning_of_isSending hphase) rfl rfl
  | land _ hphase => exact .runs (by rw [hphase]; rfl) rfl rfl
  | none hphase => exact .finishes (isRunning_of_isSending hphase) rfl rfl rfl
  | last _ hphase => exact .finishes (by rw [hphase]; rfl) rfl rfl rfl
  | fail => exact .stays rfl rfl

theorem Turn.isOk_eq_false {call : Call} {chain : List TransactionRequest} {task task' : Task}
    {r : Except Text Reply} (h : Turn funder call chain task r task') : task.isOk = false := by
  unfold Task.isOk
  cases h with
  | price _ hphase | count hphase | build _ hphase | land _ hphase | last _ hphase => rw [hphase]
  | send _ hphase | watch hphase | none hphase =>
    cases hat : task.phase <;> first | rfl | (rw [hat] at hphase; cases hphase)
  | fail _ hphase => cases hat : task.phase <;> first | rfl | (rw [hat] at hphase; cases hphase)

/-- A turn of a call that has not finished leaves the finished ones as they are. -/
theorem flatMap_turn {i : ι} {task : Task} (h : i ∉ s.finished) :
    s.finished.flatMap (fun j => ((s.turn i task).tasks j).txRequests) =
      s.finished.flatMap fun j => (s.tasks j).txRequests := by
  refine List.flatMap_congr fun j hj => ?_
  have hne : j ≠ i := fun heq => h (heq ▸ hj)
  rw [tasks_turn_of_ne hne]

omit [DecidableEq ι] in
theorem Settled.mine (h : Settled s) (tx : TransactionRequest) :
    Settled { s with chain := s.chain ++ [tx] } where
  nodup := h.nodup
  isOk := h.isOk
  placed := by
    obtain ⟨m, hm, hsub, hnonce⟩ := h.placed
    refine ⟨m, ?_, ?_, hnonce⟩
    · rw [List.length_append]
      exact hm.trans (Nat.le_add_right _ _)
    · rwa [List.take_append_of_le_length hm]
  alone := h.alone

/-- A call that is not running after its turn leaves the others as they were. -/
theorem Settled.alone_turn (h : Settled s) {i : ι} {task : Task}
    (hi : task.phase.isRunning = false ∨ ∀ j ≠ i, (s.tasks j).phase.isRunning = false) (j k : ι)
    (hj : ((s.turn i task).tasks j).phase.isRunning = true)
    (hk : ((s.turn i task).tasks k).phase.isRunning = true) : j = k := by
  rcases hi with hi | hothers
  · have hne (l : ι) (hl : ((s.turn i task).tasks l).phase.isRunning = true) : l ≠ i := by
      rintro rfl
      rw [tasks_turn_self, hi] at hl
      cases hl
    rw [tasks_turn_of_ne (hne j hj)] at hj
    rw [tasks_turn_of_ne (hne k hk)] at hk
    exact h.alone j k hj hk
  · have heq (l : ι) (hl : ((s.turn i task).tasks l).phase.isRunning = true) : l = i := by
      by_contra hne
      rw [tasks_turn_of_ne hne, hothers l hne] at hl
      cases hl
    rw [heq j hj, heq k hk]

/-- A turn after which the call has not finished. -/
theorem Settled.turn (h : Settled s) {i : ι} {task : Task} (hnotMem : i ∉ s.finished)
    (hok : task.isOk = false)
    (hnonce : task.phase.isRunning = true → s.chain.length ≤ task.nonce ∨
      (s.tasks i).phase.isRunning = true ∧ task.nonce = (s.tasks i).nonce)
    (hi : task.phase.isRunning = false ∨ ∀ j ≠ i, (s.tasks j).phase.isRunning = false) :
    Settled (s.turn i task) := by
  have hfinished : (s.turn i task).finished = s.finished := if_neg (by rw [hok]; decide)
  refine ⟨hfinished ▸ h.nodup, fun j => ?_, ?_, h.alone_turn hi⟩
  · rw [hfinished]
    rcases eq_or_ne j i with rfl | hne
    · rw [tasks_turn_self, hok]
      exact iff_of_false hnotMem (by decide)
    · rw [tasks_turn_of_ne hne]
      exact h.isOk j
  · obtain ⟨m, hm, hsub, hbehind⟩ := h.placed
    refine ⟨m, hm, ?_, fun j hj => ?_⟩
    · rw [hfinished, flatMap_turn hnotMem]
      exact hsub
    · rcases eq_or_ne j i with rfl | hne
      · rw [tasks_turn_self] at hj ⊢
        rcases hnonce hj with hle | ⟨hrunning, heq⟩
        · exact hm.trans hle
        · rw [heq]
          exact hbehind j hrunning
      · rw [tasks_turn_of_ne hne] at hj ⊢
        exact hbehind j hj

/-- The turn with which a call finishes. -/
theorem Settled.finish (h : Settled s) {i : ι} {task : Task} (hnotMem : i ∉ s.finished)
    (hok : task.isOk = true) (hrunning : (s.tasks i).phase.isRunning = true)
    (hnonce : task.nonce = (s.tasks i).nonce) (hphase : task.phase.isRunning = false)
    (hbuilt : Built funder (calls i) s.chain task task.txRequests.length) :
    Settled (s.turn i task) := by
  have hfinished : (s.turn i task).finished = s.finished ++ [i] := if_pos hok
  refine ⟨?_, fun j => ?_, ?_, h.alone_turn (.inl hphase)⟩
  · rw [hfinished]
    exact List.concat_eq_append ▸ h.nodup.concat hnotMem
  · rw [hfinished, List.mem_append, List.mem_singleton]
    rcases eq_or_ne j i with rfl | hne
    · rw [tasks_turn_self]
      exact iff_of_true (.inr rfl) hok
    · rw [tasks_turn_of_ne hne]
      exact (or_iff_left hne).trans (h.isOk j)
  · obtain ⟨m, hm, hsub, hbehind⟩ := h.placed
    have hmore := hbuilt.prefix_drop
    have hlength := hmore.length_le
    rw [List.length_drop] at hlength
    have hle := hbuilt.le_length
    refine ⟨task.nonce + task.txRequests.length, ?_, ?_, fun j hj => ?_⟩
    · change _ ≤ s.chain.length
      omega
    · rw [hfinished, List.flatMap_append, flatMap_turn hnotMem, List.flatMap_singleton,
        tasks_turn_self]
      change _ <+ s.chain.take (task.nonce + task.txRequests.length)
      rw [List.take_add, ← List.prefix_iff_eq_take.mp hmore]
      have hmle : m ≤ task.nonce := hnonce ▸ hbehind i hrunning
      exact (hsub.trans (List.take_prefix_take_left hmle).sublist).append (List.Sublist.refl _)
    · have hne : j ≠ i := by
        rintro rfl
        rw [tasks_turn_self, hphase] at hj
        cases hj
      rw [tasks_turn_of_ne hne] at hj
      exact absurd (h.alone j i hj hrunning) hne

theorem settled_step {e : Event ι} (hstep : step funder calls s e = some t)
    (hsound : Sound funder calls t) (halone : Alone s e) (h : Settled s) : Settled t := by
  rcases move_of_step hstep with ⟨tx, -, rfl⟩ | ⟨i, r, task, rfl, hturn, rfl⟩
  · exact h.mine tx
  · have hnotMem : i ∉ s.finished := fun hmem => by
      have hok := (h.isOk i).mp hmem
      rw [hturn.isOk_eq_false] at hok
      cases hok
    cases hturn.course with
    | starts hr hnonce hok =>
      subst hr
      exact h.turn hnotMem hok (fun _ => .inl hnonce.ge) (.inr halone)
    | stays hphase hok =>
      refine h.turn hnotMem hok (fun hrunning => ?_) (.inl hphase)
      rw [hphase] at hrunning
      cases hrunning
    | runs hrunning hnonce hok =>
      refine h.turn hnotMem hok (fun _ => .inr ⟨hrunning, hnonce⟩) (.inr fun j hne => ?_)
      by_contra hj
      exact hne (h.alone j i (Bool.not_eq_false _ ▸ hj) hrunning)
    | finishes hrunning hnonce hphase hok =>
      have hbuilt := built_of_ok hsound (i := i) (by rwa [tasks_turn_self])
      rw [tasks_turn_self] at hbuilt
      exact h.finish hnotMem hok hrunning hnonce hphase hbuilt

omit [DecidableEq ι] in
theorem settled_initial : Settled (.initial : State ι) where
  nodup := List.nodup_nil
  isOk i := iff_of_false List.not_mem_nil fun hi => by cases hi
  placed := ⟨0, le_rfl, List.Sublist.refl _, fun i hi => by cases hi⟩
  alone i j hi := by cases hi

omit [DecidableEq ι] in
/-- The transfers of the calls that have finished, as the calls ask for them. -/
theorem transfers_of_settled (hs : Sound funder calls s) (h : Settled s) :
    s.finished.Nodup ∧ (∀ i, i ∈ s.finished ↔ (s.tasks i).isOk = true) ∧
      (∀ i ∈ s.finished, ∃ gasPrice chainId nonce, (s.tasks i).txRequests =
        txRequests funder (calls i).amount gasPrice chainId (calls i).signers nonce) ∧
      s.finished.flatMap (fun i => (s.tasks i).txRequests) <+ s.chain := by
  refine ⟨h.nodup, h.isOk, fun i hi => ?_, ?_⟩
  · obtain ⟨chainId, hrequests⟩ := (built_of_ok hs ((h.isOk i).mp hi)).requests
    exact ⟨_, chainId, _, hrequests⟩
  · obtain ⟨m, -, hsub, -⟩ := h.placed
    exact hsub.trans (List.take_sublist _ _)

/-- **One call at a time.** Where no call reads the count while another one is running, the chain
has the transfers of all calls that have returned without an error, one call after the other. -/
theorem finished_sublist (hrun : run (step funder calls) .initial w = some s)
    (halone : Along (step funder calls) Alone .initial w) :
    s.finished.Nodup ∧ (∀ i, i ∈ s.finished ↔ (s.tasks i).isOk = true) ∧
      (∀ i ∈ s.finished, ∃ gasPrice chainId nonce, (s.tasks i).txRequests =
        txRequests funder (calls i).amount gasPrice chainId (calls i).signers nonce) ∧
      s.finished.flatMap (fun i => (s.tasks i).txRequests) <+ s.chain := by
  have hinv : Sound funder calls s ∧ Settled s := by
    refine invariant (I := fun s => Sound funder calls s ∧ Settled s)
      (fun s e t hok hstep hs => ?_) ⟨sound_initial, settled_initial⟩ hrun halone
    have hsound := sound_step hstep hs.1
    exact ⟨hsound, settled_step hstep hsound hok hs.2⟩
  exact transfers_of_settled hinv.1 hinv.2

end Alone

namespace TwoAgents

/-- One call after the other. -/
def inTurn : List (Event Bool) :=
  begins false ++ ends false (transfers false 0) ++ begins true ++ ends true (transfers true 2)

theorem finished_sublist_inTurn :
    ∃ s, run (step 0x1 agents) .initial inTurn = some s ∧ (∀ i, i ∈ s.finished) ∧
      s.finished.flatMap (fun i => (s.tasks i).txRequests) <+ s.chain := by
  have hends : (run (step 0x1 agents) .initial inTurn).any
      (fun s => (s.tasks false).isOk && (s.tasks true).isOk) = true := by decide
  obtain ⟨s, hs, hoks⟩ := (Option.any_eq_true _ _).mp hends
  obtain ⟨hfirst, hsecond⟩ := Bool.and_eq_true_iff.mp hoks
  obtain ⟨-, hmem, -, hsub⟩ := finished_sublist hs (by decide)
  have hall : ∀ i, (s.tasks i).isOk = true := Bool.forall_bool.mpr ⟨hfirst, hsecond⟩
  exact ⟨s, hs, fun i => (hmem i).mpr (hall i), hsub⟩

end TwoAgents

/-! ### The initialization -/

section Initialize

variable {funder : Address} {calls : ℕ → Call} {s t : State ℕ} {w : List (Event ℕ)}

/-- The loop of `initialize`: a call begins when the call before it has returned without an
error. -/
def InTurn (s : State ℕ) : Event ℕ → Prop
  | .answer i _ => ∀ j < i, (s.tasks j).isOk = true
  | .mine _ => True

instance InTurn.decidable (s : State ℕ) (e : Event ℕ) : Decidable (InTurn s e) := by
  unfold InTurn
  split <;> infer_instance

structure Ordered (s : State ℕ) : Prop where
  isOk_of_lt : ∀ i j, i < j → (s.tasks j).phase ≠ .gasPrice → (s.tasks i).isOk = true
  sorted : s.finished.Pairwise (· < ·)

theorem isRunning_ne_gasPrice {phase : Phase} (h : phase.isRunning = true) : phase ≠ .gasPrice := by
  rintro rfl
  cases h

theorem isOk_ne_gasPrice {task : Task} (h : task.isOk = true) : task.phase ≠ .gasPrice := by
  intro hphase
  unfold Task.isOk at h
  rw [hphase] at h
  cases h

theorem isRunning_of_isOk {task : Task} (h : task.isOk = true) : task.phase.isRunning = false := by
  unfold Task.isOk at h
  split at h
  case h_1 hphase => rw [hphase]; rfl
  case h_2 => cases h

/-- The calls of an initialization are alone. -/
theorem Ordered.alone {e : Event ℕ} (h : Ordered s) (hstep : step funder calls s e = some t)
    (hin : InTurn s e) : Alone s e := by
  cases e with
  | mine => trivial
  | answer i r =>
    cases r with
    | error => trivial
    | ok answer =>
      obtain ⟨task, hturn, -⟩ := turn_of_reply hstep
      cases answer with
      | transactionCount =>
        intro j hne
        rcases lt_or_gt_of_ne hne with hlt | hgt
        · exact isRunning_of_isOk (hin j hlt)
        · by_contra hj
          have hstarted := isRunning_ne_gasPrice (Bool.not_eq_false _ ▸ hj)
          have hok := h.isOk_of_lt i j hgt hstarted
          rw [hturn.isOk_eq_false] at hok
          cases hok
      | _ => trivial

theorem Ordered.step {e : Event ℕ} (h : Ordered s) (hs : Settled s)
    (hstep : step funder calls s e = some t) (hin : InTurn s e) : Ordered t := by
  rcases move_of_step hstep with ⟨tx, -, rfl⟩ | ⟨i, r, task, rfl, hturn, rfl⟩
  · exact ⟨h.isOk_of_lt, h.sorted⟩
  have hnotOk := hturn.isOk_eq_false
  have hne (j : ℕ) (hj : (s.tasks j).isOk = true) : j ≠ i := by
    rintro rfl
    rw [hnotOk] at hj
    cases hj
  constructor
  · intro j k hlt hstarted
    have hok : (s.tasks j).isOk = true := by
      rcases eq_or_ne k i with rfl | hk
      · exact hin j hlt
      · rw [tasks_turn_of_ne hk] at hstarted
        exact h.isOk_of_lt j k hlt hstarted
    rwa [tasks_turn_of_ne (hne j hok)]
  · unfold State.turn
    split_ifs with hfinishes
    · refine List.pairwise_append.mpr ⟨h.sorted, List.pairwise_singleton _ _, fun j hj k hk => ?_⟩
      obtain rfl := List.mem_singleton.mp hk
      have hok := (hs.isOk j).mp hj
      refine lt_of_le_of_ne (Nat.le_of_not_lt fun hlt => ?_) (hne j hok)
      exact hne k (h.isOk_of_lt k j hlt (isOk_ne_gasPrice hok)) rfl
    · exact h.sorted

/-- **Initialization.** When the calls for the first `n` agents have returned without an error, the
chain has all their transfers, one agent after the other. -/
theorem initialize_funds (hrun : run (step funder calls) .initial w = some s)
    (hturn : Along (step funder calls) InTurn .initial w) {n : ℕ}
    (hok : ∀ i < n, (s.tasks i).isOk = true) :
    (∀ i < n, ∃ gasPrice chainId nonce, (s.tasks i).txRequests =
        txRequests funder (calls i).amount gasPrice chainId (calls i).signers nonce) ∧
      (List.range n).flatMap (fun i => (s.tasks i).txRequests) <+ s.chain := by
  have hinv : Sound funder calls s ∧ Settled s ∧ Ordered s := by
    refine invariant (I := fun s => Sound funder calls s ∧ Settled s ∧ Ordered s)
      (fun s e t hin hstep hs => ?_) ⟨sound_initial, settled_initial, ?_⟩ hrun hturn
    · have hsound := sound_step hstep hs.1
      have halone := hs.2.2.alone hstep hin
      exact ⟨hsound, settled_step hstep hsound halone hs.2.1, hs.2.2.step hs.2.1 hstep hin⟩
    · exact ⟨fun i j _ hj => absurd rfl hj, List.Pairwise.nil⟩
  obtain ⟨hsound, hsettled, hordered⟩ := hinv
  obtain ⟨-, hmem, hrequests, hsub⟩ := transfers_of_settled hsound hsettled
  have hfinished (i : ℕ) (hi : i < n) : i ∈ s.finished := (hmem i).mpr (hok i hi)
  have hrange : List.range n <+ s.finished :=
    List.sublist_of_subperm_of_pairwise
      (List.subperm_of_subset List.nodup_range fun i hi => hfinished i (List.mem_range.mp hi))
      List.pairwise_lt_range hordered.sorted
  exact ⟨fun i hi => hrequests i (hfinished i hi), (hrange.flatMap _).trans hsub⟩

end Initialize

namespace TwoAgents

/-- The agents, and none behind them. -/
def agent : ℕ → Call
  | 0 => agents false
  | 1 => agents true
  | _ => ⟨[], 0⟩

def initialization : List (Event ℕ) :=
  begins 0 ++ ends 0 (transfers false 0) ++ begins 1 ++ ends 1 (transfers true 2)

theorem initialize_funds_agents :
    ∃ s, run (step 0x1 agent) .initial initialization = some s ∧
      (∀ i < 2, ∃ gasPrice chainId nonce, (s.tasks i).txRequests =
        txRequests 0x1 (agent i).amount gasPrice chainId (agent i).signers nonce) ∧
      (List.range 2).flatMap (fun i => (s.tasks i).txRequests) <+ s.chain := by
  have hends : (run (step 0x1 agent) .initial initialization).any
      (fun s => (List.range 2).all fun i => (s.tasks i).isOk) = true := by decide
  obtain ⟨s, hs, hoks⟩ := (Option.any_eq_true _ _).mp hends
  exact ⟨s, hs, initialize_funds hs (by decide)
    fun i hi => List.all_eq_true.mp hoks i (List.mem_range.mpr hi)⟩

end TwoAgents

end Contender.FundSigners
