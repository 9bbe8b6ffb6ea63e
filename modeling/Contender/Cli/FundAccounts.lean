import Mathlib.Data.List.Infix
import Mathlib.Data.List.Sort
import Contender.Data.Chunks
import Contender.Data.Traverse
import Contender.Primitives
import Contender.Semantics.Execution

/-!
# Funding accounts

`fund_accounts` sends `min_balance` to every recipient whose balance is lower. The balances are
checked one after another; then each of these recipients gets a task of its own. A task holds a
permit of a semaphore from its start to its end: it sends the funding transaction, and hands the
pending transaction over through a bounded channel. The function joins the tasks in order, closes
the channel, takes the pending transactions out, and waits until each of them is confirmed.

The node is the environment. Its answers to the checks are an argument, and its answers to the
tasks come with the events of a run.

Funding transactions are told apart by their contents; the nonces of two tasks differ.
-/

namespace Contender

inductive UtilError
  | rpc (message : Text)
  | insufficientUserFunds (sender : Address) (have_ need : U256) (chainId : ℕ)
  | other (message : Text)
  deriving DecidableEq, Repr

/-- A funding transaction. It stands for its hash, too. -/
structure FundingTx where
  sender : Address
  recipient : Address
  value : U256
  nonce : ℕ
  chainId : ℕ
  deriving DecidableEq, Repr

inductive FundError
  | util (e : UtilError)
  | engineProviderUninitialized
  | engine (message : Text)
  | fundingTxFailed (tx : FundingTx) (message : Text)
  | fundingTxTimedOut (tx : FundingTx) (secs : ℕ)
  -- a panic, also that of a task that is joined
  | panic
  deriving DecidableEq, Repr

def fundingConcurrencyLimit : ℕ := 25

/-- The capacity of the channel of pending transactions. -/
def pendingTxCapacity : ℕ := 9000

/-! ## The checks before the tasks -/

structure FundCall where
  recipientAddresses : List Address
  fundWith : Address
  minBalance : U256
  callFcu : Bool
  /-- Whether there is an engine provider. -/
  engineProvider : Bool

/-- What the node answers to the checks. -/
structure FundChecks where
  /-- The balance of the recipient at this position. -/
  balance : ℕ → Except UtilError U256
  transactionCount : Except UtilError ℕ
  gasPrice : Except UtilError ℕ
  chainId : Except UtilError ℕ
  adminBalance : Except UtilError U256
  adminBalanceAgain : Except UtilError U256

/-- What the tasks are spawned with. -/
structure FundPlan where
  fundWith : Address
  minBalance : U256
  insufficientBalances : List (Address × U256)
  adminNonce : ℕ
  callFcu : Bool
  engineProvider : Bool

/-- `is_balance_sufficient`. -/
def isBalanceSufficient (minBalance : U256) (answer : Except UtilError U256) :
    Except UtilError (Bool × U256) :=
  answer.map fun balance => (decide (minBalance ≤ balance), balance)

/-- `find_insufficient_balances`. -/
def findInsufficientBalances (minBalance : U256) (balance : ℕ → Except UtilError U256)
    (addresses : List Address) : Except UtilError (List (Address × U256)) :=
  (addresses.zipIdx.mapM fun a =>
    (isBalanceSufficient minBalance (balance a.2)).map fun r =>
      if r.1 then none else some (a.1, r.2)).map fun found => found.filterMap id

/-- Every address had enough, or is found with its balance. -/
theorem mem_findInsufficientBalances {minBalance : U256} {balance : ℕ → Except UtilError U256}
    {addresses : List Address} {found : List (Address × U256)}
    (h : findInsufficientBalances minBalance balance addresses = .ok found) {i : ℕ} {a : Address}
    (ha : addresses[i]? = some a) :
    ∃ b, balance i = .ok b ∧ (minBalance ≤ b ∨ (a, b) ∈ found) := by
  obtain ⟨answers, hanswers, rfl⟩ := Except.map_eq_ok_iff.mp h
  have hmem : (a, i) ∈ addresses.zipIdx := List.mem_zipIdx_iff_getElem?.mpr ha
  obtain ⟨answer, hanswer, hchecked⟩ :=
    (List.mapM_eq_ok_iff.mp hanswers).exists_of_mem_left hmem
  obtain ⟨r, hr, rfl⟩ := Except.map_eq_ok_iff.mp hchecked
  obtain ⟨b, hb, rfl⟩ := Except.map_eq_ok_iff.mp hr
  refine ⟨b, hb, ?_⟩
  by_cases henough : minBalance ≤ b
  · exact .inl henough
  · exact .inr (List.mem_filterMap.mpr ⟨_, hanswer, by simp [henough]⟩)

/-- The answer is a balance below the minimum. -/
def BelowMin (minBalance : U256) (answer : Except UtilError U256) : Prop :=
  ∃ balance, answer = .ok balance ∧ balance < minBalance

instance (minBalance : U256) (answer : Except UtilError U256) :
    Decidable (BelowMin minBalance answer) :=
  match answer with
  | .ok balance => decidable_of_iff (balance < minBalance) (by simp [BelowMin])
  | .error _ => isFalse (by simp [BelowMin])

theorem length_findInsufficientBalances {minBalance : U256}
    {balance : ℕ → Except UtilError U256} {addresses : List Address}
    {found : List (Address × U256)}
    (h : findInsufficientBalances minBalance balance addresses = .ok found) :
    found.length = addresses.zipIdx.countP fun a => BelowMin minBalance (balance a.2) := by
  obtain ⟨answers, hanswers, rfl⟩ := Except.map_eq_ok_iff.mp h
  refine List.length_filterMap_of_mapM_eq_ok hanswers fun a answer hanswer => ?_
  obtain ⟨r, hr, rfl⟩ := Except.map_eq_ok_iff.mp hanswer
  obtain ⟨b, hb, rfl⟩ := Except.map_eq_ok_iff.mp hr
  by_cases henough : minBalance ≤ b
  · simp [BelowMin, hb, henough]
  · have hbelow : b < minBalance := BitVec.not_le.mp henough
    simp [BelowMin, hb, henough, hbelow]

namespace FundCall

variable (call : FundCall) (checks : FundChecks)

/-- `gas_cost_per_tx`. The gas price is a `u128`, and adding to it may overflow. -/
def gasCostPerTx (gasPrice : ℕ) : Except FundError U256 :=
  match toU128 (gasPrice + gasPrice / 10) with
  | some price => .ok (21000 * BitVec.ofNat 256 price)
  | none => .error .panic

/-- The balance of the admin account is checked; what the error says is needed may differ from
what the check requires. -/
def requireFunds (answer : Except UtilError U256) (required need : U256) (chainId : ℕ) :
    Except FundError Unit := do
  let r ← (isBalanceSufficient required answer).mapError .util
  if r.1 then return ()
  else throw (.util (.insufficientUserFunds call.fundWith r.2 need chainId))

/-- The admin account's nonce, and whether it can pay for the recipients that were found. -/
def planFor (insufficientBalances : List (Address × U256)) : Except FundError FundPlan := do
  let adminNonce ← checks.transactionCount.mapError .util
  let gasPrice ← checks.gasPrice.mapError .util
  let gasCost ← gasCostPerTx gasPrice
  let chainId ← checks.chainId.mapError .util
  let count := BitVec.ofNat 256 insufficientBalances.length
  -- both products wrap around
  let totalCost := count * (call.minBalance + gasCost)
  call.requireFunds checks.adminBalance totalCost totalCost chainId
  call.requireFunds checks.adminBalanceAgain (call.minBalance * count) call.minBalance chainId
  return {
    fundWith := call.fundWith
    minBalance := call.minBalance
    insufficientBalances := insufficientBalances
    adminNonce := adminNonce
    callFcu := call.callFcu
    engineProvider := call.engineProvider }

/-- `fund_accounts` up to the tasks. The recipients that were found are sorted by address. -/
def prepare : Except FundError FundPlan := do
  let found ← (findInsufficientBalances call.minBalance checks.balance
    call.recipientAddresses).mapError .util
  call.planFor checks (found.insertionSort fun a b => a.1 ≤ b.1)

variable {call checks}

theorem of_prepare {plan : FundPlan} (h : call.prepare checks = .ok plan) :
    plan.minBalance = call.minBalance ∧ checks.transactionCount = .ok plan.adminNonce ∧ ∃ found,
      findInsufficientBalances call.minBalance checks.balance call.recipientAddresses = .ok found ∧
        plan.insufficientBalances.Perm found := by
  obtain ⟨found, hfound, h⟩ := Except.bind_eq_ok_iff.mp h
  dsimp only [planFor] at h
  obtain ⟨adminNonce, hnonce, h⟩ := Except.bind_eq_ok_iff.mp h
  obtain ⟨gasPrice, -, h⟩ := Except.bind_eq_ok_iff.mp h
  obtain ⟨gasCost, -, h⟩ := Except.bind_eq_ok_iff.mp h
  obtain ⟨chainId, -, h⟩ := Except.bind_eq_ok_iff.mp h
  obtain ⟨-, -, h⟩ := Except.bind_eq_ok_iff.mp h
  obtain ⟨-, -, h⟩ := Except.bind_eq_ok_iff.mp h
  cases h
  exact ⟨rfl, Except.mapError_eq_ok_iff.mp hnonce, found, Except.mapError_eq_ok_iff.mp hfound,
    List.perm_insertionSort _ found⟩

variable (call checks) in
/-- The number of recipients below `min_balance`. -/
def belowMinBalance : ℕ :=
  call.recipientAddresses.zipIdx.countP fun a => BelowMin call.minBalance (checks.balance a.2)

/-- There is a task for each recipient below `min_balance`. -/
theorem length_of_prepare {plan : FundPlan} (h : call.prepare checks = .ok plan) :
    plan.insufficientBalances.length = call.belowMinBalance checks := by
  obtain ⟨-, -, found, hfound, hperm⟩ := of_prepare h
  rw [hperm.length_eq, length_findInsufficientBalances hfound]
  rfl

end FundCall

/-! ## One task -/

/-- The lowercase form of a character. Letters that have no ASCII letter in theirs are left as
they are. -/
def lowercase (c : Char) : Text :=
  if c = '\u212A' then ['k'] else if c = '\u0130' then ['i', '\u0307'] else [c.toLower]

/-- The texts by which a node says that the nonce is taken. -/
def inMempoolTexts : List Text :=
  ["already known".toList, "replacement transaction underpriced".toList,
    "transaction already imported".toList]

/-- The error is taken to mean that the transaction is in the mempool already. -/
def AlreadyInMempool (message : Text) : Prop :=
  ∃ em ∈ inMempoolTexts, em <:+: message.flatMap lowercase

instance (message : Text) : Decidable (AlreadyInMempool message) :=
  inferInstanceAs (Decidable (∃ em ∈ inMempoolTexts, em <:+: message.flatMap lowercase))

/-- What the node answers to one funding task. -/
structure FundAnswers where
  gasPrice : Except UtilError ℕ
  transactionCount : Except UtilError ℕ
  chainId : Except UtilError ℕ
  build : Except UtilError Unit
  send : Except UtilError Unit
  deriving DecidableEq

/-- `fund_account`. The transaction count is asked for even if a nonce is given. -/
def fundAccount (sender recipient : Address) (amount : U256) (answers : FundAnswers)
    (nonce : Option ℕ) : Except UtilError FundingTx := do
  let _ ← answers.gasPrice
  let count ← answers.transactionCount
  let chainId ← answers.chainId
  answers.build
  answers.send
  return ⟨sender, recipient, amount, nonce.getD count, chainId⟩

/-! ## The schedule -/

namespace FundPlan

/-- Where a funding task is. It holds a permit in `funding` and in `sending`. -/
inductive Task
  | unspawned
  | waiting
  | funding (nonce : ℕ)
  -- waiting for room in the channel
  | sending (tx : FundingTx)
  | finished (result : Except FundError Unit)
  deriving DecidableEq

/-- Where `fund_accounts` is. -/
inductive Main
  | spawning (k : ℕ)
  | joining (k : ℕ)
  | draining (pendingTxs : List FundingTx)
  | confirming (chunks : List (List FundingTx))
  | watching (left : List FundingTx) (chunks : List (List FundingTx))
  | returned (result : Except FundError Unit)
  deriving DecidableEq

@[ext]
structure State where
  main : Main
  tasks : ℕ → Task
  channel : List FundingTx
  closed : Bool

def State.initial : State := ⟨.spawning 0, fun _ => .unspawned, [], false⟩

inductive WatchOutcome
  | confirmed
  | failed (message : Text)
  | timedOut
  deriving DecidableEq, Repr

inductive Event
  | spawn
  | acquire (k : ℕ)
  | fund (k : ℕ) (answers : FundAnswers)
  | crash (k : ℕ)
  | send (k : ℕ)
  | join
  | close
  | recv
  | chunk (advanced : Except Text Unit)
  | watch (tx : FundingTx) (outcome : WatchOutcome)
  deriving DecidableEq

variable (p : FundPlan)

def count : ℕ := p.insufficientBalances.length

/-- The recipient of the `k`-th task. -/
def recipient (k : ℕ) : Option Address := (p.insufficientBalances[k]?).map Prod.fst

/-- `admin_nonce + idx`. -/
def nonce (k : ℕ) : Option ℕ := addU64 p.adminNonce k

def Task.HoldsPermit : Task → Prop
  | .funding _ => True
  | .sending _ => True
  | _ => False

instance : DecidablePred Task.HoldsPermit
  | .funding _ => isTrue trivial
  | .sending _ => isTrue trivial
  | .unspawned => isFalse id
  | .waiting => isFalse id
  | .finished _ => isFalse id

/-- The semaphore has a permit left. -/
def PermitFree (s : State) : Prop :=
  (List.range p.count).countP (fun k => (s.tasks k).HoldsPermit) < fundingConcurrencyLimit

instance (s : State) : Decidable (p.PermitFree s) := inferInstanceAs (Decidable (_ < _))

def State.setTask (s : State) (k : ℕ) (task : Task) : State :=
  { s with tasks := Function.update s.tasks k task }

@[simp] theorem State.setTask_self (s : State) (k : ℕ) (task : Task) :
    (s.setTask k task).tasks k = task := by
  simp [State.setTask]

theorem State.setTask_of_ne (s : State) {i k : ℕ} (h : i ≠ k) (task : Task) :
    (s.setTask k task).tasks i = s.tasks i := by
  simp [State.setTask, h]

@[simp] theorem State.setTask_setTask (s : State) (k : ℕ) (task task' : Task) :
    (s.setTask k task).setTask k task' = s.setTask k task' := by
  simp [State.setTask]

/-- The task after `fund_account`. -/
def funded (result : Except UtilError FundingTx) : Task :=
  match result with
  | .ok tx => .sending tx
  | .error (.rpc message) =>
    -- the transaction is skipped
    if AlreadyInMempool message then .finished (.ok ())
    else .finished (.error (.util (.rpc message)))
  | .error e => .finished (.error (.util e))

/-- Returning drops the receiver, and with it what the channel holds. -/
def State.fail (s : State) (e : FundError) : State :=
  { s with main := .returned (.error e), channel := [], closed := true }

/-- The next transaction of the chunk, or the next chunk. -/
def Main.watchNext (left : List FundingTx) (chunks : List (List FundingTx)) : Main :=
  if left = [] then .confirming chunks else .watching left chunks

def step (s : State) : Event → Option State
  | .spawn =>
    match s.main with
    | .spawning k =>
      if k < p.count then some { s.setTask k .waiting with main := .spawning (k + 1) }
      else some { s with main := .joining 0 }
    | _ => none
  | .acquire k =>
    match s.tasks k with
    | .waiting =>
      if p.PermitFree s then
        match p.nonce k with
        | some nonce => some (s.setTask k (.funding nonce))
        -- `admin_nonce + idx` overflows
        | none => some (s.setTask k (.finished (.error .panic)))
      else none
    | _ => none
  | .fund k answers =>
    match s.tasks k, p.recipient k with
    | .funding nonce, some recipient =>
      some (s.setTask k (funded (fundAccount p.fundWith recipient p.minBalance answers nonce)))
    | _, _ => none
  | .crash k =>
    match s.tasks k with
    | .funding _ => some (s.setTask k (.finished (.error .panic)))
    | _ => none
  | .send k =>
    match s.tasks k with
    | .sending tx =>
      -- the result of a send to a closed channel is ignored
      if s.closed then some (s.setTask k (.finished (.ok ())))
      else if s.channel.length < pendingTxCapacity then
        some { s.setTask k (.finished (.ok ())) with channel := s.channel ++ [tx] }
      else none
    | _ => none
  | .join =>
    match s.main with
    | .joining k =>
      match s.tasks k with
      | .finished (.ok ()) => some { s with main := .joining (k + 1) }
      | .finished (.error e) => some (s.fail e)
      -- the task has not ended yet
      | _ => none
    | _ => none
  | .close =>
    match s.main with
    | .joining k =>
      if k = p.count then some { s with main := .draining [], closed := true } else none
    | _ => none
  | .recv =>
    match s.main, s.channel with
    | .draining pendingTxs, tx :: rest =>
      some { s with main := .draining (pendingTxs ++ [tx]), channel := rest }
    -- the channel is closed and empty
    | .draining pendingTxs, [] => some { s with main := .confirming (pendingTxs.chunksOf 100) }
    | _, _ => none
  | .chunk advanced =>
    match s.main with
    -- every chunk is through
    | .confirming [] => some { s with main := .returned (.ok ()) }
    | .confirming (txs :: chunks) =>
      if p.callFcu then
        if p.engineProvider then
          match advanced with
          | .ok _ => some { s with main := .watchNext txs chunks }
          | .error message => some (s.fail (.engine message))
        else some (s.fail .engineProviderUninitialized)
      else some { s with main := .watchNext txs chunks }
    | _ => none
  | .watch tx outcome =>
    match s.main with
    | .watching (next :: left) chunks =>
      if tx = next then
        match outcome with
        | .confirmed => some { s with main := .watchNext left chunks }
        | .failed message => some (s.fail (.fundingTxFailed tx message))
        | .timedOut => some (s.fail (.fundingTxTimedOut tx 24))
      else none
    | _ => none

/-! ### What a step can do -/

/-- The cases of `step`, with their guards. -/
inductive Move (s : State) : Event → State → Prop
  | spawn (k : ℕ) (hmain : s.main = .spawning k) (hk : k < p.count) :
      Move s .spawn { s.setTask k .waiting with main := .spawning (k + 1) }
  | spawned (k : ℕ) (hmain : s.main = .spawning k) (hk : p.count ≤ k) :
      Move s .spawn { s with main := .joining 0 }
  | acquire (k nonce : ℕ) (htask : s.tasks k = .waiting) (hnonce : p.nonce k = some nonce) :
      Move s (.acquire k) (s.setTask k (.funding nonce))
  | overflow (k : ℕ) (htask : s.tasks k = .waiting) (hnonce : p.nonce k = none) :
      Move s (.acquire k) (s.setTask k (.finished (.error .panic)))
  | fund (k nonce : ℕ) (recipient : Address) (answers : FundAnswers)
      (htask : s.tasks k = .funding nonce) (hrecipient : p.recipient k = some recipient) :
      Move s (.fund k answers)
        (s.setTask k (funded (fundAccount p.fundWith recipient p.minBalance answers nonce)))
  | crash (k nonce : ℕ) (htask : s.tasks k = .funding nonce) :
      Move s (.crash k) (s.setTask k (.finished (.error .panic)))
  | drop (k : ℕ) (tx : FundingTx) (htask : s.tasks k = .sending tx) (hclosed : s.closed = true) :
      Move s (.send k) (s.setTask k (.finished (.ok ())))
  | send (k : ℕ) (tx : FundingTx) (htask : s.tasks k = .sending tx) (hopen : s.closed = false)
      (hroom : s.channel.length < pendingTxCapacity) :
      Move s (.send k) { s.setTask k (.finished (.ok ())) with channel := s.channel ++ [tx] }
  | join (k : ℕ) (hmain : s.main = .joining k) (htask : s.tasks k = .finished (.ok ())) :
      Move s .join { s with main := .joining (k + 1) }
  | close (hmain : s.main = .joining p.count) :
      Move s .close { s with main := .draining [], closed := true }
  | recv (pendingTxs : List FundingTx) (tx : FundingTx) (rest : List FundingTx)
      (hmain : s.main = .draining pendingTxs) (hchannel : s.channel = tx :: rest) :
      Move s .recv { s with main := .draining (pendingTxs ++ [tx]), channel := rest }
  | drained (pendingTxs : List FundingTx) (hmain : s.main = .draining pendingTxs)
      (hchannel : s.channel = []) :
      Move s .recv { s with main := .confirming (pendingTxs.chunksOf 100) }
  | finish (advanced : Except Text Unit) (hmain : s.main = .confirming []) :
      Move s (.chunk advanced) { s with main := .returned (.ok ()) }
  | chunk (advanced : Except Text Unit) (txs : List FundingTx) (chunks : List (List FundingTx))
      (hmain : s.main = .confirming (txs :: chunks)) :
      Move s (.chunk advanced) { s with main := .watchNext txs chunks }
  | confirm (tx : FundingTx) (left : List FundingTx) (chunks : List (List FundingTx))
      (hmain : s.main = .watching (tx :: left) chunks) :
      Move s (.watch tx .confirmed) { s with main := .watchNext left chunks }
  | fail (event : Event) (e : FundError) : Move s event (s.fail e)

variable {p} {s t : State}

theorem move_of_step {event : Event} (h : p.step s event = some t) : p.Move s event t := by
  cases event with
  | spawn =>
    simp only [step] at h
    split at h
    · rename_i k hmain
      split_ifs at h with hk <;> obtain rfl := Option.some.inj h
      · exact .spawn k hmain hk
      · exact .spawned k hmain (not_lt.mp hk)
    · cases h
  | acquire k =>
    simp only [step] at h
    split at h
    · rename_i htask
      split_ifs at h
      split at h <;> rename_i hnonce <;> obtain rfl := Option.some.inj h
      · exact .acquire k _ htask hnonce
      · exact .overflow k htask hnonce
    · cases h
  | fund k answers =>
    simp only [step] at h
    split at h
    · rename_i nonce recipient htask hrecipient
      obtain rfl := Option.some.inj h
      exact .fund k nonce recipient answers htask hrecipient
    · cases h
  | crash k =>
    simp only [step] at h
    split at h
    · rename_i nonce htask
      obtain rfl := Option.some.inj h
      exact .crash k nonce htask
    · cases h
  | send k =>
    simp only [step] at h
    split at h
    · rename_i tx htask
      split_ifs at h with hclosed hroom <;> obtain rfl := Option.some.inj h
      · exact .drop k tx htask hclosed
      · exact .send k tx htask (Bool.eq_false_iff.mpr hclosed) hroom
    · cases h
  | join =>
    simp only [step] at h
    split at h
    · rename_i k hmain
      split at h
      · rename_i htask
        obtain rfl := Option.some.inj h
        exact .join k hmain htask
      · obtain rfl := Option.some.inj h
        exact .fail .join _
      · cases h
    · cases h
  | close =>
    simp only [step] at h
    split at h
    · rename_i k hmain
      split_ifs at h with hk
      obtain rfl := Option.some.inj h
      exact .close (hk ▸ hmain)
    · cases h
  | recv =>
    simp only [step] at h
    split at h
    · rename_i pendingTxs tx rest hmain hchannel
      obtain rfl := Option.some.inj h
      exact .recv pendingTxs tx rest hmain hchannel
    · rename_i pendingTxs hmain hchannel
      obtain rfl := Option.some.inj h
      exact .drained pendingTxs hmain hchannel
    · cases h
  | chunk advanced =>
    simp only [step] at h
    split at h
    · rename_i hmain
      obtain rfl := Option.some.inj h
      exact .finish advanced hmain
    · rename_i txs chunks hmain
      split_ifs at h
      · split at h <;> obtain rfl := Option.some.inj h
        · exact .chunk _ txs chunks hmain
        · exact .fail _ _
      · obtain rfl := Option.some.inj h
        exact .fail _ _
      · obtain rfl := Option.some.inj h
        exact .chunk _ txs chunks hmain
    · cases h
  | watch tx outcome =>
    simp only [step] at h
    split at h
    · rename_i next left chunks hmain
      split_ifs at h with htx
      subst htx
      split at h <;> obtain rfl := Option.some.inj h
      · exact .confirm tx left chunks hmain
      · exact .fail _ _
      · exact .fail _ _
    · cases h

end FundPlan

/-- The call ends with the result: the checks fail, or a run of the tasks returns it. -/
def FundCall.Returns (call : FundCall) (checks : FundChecks) (w : List FundPlan.Event)
    (result : Except FundError Unit) : Prop :=
  match call.prepare checks with
  | .error e => result = .error e
  | .ok plan => ∃ s, Semantics.Execution.run plan.step .initial w = some s ∧
      s.main = .returned result

end Contender
