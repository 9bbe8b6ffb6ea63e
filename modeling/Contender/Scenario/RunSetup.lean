import Contender.Generator.SetupNonces
import Contender.Generator.SetupSchedule

/-!
# Running the setup

`run_setup` hands each setup transaction to a task of its own: the task prices,
signs and sends the transaction, waits for the receipt, and stores the contract
under its name. A task that gets no gas estimate skips its step without an error.
When `load_txs` returns, the scenario takes over the nonces that were assigned to
the tasks, and not those of the transactions that were sent.

## Main results

* `agrees_iff` — when the nonce map agrees with what was sent
-/

namespace Contender

open EStateM

/-- What `run_setup` reads of a receipt. -/
structure SetupReceipt where
  status : Bool
  transactionHash : TxHash
  contractAddress : Option Address
  deriving DecidableEq, Repr

/-- What the calls of the `i`-th task yield. -/
structure SetupNetwork where
  getGasPrice : Nat → Except Text Nat
  estimateGas : Nat → TransactionRequest → Except Text Nat
  sendRawTransaction : Nat → TxHash → Except Text Unit
  getReceipt : Nat → Except Text SetupReceipt
  insertNamedTxs : Nat → Text → SetupReceipt → Except Text Unit

/-- A task of the setup callback. Its state is the list of the transactions it has
sent. -/
abbrev SetupTaskM := EStateM Text (List TransactionRequest)

/-- `?` in a task. -/
def SetupTaskM.propagate {α : Type} : Except Text α → SetupTaskM α
  | .ok a => pure a
  | .error message => throw message

/-- What `run_setup` reads of a scenario, with its node, wallet and database. -/
structure SetupRunner where
  generator : Generator
  signerMap : AssocMap Address PrivateKeySigner
  txType : TxType
  blobBaseFee : Nat
  build : TransactionRequest → PrivateKeySigner → Except Text TxHash
  database : (k : Nat) → (account : Option Nat) → Text → Except Text (Option NamedTx)
  transactionCount : Address → Except Text Nat
  network : SetupNetwork

namespace SetupRunner

open SetupTaskM

variable (r : SetupRunner)

/-- The callback: it needs a sender with a key, and then starts a task. -/
def onSetupStep (req : NamedTxRequest) : Except Text Bool :=
  match req.tx.fromAddr with
  | none => .error "NamedTxRequest requires a 'from' address".toList
  | some sender =>
    match r.signerMap.lookup sender with
    | none =>
      .error ("couldn't find private key for address ".toList ++
        r.generator.foreign.addressToString sender)
    | some _ => .ok true

def env : SetupEnv where
  database := r.database
  transactionCount := r.transactionCount
  onSetupStep := r.onSetupStep

/-- The gas limit of a setup transaction: its own, or the node's estimate. -/
def gasLimit (i : Nat) (req : NamedTxRequest) : Option Nat :=
  match req.tx.gas with
  | some gas => some gas
  | none => (r.network.estimateGas i req.tx).toOption

/-- The transaction that is signed. -/
def completed (req : NamedTxRequest) (gasPrice gasLimit : Nat) : TransactionRequest :=
  req.tx.complete r.txType gasPrice (gasPrice / 10) gasLimit r.generator.chainId r.blobBaseFee

/-- The text of `SetupTxReverted`. -/
def revertedText (req : NamedTxRequest) (receipt : SetupReceipt) : Text :=
  let label := (req.name.or req.kind).getD []
  "setup tx '".toList ++ label ++ "' reverted: 0x".toList ++
    Nat.paddedHex 64 receipt.transactionHash.toNat

/-- A named transaction is stored with the contract it has deployed. -/
def storeNamed (i : Nat) (req : NamedTxRequest) (receipt : SetupReceipt) : SetupTaskM Unit :=
  match req.name with
  | some name => propagate (r.network.insertNamedTxs i name receipt)
  | none => return ()

/-- The end of a task, once its transaction is sent. -/
def confirm (i : Nat) (req : NamedTxRequest) : SetupTaskM Unit := do
  let receipt ← propagate (r.network.getReceipt i)
  if receipt.status then
    r.storeNamed i req receipt
  else
    throw (revertedText req receipt)

/-- The body of a task. -/
def setupTask (i : Nat) (signer : PrivateKeySigner) (req : NamedTxRequest) : SetupTaskM Unit := do
  let gasPrice ← propagate (r.network.getGasPrice i)
  match r.gasLimit i req with
  -- without an estimate the step is skipped
  | none => return ()
  | some gasLimit =>
    let tx := r.completed req gasPrice gasLimit
    let txHash ← propagate (r.build tx signer)
    propagate (r.network.sendRawTransaction i txHash)
    modify (· ++ [tx])
    r.confirm i req

/-- The tasks that loading starts, in order. -/
def links : List (ChainLink Address NamedTxRequest) :=
  (r.generator.runLoadSetup r.env).state.chains.links

/-- How a task runs; the callback starts none without a key. -/
def runTask (link : ChainLink Address NamedTxRequest) (i : Nat) :
    EStateM.Result Text (List TransactionRequest) Unit :=
  match r.signerMap.lookup link.key with
  | some signer => r.setupTask i signer link.value []
  | none => .ok () []

def outcome (i : Nat) : TaskOutcome :=
  match r.links[i]?.map fun link => r.runTask link i with
  | some (.error message _) => .failed message
  | _ => .ok

/-- The tasks of `run_setup`, for the scheduler. -/
def tasks : SetupTasks := r.generator.setupTasks r.env r.outcome

/-- The transactions that the ended tasks have sent. -/
def sentTxs (s : SetupTasks.State) : List TransactionRequest :=
  r.links.zipIdx.flatMap fun (link, i) => if i ∈ s.finished then (r.runTask link i).state else []

/-- The nonces of a sender's transactions. -/
def noncesBy (a : Address) (txs : List TransactionRequest) : List Nat :=
  (txs.filter fun tx => tx.fromAddr = some a).filterMap fun tx => tx.nonce

/-- The sender has sent consecutive nonces from its start nonce on, and the nonce
map holds the next one. -/
def Agrees (s : SetupTasks.State) (nonces : AssocMap Address Nat) (a : Address) : Prop :=
  ∃ n k, r.generator.startNonce r.env a = some n ∧
    noncesBy a (r.sentTxs s) = List.range' n k ∧ nonces.lookup a = some (n + k)

/-- The senders of setup transactions. -/
def IsSender (a : Address) : Prop := ∃ link ∈ r.links, link.key = a

/-- The node and the wallet let the task send its transaction: the gas price is
answered, the gas limit is set or estimated, the transaction can be signed, and it
is accepted. -/
def Accepts (link : ChainLink Address NamedTxRequest) (i : Nat) : Prop :=
  ∃ signer gasPrice gasLimit txHash, r.signerMap.lookup link.key = some signer ∧
    r.network.getGasPrice i = .ok gasPrice ∧ r.gasLimit i link.value = some gasLimit ∧
      r.build (r.completed link.value gasPrice gasLimit) signer = .ok txHash ∧
        r.network.sendRawTransaction i txHash = .ok ()

/-! ### One task -/

section Task

variable {r : SetupRunner}

theorem run_propagate_bind_ok {α β : Type} {x : Except Text α} {a : α} (hx : x = .ok a)
    (f : α → SetupTaskM β) (s : List TransactionRequest) : (propagate x >>= f) s = f a s := by
  rw [hx]
  rfl

theorem run_propagate_bind_error {α β : Type} {x : Except Text α} {message : Text}
    (hx : x = .error message) (f : α → SetupTaskM β) (s : List TransactionRequest) :
    (propagate x >>= f) s = .error message s := by
  rw [hx]
  rfl

theorem keeps_propagate {α : Type} (x : Except Text α) :
    Keeps (fun s : List TransactionRequest => s) (propagate x) := by
  cases x
  · exact Keeps.throw _
  · exact Keeps.pure _

/-- Nothing is sent after the transaction. -/
theorem keeps_confirm (i : Nat) (req : NamedTxRequest) :
    Keeps (fun s : List TransactionRequest => s) (r.confirm i req) := by
  apply (keeps_propagate _).bind
  intro receipt
  split
  · unfold storeNamed
    split
    · exact keeps_propagate _
    · exact Keeps.pure _
  · exact Keeps.throw _

/-- A task that is let through sends its transaction. -/
theorem runTask_of_accepts {link : ChainLink Address NamedTxRequest} {i : Nat}
    (h : r.Accepts link i) : ∃ tx, (r.runTask link i).state = [tx] ∧
      tx.fromAddr = link.value.tx.fromAddr ∧ tx.nonce = link.value.tx.nonce := by
  obtain ⟨signer, gasPrice, gasLimit, txHash, hsigner, hprice, hlimit, hbuild, hsend⟩ := h
  refine ⟨r.completed link.value gasPrice gasLimit, ?_, TransactionRequest.complete_fromAddr ..,
    TransactionRequest.complete_nonce ..⟩
  simp only [runTask, hsigner, setupTask, run_propagate_bind_ok hprice, hlimit,
    run_propagate_bind_ok hbuild, run_propagate_bind_ok hsend]
  exact keeps_confirm i link.value [r.completed link.value gasPrice gasLimit]

/-- A task that is not let through sends nothing. -/
theorem runTask_of_not_accepts {link : ChainLink Address NamedTxRequest} {i : Nat}
    (h : ¬r.Accepts link i) : (r.runTask link i).state = [] := by
  unfold runTask
  cases hsigner : r.signerMap.lookup link.key with
  | none => rfl
  | some signer =>
    simp only [setupTask]
    cases hprice : r.network.getGasPrice i with
    | error message =>
      rw [run_propagate_bind_error rfl]
      rfl
    | ok gasPrice =>
      rw [run_propagate_bind_ok rfl]
      cases hlimit : r.gasLimit i link.value with
      | none => rfl
      | some gasLimit =>
        cases hbuild : r.build (r.completed link.value gasPrice gasLimit) signer with
        | error message =>
          simp only [hbuild, run_propagate_bind_error rfl]
          rfl
        | ok txHash =>
          cases hsend : r.network.sendRawTransaction i txHash with
          | error message =>
            simp only [hbuild, run_propagate_bind_ok rfl, hsend, run_propagate_bind_error rfl]
            rfl
          | ok u =>
            exact absurd
              ⟨signer, gasPrice, gasLimit, txHash, hsigner, hprice, hlimit, hbuild, hsend⟩ h

end Task

/-! ### What was sent, and what was counted -/

section Setup

variable {r : SetupRunner}

theorem alwaysStarts_env (r : SetupRunner) : Generator.AlwaysStarts r.env := by
  intro req started h
  change r.onSetupStep req = .ok started at h
  unfold onSetupStep at h
  split at h
  · cases h
  · split at h
    · cases h
    · exact (Except.ok.inj h).symm

/-- The task has sent its transaction. -/
def Sent (r : SetupRunner) (p : ChainLink Address NamedTxRequest × Nat) : Bool :=
  (r.runTask p.1 p.2).state ≠ []

theorem sent_iff_accepts {p : ChainLink Address NamedTxRequest × Nat} :
    r.Sent p ↔ r.Accepts p.1 p.2 := by
  constructor
  · intro hsent
    by_contra hrejects
    simp [Sent, runTask_of_not_accepts hrejects] at hsent
  · intro haccepts
    obtain ⟨tx, hsent, -, -⟩ := runTask_of_accepts haccepts
    simp [Sent, hsent]

/-- The nonce a task has used for a sender. -/
theorem noncesBy_runTask {link : ChainLink Address NamedTxRequest} {i : Nat} (a : Address)
    (hfrom : link.value.tx.fromAddr = some link.key) :
    noncesBy a (r.runTask link i).state =
      (if r.Sent (link, i) ∧ link.key = a then link.value.tx.nonce else none).toList := by
  by_cases haccepts : r.Accepts link i
  · obtain ⟨tx, hsent, htx, hnonce⟩ := runTask_of_accepts haccepts
    have hsent' : r.Sent (link, i) := sent_iff_accepts.mpr haccepts
    rw [hsent]
    by_cases ha : link.key = a
    · rw [if_pos ⟨hsent', ha⟩]
      cases hvalue : link.value.tx.nonce with
      | none => simp [noncesBy, htx, hfrom, ha, hnonce, hvalue]
      | some n => simp [noncesBy, htx, hfrom, ha, hnonce, hvalue]
    · rw [if_neg fun h => ha h.2]
      simp [noncesBy, htx, hfrom, ha]
  · rw [runTask_of_not_accepts haccepts, if_neg fun h => haccepts (sent_iff_accepts.mp h.1)]
    rfl

/-- The tasks of a sender, with their numbers. -/
def tasksBy (r : SetupRunner) (a : Address) : List (ChainLink Address NamedTxRequest × Nat) :=
  r.links.zipIdx.filter fun p => p.1.key = a

theorem map_fst_tasksBy (r : SetupRunner) (a : Address) :
    (r.tasksBy a).map Prod.fst = Generator.tasksOf a r.links := by
  rw [Generator.tasksOf, ← List.zipIdx_map_fst 0 r.links, List.filter_map]
  rfl

/-- Once all tasks have ended, the nonces a sender has used are those of its tasks
that have sent. -/
theorem noncesBy_sentTxs {s : SetupTasks.State} (a : Address)
    (hfinished : ∀ i < r.links.length, i ∈ s.finished)
    (hfrom : ∀ link ∈ r.links, link.value.tx.fromAddr = some link.key) :
    noncesBy a (r.sentTxs s) =
      ((r.tasksBy a).filter r.Sent).filterMap fun p => p.1.value.tx.nonce := by
  rw [noncesBy, sentTxs, List.filter_flatMap, List.filterMap_flatMap, tasksBy, List.filter_filter,
    List.filterMap_filter, List.filterMap_eq_flatMap_toList]
  apply List.flatMap_congr
  intro p hp
  obtain ⟨link, i⟩ := p
  have hi : i < r.links.length := by simpa using List.snd_lt_of_mem_zipIdx hp
  have htask := noncesBy_runTask (r := r) (i := i) a (hfrom link (List.fst_mem_of_mem_zipIdx hp))
  simp only [if_pos (hfinished i hi), Bool.and_eq_true, decide_eq_true_eq]
  exact htask

/-- The tasks of a sender have consecutive nonces, and the map holds the next
one. -/
theorem counted_of_isSender {t : SetupState} (hload : r.generator.runLoadSetup r.env = .ok () t)
    {a : Address} (ha : r.IsSender a) :
    ∃ n, r.generator.startNonce r.env a = some n ∧
      (r.tasksBy a).map (fun p => p.1.value.tx.nonce) =
        (List.range' n (r.tasksBy a).length).map some ∧
      t.nextNonce.lookup a = some (n + (r.tasksBy a).length) := by
  have hlinks : t.chains.links = r.links := by
    rw [links, hload]
    rfl
  have hnumbered := (Generator.numbered_runLoadSetup r.alwaysStarts_env hload).nonces a
  unfold Generator.NumberedFor at hnumbered
  rw [hlinks, ← map_fst_tasksBy, List.map_map, List.length_map] at hnumbered
  rcases hnumbered with ⟨hnone, -⟩ | hcounted
  · -- a sender has a task
    obtain ⟨link, hlink, hkey⟩ := ha
    have hmem : link ∈ (r.tasksBy a).map Prod.fst := by
      rw [map_fst_tasksBy]
      exact List.mem_filter.mpr ⟨hlink, by simpa using hkey⟩
    rw [hnone] at hmem
    exact absurd hmem List.not_mem_nil
  · exact hcounted

theorem loaded_of_tasks {loaded : Loaded} (h : r.tasks.loaded = .ok loaded) :
    ∃ t, r.generator.runLoadSetup r.env = .ok () t ∧ loaded.2 = t.nextNonce := by
  cases hload : r.generator.runLoadSetup r.env with
  | ok u t =>
    simp only [tasks, Generator.setupTasks, hload] at h
    obtain rfl := Except.ok.inj h
    exact ⟨t, rfl, rfl⟩
  | error e t =>
    simp only [tasks, Generator.setupTasks, hload] at h
    cases h

/-- **Agreement.** When `run_setup` returns `Ok`, under whatever schedule, every
sender has sent consecutive nonces up to the one that the nonce map holds exactly
when every task was let through to send its transaction. -/
theorem agrees_iff (r : SetupRunner) {w : List SetupTasks.Event} {s : SetupTasks.State}
    {loaded : Loaded} (hrun : Semantics.Execution.run r.tasks.step .initial w = some s)
    (hreturned : s.main = .returned (.ok loaded)) :
    (∀ a, r.IsSender a → r.Agrees s loaded.2 a) ↔
      ∀ i link, r.links[i]? = some link → r.Accepts link i := by
  have hsound := SetupTasks.mainSound_of_run hrun
  have horder := SetupTasks.joinedInOrder_of_run hrun
  simp only [SetupTasks.MainSound, hreturned] at hsound
  obtain ⟨hloaded, hseen⟩ := hsound
  obtain ⟨t, hload, hnonces⟩ := loaded_of_tasks hloaded
  -- all tasks have ended
  have hjoined := horder.joined_all fun i hi => (hseen i hi).1
  have hfinished : ∀ i < r.links.length, i ∈ s.finished := fun i hi =>
    horder.finished i (hjoined i hi)
  have hfrom : ∀ link ∈ r.links, link.value.tx.fromAddr = some link.key := by
    have hlinks : t.chains.links = r.links := by
      rw [links, hload]
      rfl
    rw [← hlinks]
    exact (Generator.numbered_runLoadSetup r.alwaysStarts_env hload).senders
  constructor
  · intro hall i link hlink
    have hsender : r.IsSender link.key := ⟨link, List.mem_of_getElem? hlink, rfl⟩
    obtain ⟨n, k, hn, hsent, hlookup⟩ := hall link.key hsender
    obtain ⟨n', hn', hcounted, hlookup'⟩ := counted_of_isSender hload hsender
    obtain rfl := Option.some.inj (hn.symm.trans hn')
    rw [hnonces, hlookup'] at hlookup
    -- as many transactions were sent as there are tasks, so that none is missing
    have hcount := congrArg List.length hsent
    rw [noncesBy_sentTxs _ hfinished hfrom, List.length_range',
      List.length_filterMap_of_map_eq hcounted List.filter_sublist] at hcount
    have hlength : ((r.tasksBy link.key).filter r.Sent).length = (r.tasksBy link.key).length := by
      have := Option.some.inj hlookup
      omega
    have hmem : (link, i) ∈ r.tasksBy link.key :=
      List.mem_filter.mpr ⟨List.mem_zipIdx_iff_getElem?.mpr hlink, by simp⟩
    exact sent_iff_accepts.mp (List.length_filter_eq_length_iff.mp hlength _ hmem)
  · intro hall a ha
    obtain ⟨n, hn, hcounted, hlookup⟩ := counted_of_isSender hload ha
    refine ⟨n, (r.tasksBy a).length, hn, ?_, by rw [hnonces, hlookup]⟩
    have hsent : (r.tasksBy a).filter r.Sent = r.tasksBy a := by
      refine List.filter_eq_self.mpr fun p hp => sent_iff_accepts.mpr (hall p.2 p.1 ?_)
      exact List.mem_zipIdx_iff_getElem?.mp (List.mem_of_mem_filter hp)
    rw [noncesBy_sentTxs a hfinished hfrom, hsent, List.filterMap_of_map_eq hcounted]

end Setup

namespace TwoSteps

open Generator.OneSender SetupTasks

/-- A node that knows the sender, sends and includes everything, and estimates the
given tasks. -/
def runner (estimates : Nat → Except Text Nat) : SetupRunner where
  generator := twoSteps
  signerMap := AList.insert 0xdead ⟨1, 0xdead⟩ ∅
  txType := .legacy
  blobBaseFee := 0
  build tx _ := .ok (BitVec.ofNat 256 (tx.nonce.getD 0))
  database _ _ _ := .ok none
  transactionCount _ := .ok 5
  network :=
    { getGasPrice := fun _ => .ok 1000
      estimateGas := fun i _ => estimates i
      sendRawTransaction := fun _ _ => .ok ()
      getReceipt := fun i =>
        .ok { status := true, transactionHash := BitVec.ofNat 256 i, contractAddress := none }
      insertNamedTxs := fun _ _ _ => .ok () }

/-- The first estimate fails. -/
def firstSkipped : SetupRunner :=
  runner fun i => if i = 0 then .error "execution reverted".toList else .ok 21000

def allEstimated : SetupRunner := runner fun _ => .ok 21000

/-- What `load_txs` has returned. -/
def loadedOf : Main → Option Loaded
  | .returned (.ok loaded) => some loaded
  | _ => none

theorem loadedOf_eq_some {main : Main} {loaded : Loaded} (h : loadedOf main = some loaded) :
    main = .returned (.ok loaded) := by
  unfold loadedOf at h
  split at h
  · obtain rfl := Option.some.inj h
    rfl
  · cases h

/-- The first step is skipped: nonce 5 is never sent, and the map goes on at 7. -/
theorem not_agrees_of_firstSkipped :
    ∃ s loaded, Semantics.Execution.run firstSkipped.tasks.step .initial (schedule ++ [.await]) =
        some s ∧ s.main = .returned (.ok loaded) ∧
      ¬∀ a, firstSkipped.IsSender a → firstSkipped.Agrees s loaded.2 a := by
  have hview : (Semantics.Execution.run firstSkipped.tasks.step .initial
      (schedule ++ [.await])).map (fun s => ((loadedOf s.main).isSome,
        noncesBy 0xdead (firstSkipped.sentTxs s))) = some (true, [6]) := by
    decide +kernel
  have hsender : firstSkipped.IsSender 0xdead := by
    have hkeys : firstSkipped.links.map ChainLink.key = [0xdead, 0xdead] := by decide +kernel
    have hmem : 0xdead ∈ firstSkipped.links.map ChainLink.key := by simp [hkeys]
    exact List.mem_map.mp hmem
  obtain ⟨s, hrun, hs⟩ := Option.map_eq_some_iff.mp hview
  obtain ⟨hloaded, hsent⟩ := Prod.mk.inj hs
  obtain ⟨loaded, hmain⟩ := Option.isSome_iff_exists.mp hloaded
  refine ⟨s, loaded, hrun, loadedOf_eq_some hmain, fun hall => ?_⟩
  obtain ⟨n, k, hn, hnonces, -⟩ := hall 0xdead hsender
  obtain rfl : 5 = n := Option.some.inj hn
  rw [hsent] at hnonces
  obtain rfl : 1 = k := by simpa using congrArg List.length hnonces
  exact absurd hnonces (by decide)

theorem agrees_of_allEstimated :
    ∃ s loaded, Semantics.Execution.run allEstimated.tasks.step .initial (schedule ++ [.await]) =
        some s ∧ s.main = .returned (.ok loaded) ∧
      ∀ a, allEstimated.IsSender a → allEstimated.Agrees s loaded.2 a := by
  have hview : (Semantics.Execution.run allEstimated.tasks.step .initial
      (schedule ++ [.await])).map (fun s => (loadedOf s.main).isSome) = some true := by
    decide +kernel
  obtain ⟨s, hrun, hs⟩ := Option.map_eq_some_iff.mp hview
  obtain ⟨loaded, hmain⟩ := Option.isSome_iff_exists.mp hs
  refine ⟨s, loaded, hrun, loadedOf_eq_some hmain,
    (agrees_iff allEstimated hrun (loadedOf_eq_some hmain)).mpr fun i link hlink => ?_⟩
  have hlinks : ∀ link ∈ allEstimated.links, link.key = 0xdead ∧ link.value.tx.gas = none := by
    decide +kernel
  obtain ⟨hkey, hgas⟩ := hlinks link (List.mem_of_getElem? hlink)
  refine ⟨⟨1, 0xdead⟩, 1000, 21000, _, ?_, rfl, ?_, rfl, rfl⟩
  · rw [hkey]
    rfl
  · rw [gasLimit, hgas]
    rfl

end TwoSteps

end SetupRunner

end Contender
