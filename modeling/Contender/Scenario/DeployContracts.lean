import Contender.Data.Places
import Contender.Generator.CreatePlan

/-!
# Deploying the contracts

`deploy_contracts` hands each create step to a task and waits for it before it looks at the next
step. The task estimates the gas, sends the transaction, takes its receipt, and asks for the code at
the address of the contract until the node shows it. Only then is the contract stored under its
name.

The status of the receipt is not read. A transaction that has reverted leaves no code behind, so
that the task waits for it until its time is over.

## Main results

* `deployContracts_ok` — a run that ends well has deployed every step in order: with the next nonces
  of its senders, with code that the node has shown, and with a row in the database before the next
  step
* `deployed_found` — each name is found afterwards, at its last contract
-/

namespace Contender

open SqliteDb (InsertCall History)

/-- What `deploy_contract` reads of a receipt. -/
structure DeployReceipt where
  transactionHash : TxHash
  contractAddress : Option Address
  deriving DecidableEq, Repr

/-- What the node answers, given the transactions it has been sent. The code of an address is asked
for several times, until the waiting time is over. -/
structure DeployNode where
  estimateGas : List TransactionRequest → TransactionRequest → Except Text ℕ
  sendRawTransaction : List TransactionRequest → TxHash → Except Text Unit
  getReceipt : List TransactionRequest → TxHash → Except Text DeployReceipt
  getCodeAt : List TransactionRequest → Address → List (Except Text Bytes)

/-- The transactions sent so far, and the database. -/
structure DeployState where
  sent : List TransactionRequest
  db : SqliteDb.Database

abbrev DeployM := EStateM SetupError DeployState

/-- `?` in a task. -/
def DeployM.propagate {α : Type} : Except Text α → DeployM α
  | .ok a => pure a
  | .error message => throw (.callback message)

/-- What `deploy_contracts` reads of a scenario, with its node, wallet and database. -/
structure Deployer where
  generator : Generator
  signerMap : AssocMap Address PrivateKeySigner
  txType : TxType
  rpcUrl : Text
  genesisHash : BitVec 256
  build : TransactionRequest → PrivateKeySigner → Except Text TxHash
  getGasPrice : Except Text ℕ
  -- falls back to a default
  blobGasPrice : ℕ
  getChainId : Except Text ℕ
  transactionCount : Address → Except Text ℕ
  node : DeployNode

/-- `DeployContractParams::extra_tx_params`. -/
structure ExtraTxParams where
  gasPrice : ℕ
  blobGasPrice : ℕ
  chainId : ℕ

namespace Deployer

open DeployM

variable (d : Deployer) (extra : ExtraTxParams)

/-- The node has shown code; an answer that is an error counts as no code. -/
def CodeVisible (answers : List (Except Text Bytes)) : Bool :=
  answers.any fun answer =>
    match answer with
    | .ok code => !code.isEmpty
    | .error _ => false

/-- `insert_named_txs` for a contract. -/
def insertCall (name : Text) (receipt : DeployReceipt) : InsertCall :=
  ⟨[⟨scenarioDbKey name d.generator.source.scenarioLabel, receipt.transactionHash,
    receipt.contractAddress⟩], d.rpcUrl, d.genesisHash⟩

/-- `db.insert_named_txs(..)?`. -/
def storeNamed (name : Text) (receipt : DeployReceipt) : DeployM Unit := do
  let call := d.insertCall name receipt
  let s ← get
  match s.db.insertNamedTxs call.namedTxs call.rpcUrl call.genesisHash with
  | (db, .ok ()) => set { s with db }
  | (db, .error _) => do
    set { s with db }
    throw (.callback "DB error".toList)

def deployContract (signer : PrivateKeySigner) (req : NamedTxRequest) : DeployM Unit := do
  let gasLimit ← propagate (d.node.estimateGas (← get).sent req.tx)
  let tx := req.tx.complete d.txType extra.gasPrice (extra.gasPrice / 10) gasLimit extra.chainId
    extra.blobGasPrice
  let txHash ← propagate (d.build tx signer)
  propagate (d.node.sendRawTransaction (← get).sent txHash)
  modify fun s => { s with sent := s.sent ++ [tx] }
  let receipt ← propagate (d.node.getReceipt (← get).sent txHash)
  -- the status of the receipt is not looked at, only the code
  let contractAddress := receipt.contractAddress.getD 0
  if CodeVisible (d.node.getCodeAt (← get).sent contractAddress) then
    match req.name with
    | some name => d.storeNamed name receipt
    | none => return ()
  else
    throw (.callback "contract code not visible".toList)

/-- The callback: it needs a sender with a key, and panics without one. -/
def onCreateStep (s : DeployState) (req : NamedTxRequest) : Except SetupError DeployState :=
  match req.tx.fromAddr with
  | none => .error (.callback "NamedTxRequest requires a 'from' address".toList)
  | some sender =>
    match d.signerMap.lookup sender with
    | none => .error (.generator .panic)
    | some signer =>
      match d.deployContract extra signer req s with
      | .ok _ t => .ok t
      | .error e _ => .error e

def createEnv : CreateEnv DeployState where
  getNamedTx s name :=
    match s.db.getNamedTx name d.rpcUrl d.genesisHash with
    | .ok namedTx => .ok (namedTx.map fun n => ⟨n.name, n.address⟩)
    | .error _ => .error "DB error".toList
  transactionCount := d.transactionCount
  onCreateStep := d.onCreateStep extra

/-- `deploy_contracts`. The scenario takes over the nonces of the result, and keeps its own when
there is an error. -/
def deployContracts (steps : List CreateDefinition) (s : DeployState) :
    Except SetupError (CreateState DeployState) := do
  let gasPrice ← d.getGasPrice.mapError .rpc
  let chainId ← d.getChainId.mapError .rpc
  d.generator.loadCreate (d.createEnv ⟨gasPrice, d.blobGasPrice, chainId⟩) steps s

end Deployer

/-! ### What a run has deployed -/

/-- A contract that has been deployed under a name, with the transaction that did it. -/
structure NewContract where
  name : Text
  tx : TransactionRequest
  txHash : TxHash
  receipt : DeployReceipt

namespace NewContract

variable (x : NewContract)

/-- The contract's address; without one the code is asked for at address zero. -/
def address : Address := x.receipt.contractAddress.getD 0

/-- Its row in the database. -/
def insertCall (d : Deployer) : InsertCall := d.insertCall x.name x.receipt

end NewContract

/-- The node has taken the transaction, given the receipt for it, and shown the code, when these
transactions had been sent before. -/
structure HasDeployed (d : Deployer) (sent : List TransactionRequest) (x : NewContract) : Prop where
  accepted : d.node.sendRawTransaction sent x.txHash = .ok ()
  receipt : d.node.getReceipt (sent ++ [x.tx]) x.txHash = .ok x.receipt
  visible : Deployer.CodeVisible (d.node.getCodeAt (sent ++ [x.tx]) x.address) = true

namespace Deployer

open DeployM

variable {d : Deployer} {extra : ExtraTxParams} {s t : DeployState}

theorem propagate_eq_ok {α : Type} {x : Except Text α} {a : α} :
    propagate x s = .ok a t ↔ x = .ok a ∧ s = t := by
  cases x with
  | ok b => rw [propagate, EStateM.pure_eq_ok, Except.ok.injEq]
  | error message => simp [propagate]

theorem storeNamed_eq_ok {name : Text} {receipt : DeployReceipt}
    (h : d.storeNamed name receipt s = .ok ⟨⟩ t) :
    t.sent = s.sent ∧
      s.db.insertNamedTxs (d.insertCall name receipt).namedTxs d.rpcUrl d.genesisHash =
        (t.db, .ok ()) := by
  simp only [storeNamed, EStateM.run_get_bind] at h
  rcases hinsert : s.db.insertNamedTxs (d.insertCall name receipt).namedTxs
    (d.insertCall name receipt).rpcUrl (d.insertCall name receipt).genesisHash with ⟨db, result⟩
  rw [hinsert] at h
  cases result with
  | ok _ =>
    obtain rfl : (⟨s.sent, db⟩ : DeployState) = t := by cases h; rfl
    exact ⟨rfl, hinsert⟩
  | error e => cases h

/-- A task that ends well has deployed the contract, and has stored it last. -/
theorem deployContract_eq_ok {signer : PrivateKeySigner} {req : NamedTxRequest} {name : Text}
    (hname : req.name = some name) (h : d.deployContract extra signer req s = .ok ⟨⟩ t) :
    ∃ x : NewContract, x.name = name ∧ x.tx.fromAddr = req.tx.fromAddr ∧ x.tx.nonce = req.tx.nonce ∧
      HasDeployed d s.sent x ∧ t.sent = s.sent ++ [x.tx] ∧
      s.db.insertNamedTxs (x.insertCall d).namedTxs d.rpcUrl d.genesisHash = (t.db, .ok ()) := by
  rw [deployContract, EStateM.run_get_bind] at h
  obtain ⟨gasLimit, s₁, hgas, h⟩ := EStateM.bind_eq_ok.mp h
  obtain ⟨-, rfl⟩ := propagate_eq_ok.mp hgas
  obtain ⟨txHash, s₁, hbuild, h⟩ := EStateM.bind_eq_ok.mp h
  obtain ⟨-, rfl⟩ := propagate_eq_ok.mp hbuild
  rw [EStateM.run_get_bind] at h
  obtain ⟨⟨⟩, s₁, hsend, h⟩ := EStateM.bind_eq_ok.mp h
  obtain ⟨haccepted, rfl⟩ := propagate_eq_ok.mp hsend
  obtain ⟨⟨⟩, s₁, hsent, h⟩ := EStateM.bind_eq_ok.mp h
  obtain rfl := EStateM.modify_eq_ok.mp hsent
  rw [EStateM.run_get_bind] at h
  obtain ⟨receipt, s₁, hget, h⟩ := EStateM.bind_eq_ok.mp h
  obtain ⟨hreceipt, rfl⟩ := propagate_eq_ok.mp hget
  rw [EStateM.run_get_bind] at h
  split at h
  case isFalse => exact (EStateM.throw_eq_ok h).elim
  case isTrue hvisible =>
    rw [hname] at h
    obtain ⟨hsent, hinsert⟩ := storeNamed_eq_ok h
    -- completing the request keeps its sender and its nonce
    let tx := req.tx.complete d.txType extra.gasPrice (extra.gasPrice / 10) gasLimit extra.chainId
      extra.blobGasPrice
    exact ⟨⟨name, tx, txHash, receipt⟩, rfl, TransactionRequest.complete_fromAddr ..,
      TransactionRequest.complete_nonce .., ⟨haccepted, hreceipt, hvisible⟩, hsent, hinsert⟩

theorem onCreateStep_eq_ok {req : NamedTxRequest} {name : Text} (hname : req.name = some name)
    (h : d.onCreateStep extra s req = .ok t) :
    ∃ x : NewContract, x.name = name ∧ x.tx.fromAddr = req.tx.fromAddr ∧ x.tx.nonce = req.tx.nonce ∧
      HasDeployed d s.sent x ∧ t.sent = s.sent ++ [x.tx] ∧
      s.db.insertNamedTxs (x.insertCall d).namedTxs d.rpcUrl d.genesisHash = (t.db, .ok ()) := by
  rw [onCreateStep] at h
  split at h
  · cases h
  split at h
  · cases h
  split at h
  · rename_i hrun
    obtain rfl := Except.ok.inj h
    exact deployContract_eq_ok hname hrun
  · cases h

/-- The nonce a sender begins with: the tracked one, or the node's count. -/
def startNonce (d : Deployer) (sender : Address) : Except Text ℕ :=
  match d.generator.nonces.lookup sender with
  | some nonce => .ok nonce
  | none => d.transactionCount sender

/-- The number of these contracts that the sender has deployed. -/
def deployedBy (sender : Address) (ds : List NewContract) : ℕ :=
  ds.countP fun x => x.tx.fromAddr = some sender

theorem deployedBy_concat {sender : Address} {ds : List NewContract} {x : NewContract} :
    deployedBy sender (ds ++ [x]) =
      deployedBy sender ds + if x.tx.fromAddr = some sender then 1 else 0 := by
  rw [deployedBy, List.countP_append, List.countP_singleton, deployedBy]
  simp only [decide_eq_true_eq]

end Deployer

/-- The steps have been gone through since the state `s`, and have led to these deployments. -/
structure Deployed (d : Deployer) (s : DeployState) (steps : List CreateDefinition)
    (ds : List NewContract) (t : CreateState DeployState) : Prop where
  names : ds.map NewContract.name = steps.map (·.contract.name)
  sent : t.database.sent = s.sent ++ ds.map NewContract.tx
  each : ForallPlaces (fun done x => HasDeployed d (s.sent ++ done.map NewContract.tx) x) ds
  nonces : ForallPlaces (fun done x => ∃ sender start, x.tx.fromAddr = some sender ∧
    d.startNonce sender = .ok start ∧
      x.tx.nonce = some (start + Deployer.deployedBy sender done)) ds
  untouched : ∀ a, Deployer.deployedBy a ds = 0 →
    t.nextNonce.lookup a = d.generator.nonces.lookup a
  next : ∀ a, 0 < Deployer.deployedBy a ds → ∃ start, d.startNonce a = .ok start ∧
    t.nextNonce.lookup a = some (start + Deployer.deployedBy a ds)
  stored : ∀ h : History, h.db = s.db →
    ds.foldl (fun h x => h.call (x.insertCall d)) h =
      ⟨t.database.db, h.inserted ++ ds.map (·.insertCall d)⟩

namespace Deployer

variable {d : Deployer} {extra : ExtraTxParams} {s : DeployState} {t u : CreateState DeployState}

theorem createNonce_eq_ok {σ : Type} {env : CreateEnv σ} {sender : Address}
    {nextNonce nextNonce' : AssocMap Address ℕ} {nonce : ℕ}
    (h : Generator.createNonce env sender nextNonce = .ok (nonce, nextNonce')) :
    nextNonce' = nextNonce.insert sender (nonce + 1) ∧
      (nextNonce.lookup sender = some nonce ∨
        nextNonce.lookup sender = none ∧ env.transactionCount sender = .ok nonce) := by
  cases hlookup : nextNonce.lookup sender with
  | some m =>
    simp only [Generator.createNonce, hlookup, Except.bind_eq_ok_iff, Except.pure_eq_ok_iff] at h
    obtain ⟨n, hn, next, hnext, heq⟩ := h
    obtain ⟨rfl, rfl⟩ := Prod.mk.inj heq
    obtain ⟨rfl, -⟩ := addU64_eq_some.mp (orError_eq_ok.mp (Except.mapError_eq_ok_iff.mp hnext))
    exact ⟨rfl, .inl (congrArg some (Except.ok.inj hn))⟩
  | none =>
    simp only [Generator.createNonce, hlookup, Except.bind_eq_ok_iff, Except.pure_eq_ok_iff] at h
    obtain ⟨n, hn, next, hnext, heq⟩ := h
    obtain ⟨rfl, rfl⟩ := Prod.mk.inj heq
    obtain ⟨rfl, -⟩ := addU64_eq_some.mp (orError_eq_ok.mp (Except.mapError_eq_ok_iff.mp hnext))
    exact ⟨rfl, .inr ⟨rfl, Except.mapError_eq_ok_iff.mp hn⟩⟩

/-- The next nonce of a sender, by what it has deployed. -/
theorem nonce_of_lookup {steps : List CreateDefinition} {ds : List NewContract}
    (h : Deployed d s steps ds t) {sender : Address} {nonce : ℕ}
    (hnonce : t.nextNonce.lookup sender = some nonce ∨
      t.nextNonce.lookup sender = none ∧ d.transactionCount sender = .ok nonce) :
    ∃ start, d.startNonce sender = .ok start ∧ nonce = start + deployedBy sender ds := by
  rcases Nat.eq_zero_or_pos (deployedBy sender ds) with hzero | hpos
  -- the first contract of the sender, which begins with the tracked nonce or the node's
  · rw [h.untouched sender hzero] at hnonce
    refine ⟨nonce, ?_, by rw [hzero, Nat.add_zero]⟩
    rw [startNonce]
    rcases hnonce with hlookup | ⟨hlookup, hcount⟩
    · rw [hlookup]
    · rw [hlookup]
      exact hcount
  · obtain ⟨start, hstart, hlookup⟩ := h.next sender hpos
    refine ⟨start, hstart, ?_⟩
    rw [hlookup] at hnonce
    rcases hnonce with heq | ⟨heq, -⟩
    · exact (Option.some.inj heq).symm
    · cases heq

/-- A round deploys the contract of its step. -/
theorem deployed_concat {steps : List CreateDefinition} {step : CreateDefinition}
    {ds : List NewContract} (h : Deployed d s steps ds t)
    (hstep : d.generator.createStep (d.createEnv extra) t step = .ok u) :
    ∃ x, Deployed d s (steps ++ [step]) (ds ++ [x]) u := by
  simp only [Generator.createStep, Except.bind_eq_ok_iff, Generator.createGenerator_eq_ok,
    Except.pure_eq_ok_iff] at hstep
  obtain ⟨filled, -, strict, hstrict, tx, -, sender, hsender, ⟨nonce, nextNonce⟩, hnonce, db, hdb,
    rfl⟩ := hstep
  obtain ⟨x, hname, hfrom, hxnonce, hdeployed, hsent, hinsert⟩ := onCreateStep_eq_ok rfl hdb
  obtain ⟨rfl, hlookup⟩ := createNonce_eq_ok hnonce
  obtain ⟨start, hstart, rfl⟩ := nonce_of_lookup h hlookup
  have hsender' : x.tx.fromAddr = some sender := hfrom.trans (orError_eq_ok.mp hsender)
  have hstrictName : strict.name = step.contract.name := by
    simp only [Generator.makeStrictCreate, Except.bind_eq_ok_iff, Except.pure_eq_ok_iff] at hstrict
    obtain ⟨a, -, rfl⟩ := hstrict
    rfl
  refine ⟨x, ?_, ?_, ?_, ?_, fun a ha => ?_, fun a ha => ?_, fun hist hdb => ?_⟩
  · rw [List.map_append, List.map_append, h.names, List.map_singleton, List.map_singleton, hname,
      hstrictName]
  · rw [List.map_append, List.map_singleton, ← List.append_assoc, ← h.sent]
    exact hsent
  · exact h.each.concat (h.sent ▸ hdeployed)
  · exact h.nonces.concat ⟨sender, start, hsender', hstart, hxnonce⟩
  -- a sender without a contract is not the one of this step
  · rw [deployedBy_concat, hsender'] at ha
    have hne : a ≠ sender := by
      rintro rfl
      rw [if_pos rfl] at ha
      omega
    change (AList.insert sender _ t.nextNonce).lookup a = _
    rw [AList.lookup_insert_ne hne]
    refine h.untouched a ?_
    omega
  · change ∃ start, _ ∧ (AList.insert sender _ t.nextNonce).lookup a = _
    by_cases heq : a = sender
    · subst heq
      refine ⟨start, hstart, ?_⟩
      rw [AList.lookup_insert, deployedBy_concat, if_pos hsender', Nat.add_assoc]
    · rw [deployedBy_concat, if_neg (fun hx => heq (Option.some.inj (hx.symm.trans hsender'))),
        Nat.add_zero] at ha ⊢
      rw [AList.lookup_insert_ne heq]
      exact h.next a ha
  · rw [List.foldl_append, h.stored hist hdb]
    simp only [List.foldl_cons, List.foldl_nil, History.call, List.map_append, List.map_singleton]
    change (match t.database.db.insertNamedTxs (x.insertCall d).namedTxs d.rpcUrl d.genesisHash with
      | (db, .ok ()) => _
      | (db, .error _) => _) = _
    rw [hinsert, List.append_assoc]

/-- Nothing is deployed before the first step. -/
theorem deployed_createInit (d : Deployer) (s : DeployState) :
    Deployed d s [] [] (d.generator.createInit s) := by
  refine ⟨rfl, (List.append_nil _).symm, .nil, .nil, fun _ _ => rfl,
    fun _ h => absurd h (lt_irrefl 0), fun hist hdb => ?_⟩
  rw [List.foldl_nil, List.map_nil, List.append_nil]
  change hist = ⟨s.db, hist.inserted⟩
  rw [← hdb]

/-- Between two steps: a run over the steps before would have ended well here, with their
deployments, and the steps behind lead on from here. -/
def ComesBetween (d : Deployer) (extra : ExtraTxParams) (s : DeployState)
    (done rest : List CreateDefinition) (ds : List NewContract) (t : CreateState DeployState) :
    Prop :=
  ∃ u, d.generator.loadCreate (d.createEnv extra) done s = .ok u ∧ Deployed d s done ds u ∧
    rest.foldlM (d.generator.createStep (d.createEnv extra)) u = .ok t

/-- A run of the loop that ends well has deployed the contracts of its steps, and those of the
steps before each of them when it came to that one. -/
theorem exists_deployed {steps : List CreateDefinition}
    (h : d.generator.loadCreate (d.createEnv extra) steps s = .ok t) :
    ∃ ds, Deployed d s steps ds t ∧ ∀ done rest, steps = done ++ rest →
      ComesBetween d extra s done rest (ds.take done.length) t := by
  induction steps using List.reverseRecOn generalizing t with
  | nil =>
    obtain rfl := Except.ok.inj h
    refine ⟨[], deployed_createInit d s, fun done rest heq => ?_⟩
    obtain ⟨rfl, rfl⟩ := List.append_eq_nil_iff.mp heq.symm
    exact ⟨_, rfl, deployed_createInit d s, rfl⟩
  | append_singleton steps step ih =>
    have hload := h
    rw [Generator.loadCreate, List.foldlM_append, Except.bind_eq_ok_iff] at h
    obtain ⟨u, hu, hlast⟩ := h
    obtain ⟨ds, hds, hbetween⟩ := ih hu
    rw [List.foldlM_cons, Except.bind_eq_ok_iff] at hlast
    obtain ⟨_, hstep, hnil⟩ := hlast
    obtain rfl := Except.ok.inj hnil
    obtain ⟨x, hx⟩ := deployed_concat hds hstep
    refine ⟨ds ++ [x], hx, fun done rest heq => ?_⟩
    rcases List.eq_nil_or_concat rest with rfl | ⟨rest, last, rfl⟩
    · -- all steps are done
      rw [List.append_nil] at heq
      subst heq
      have hlength : (ds ++ [x]).length = (steps ++ [step]).length := by
        rw [← List.length_map NewContract.name, hx.names, List.length_map]
      rw [← hlength, List.take_length]
      exact ⟨_, hload, hx, rfl⟩
    · rw [List.concat_eq_append, ← List.append_assoc] at heq
      obtain ⟨rfl, hsame⟩ := List.append_inj' heq rfl
      obtain rfl := (List.cons.inj hsame).1
      obtain ⟨v, hv, hdone, hrest⟩ := hbetween done rest rfl
      have hle : done.length ≤ ds.length := by
        have hnames := congrArg List.length hds.names
        rw [List.length_map, List.length_map, List.length_append] at hnames
        omega
      rw [List.take_append_of_le_length hle]
      refine ⟨v, hv, hdone, ?_⟩
      rw [List.concat_eq_append, List.foldlM_append, Except.bind_eq_ok_iff]
      refine ⟨u, hrest, ?_⟩
      rw [List.foldlM_cons, hstep]
      rfl

/-- The prices and the chain id are asked for once. -/
theorem exists_deployContracts_eq {steps : List CreateDefinition}
    (h : d.deployContracts steps s = .ok t) :
    ∃ extra, ∀ steps, d.deployContracts steps s =
      d.generator.loadCreate (d.createEnv extra) steps s := by
  simp only [deployContracts, Except.bind_eq_ok_iff] at h
  obtain ⟨gasPrice, hprice, chainId, hchain, -⟩ := h
  refine ⟨⟨gasPrice, d.blobGasPrice, chainId⟩, fun steps => ?_⟩
  rw [deployContracts, hprice, hchain]
  rfl

theorem loadCreate_of_deployContracts {steps : List CreateDefinition}
    (h : d.deployContracts steps s = .ok t) :
    ∃ extra, d.generator.loadCreate (d.createEnv extra) steps s = .ok t := by
  obtain ⟨extra, heq⟩ := exists_deployContracts_eq h
  exact ⟨extra, heq steps ▸ h⟩

/-- **Deployment.** A run of `deploy_contracts` that ends well has deployed the contract of every
step in their order: the transactions of a sender have its next nonces, and the node has given the
receipt of each and has shown the code. When it came to a step, it had deployed the contracts of
the steps before, their rows were in the database, and the rest of the run went on from there. The
scenario's next nonces are those behind the deployments. -/
theorem deployContracts_ok (d : Deployer) (steps : List CreateDefinition) (s : DeployState)
    (t : CreateState DeployState) (h : d.deployContracts steps s = .ok t) :
    ∃ extra ds, Deployed d s steps ds t ∧ ∀ done rest, steps = done ++ rest →
      ∃ u, d.deployContracts done s = .ok u ∧ Deployed d s done (ds.take done.length) u ∧
        rest.foldlM (d.generator.createStep (d.createEnv extra)) u = .ok t := by
  obtain ⟨extra, heq⟩ := exists_deployContracts_eq h
  obtain ⟨ds, hds, hbetween⟩ := exists_deployed (heq steps ▸ h)
  refine ⟨extra, ds, hds, fun done rest hsplit => ?_⟩
  rw [heq done]
  exact hbetween done rest hsplit

theorem scenarioDbKey_injective (label : Option Text) :
    Function.Injective fun name => scenarioDbKey name label := by
  intro name name' h
  cases label with
  | none => exact h
  | some label => exact List.append_cancel_right h

/-- What is stored last under a contract's name, when no later contract has that name. -/
theorem lastStored_insertCalls {d : Deployer} (hquote : Sql.quote ∉ d.rpcUrl)
    (hnul : Sql.nul ∉ d.rpcUrl) (inserted : List InsertCall) {done rest : List NewContract}
    {x : NewContract} (hlast : ∀ y ∈ rest, y.name ≠ x.name) :
    SqliteDb.lastStored (inserted ++ (done ++ x :: rest).map (·.insertCall d))
        (scenarioDbKey x.name d.generator.source.scenarioLabel) d.rpcUrl d.genesisHash =
      some ⟨scenarioDbKey x.name d.generator.source.scenarioLabel, x.receipt.transactionHash,
        x.receipt.contractAddress⟩ := by
  have hchain : ∀ y : NewContract, (y.insertCall d).chain =
      some (d.rpcUrl, SqliteDb.genesisText d.genesisHash) := fun y =>
    SqliteDb.InsertCall.chain_of_plain hquote hnul
  have hrest : (rest.map (·.insertCall d)).flatMap (fun c => c.namedTxs.filter fun namedTx =>
      namedTx.name = scenarioDbKey x.name d.generator.source.scenarioLabel) = [] := by
    refine List.flatMap_eq_nil_iff.mpr fun c hc => ?_
    obtain ⟨y, hy, rfl⟩ := List.mem_map.mp hc
    have hne : scenarioDbKey y.name d.generator.source.scenarioLabel ≠
      scenarioDbKey x.name d.generator.source.scenarioLabel :=
      fun heq => hlast y hy (scenarioDbKey_injective _ heq)
    simp [NewContract.insertCall, insertCall, hne]
  have hall : ((done ++ x :: rest).map (·.insertCall d)).filter
      (fun c => c.chain = some (d.rpcUrl, SqliteDb.genesisText d.genesisHash)) =
        (done ++ x :: rest).map (·.insertCall d) := by
    refine List.filter_eq_self.mpr fun c hc => ?_
    obtain ⟨y, -, rfl⟩ := List.mem_map.mp hc
    exact decide_eq_true (hchain y)
  rw [SqliteDb.lastStored, List.filter_append, hall, List.map_append, List.map_cons,
    List.flatMap_append, List.flatMap_append, List.flatMap_cons, hrest, List.append_nil]
  simp [NewContract.insertCall, insertCall]

/-- The last contract deployed under a name is found by it. -/
theorem getNamedTx_of_deployed {steps : List CreateDefinition} {done rest : List NewContract}
    {x : NewContract} {hist : History} (hds : Deployed d s steps (done ++ x :: rest) t)
    (hhist : hist.Consistent) (hdb : hist.db = s.db) (hquote : Sql.quote ∉ d.rpcUrl)
    (hnul : Sql.nul ∉ d.rpcUrl) (hlast : ∀ y ∈ rest, y.name ≠ x.name)
    (haddress : x.receipt.contractAddress.isSome) :
    t.database.db.getNamedTx (scenarioDbKey x.name d.generator.source.scenarioLabel) d.rpcUrl
        d.genesisHash =
      .ok (some ⟨scenarioDbKey x.name d.generator.source.scenarioLabel,
        x.receipt.transactionHash, x.receipt.contractAddress⟩) := by
  have hstored := hds.stored hist hdb
  have hconsistent : (⟨t.database.db,
      hist.inserted ++ (done ++ x :: rest).map (·.insertCall d)⟩ : History).Consistent := by
    rw [← hstored]
    exact List.foldlRecOn _ _ hhist fun hist hhist x _ => hhist.call _
  have hfound := SqliteDb.getNamedTx_of_consistent hconsistent
    (scenarioDbKey x.name d.generator.source.scenarioLabel) d.rpcUrl d.genesisHash
  rw [lastStored_insertCalls hquote hnul _ hlast, Option.elim_some, if_pos haddress] at hfound
  exact hfound

/-- **Lookup after deployment.** After a run that ends well, the name of each step is found at the
last contract deployed for it, if the receipt has its address. -/
theorem deployed_found (d : Deployer) (steps : List CreateDefinition) (s : DeployState)
    (t : CreateState DeployState) (hist : History) (hhist : hist.Consistent)
    (hdb : hist.db = s.db) (hquote : Sql.quote ∉ d.rpcUrl) (hnul : Sql.nul ∉ d.rpcUrl)
    (h : d.deployContracts steps s = .ok t) :
    ∃ ds, Deployed d s steps ds t ∧ ∀ done x rest, ds = done ++ x :: rest →
      (∀ y ∈ rest, y.name ≠ x.name) → x.receipt.contractAddress.isSome →
        t.database.db.getNamedTx (scenarioDbKey x.name d.generator.source.scenarioLabel) d.rpcUrl
            d.genesisHash =
          .ok (some ⟨scenarioDbKey x.name d.generator.source.scenarioLabel,
            x.receipt.transactionHash, x.receipt.contractAddress⟩) := by
  obtain ⟨extra, hload⟩ := loadCreate_of_deployContracts h
  obtain ⟨ds, hds, -⟩ := exists_deployed hload
  refine ⟨ds, hds, ?_⟩
  rintro done x rest rfl hlast haddress
  exact getNamedTx_of_deployed hds hhist hdb hquote hnul hlast haddress

/-! ### A token, and a contract that refers to it -/

namespace TwoContracts

open Generator

/-- The code of a contract shows up at the second look. -/
def node : DeployNode where
  estimateGas _ _ := .ok 53000
  sendRawTransaction _ _ := .ok ()
  getReceipt sent txHash := .ok ⟨txHash, some (BitVec.ofNat 160 (0xa0 + sent.length))⟩
  getCodeAt _ _ := [.error "header not found".toList, .ok [0x60]]

def deployer : Deployer where
  generator := RedeployedToken.plan
  signerMap := AList.insert 0xdead ⟨1, 0xdead⟩ ∅
  txType := .legacy
  rpcUrl := SqliteDb.OneName.url
  genesisHash := 0x5
  build tx _ := .ok (BitVec.ofNat 256 (tx.nonce.getD 0))
  getGasPrice := .ok 10
  blobGasPrice := 0
  getChainId := .ok 1
  transactionCount _ := .ok 0
  node

def token : CreateDefinition := RedeployedToken.create "token" "6000"

def user : CreateDefinition := RedeployedToken.create "user" "73{token}"

def steps : List CreateDefinition := [token, user]

def start : DeployState := ⟨[], (History.of []).db⟩

theorem exists_run : ∃ t, deployer.deployContracts steps start = .ok t := by
  have hsome : (deployer.deployContracts steps start).toOption.isSome := by decide +kernel
  cases hrun : deployer.deployContracts steps start with
  | ok t => exact ⟨t, rfl⟩
  | error e =>
    rw [hrun] at hsome
    cases hsome

/-- The token is stored before the contract that refers to it is looked at. -/
theorem deployContracts_ok_twoContracts :
    ∃ t extra ds u, deployer.deployContracts steps start = .ok t ∧
      Deployed deployer start steps ds t ∧ deployer.deployContracts [token] start = .ok u ∧
      Deployed deployer start [token] (ds.take 1) u ∧
      [user].foldlM (deployer.generator.createStep (deployer.createEnv extra)) u = .ok t := by
  obtain ⟨t, hrun⟩ := exists_run
  obtain ⟨extra, ds, hds, hbetween⟩ := deployContracts_ok deployer steps start t hrun
  obtain ⟨u, hu, htoken, huser⟩ := hbetween [token] [user] rfl
  exact ⟨t, extra, ds, u, hrun, hds, hu, htoken, huser⟩

theorem deployed_found_twoContracts :
    ∃ t ds, deployer.deployContracts steps start = .ok t ∧ Deployed deployer start steps ds t ∧
      ∀ done x rest, ds = done ++ x :: rest → (∀ y ∈ rest, y.name ≠ x.name) →
        x.receipt.contractAddress.isSome →
          t.database.db.getNamedTx (scenarioDbKey x.name deployer.generator.source.scenarioLabel)
              deployer.rpcUrl deployer.genesisHash =
            .ok (some ⟨scenarioDbKey x.name deployer.generator.source.scenarioLabel,
              x.receipt.transactionHash, x.receipt.contractAddress⟩) := by
  obtain ⟨t, hrun⟩ := exists_run
  have hquote : Sql.quote ∉ deployer.rpcUrl := by decide
  have hnul : Sql.nul ∉ deployer.rpcUrl := by decide
  obtain ⟨ds, hds, hfound⟩ := deployed_found deployer steps start t (History.of [])
    (History.consistent_of []) rfl hquote hnul hrun
  exact ⟨t, ds, hrun, hds, hfound⟩

end TwoContracts

end Deployer

end Contender
