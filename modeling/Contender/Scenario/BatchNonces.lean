import Contender.Scenario.NonceTracking

/-!
# The nonces of a mixed batch

A batch may hold single transactions and bundles. The payload of a bundle keeps
the requests as they were generated, without the nonces that were signed;
`prepareTraced` is the preparation with the signed transactions beside each
payload. Whatever the mixture, the transactions are prepared one after another in
the order of the flattened requests, so that each sender gets consecutive nonces.

## Main results

* `prepareSpam_nonces` — the nonces of a prepared batch, and the nonce map
  afterwards
-/

namespace Contender

open EStateM ScenarioM

/-- A payload with the transactions that were signed for it. -/
structure TracedPayload where
  payload : ExecutionPayload
  signed : List (TxHash × NamedTxRequest)
  deriving DecidableEq, Repr

/-- The signed transactions of a payload, by their hashes. -/
def ExecutionPayload.txHashes : ExecutionPayload → List TxHash
  | .signedTx txHash _ => [txHash]
  | .signedTxBundle txHashes _ => txHashes

/-- The transactions beside the payload are the ones the wallet has signed. -/
structure TracedPayload.IsSigned (env : Env) (traced : TracedPayload) : Prop where
  hashes : traced.payload.txHashes = traced.signed.map Prod.fst
  built : ∀ p ∈ traced.signed, ∃ signer, env.build p.2.tx signer = .ok p.1

namespace TestScenario

/-- `preparePayload`, with the transactions it signs. -/
def prepareTraced (env : Env) (gasPrice blobGasPrice : Nat) :
    ExecutionRequest → ScenarioM TracedPayload
  | .bundle reqs => do
    if (← get).hasBundleClient = false then
      throw .builderUrlRequired
    let signed ← reqs.mapM (prepareSigned env gasPrice blobGasPrice)
    return ⟨.signedTxBundle (signed.map Prod.fst) reqs, signed⟩
  | .tx req => do
    let signed ← prepareSigned env gasPrice blobGasPrice req
    return ⟨.signedTx signed.1 signed.2, [signed]⟩

def prepareSpamTraced (env : Env) (txRequests : List ExecutionRequest) :
    ScenarioM (List TracedPayload) := do
  let (gasPrice, blobGasPrice) ← batchGasPrices env
  txRequests.mapM (prepareTraced env gasPrice blobGasPrice)

/-! ### Tracing changes nothing -/

theorem preparePayload_eq_map (env : Env) (gasPrice blobGasPrice : Nat)
    (request : ExecutionRequest) :
    preparePayload env gasPrice blobGasPrice request =
      TracedPayload.payload <$> prepareTraced env gasPrice blobGasPrice request := by
  cases request with
  | tx req => simp [preparePayload, prepareTraced]
  | bundle reqs =>
    simp only [preparePayload, prepareTraced, map_bind]
    congr 1
    funext scenario
    split_ifs
    · simp
    · simp

theorem prepareSpam_eq_map (env : Env) (requests : List ExecutionRequest) :
    prepareSpam env requests =
      List.map TracedPayload.payload <$> prepareSpamTraced env requests := by
  rw [prepareSpam, prepareSpamTraced, map_bind]
  congr 1
  funext prices
  obtain ⟨gasPrice, blobGasPrice⟩ := prices
  have hpayload : preparePayload env gasPrice blobGasPrice = fun request =>
      TracedPayload.payload <$> prepareTraced env gasPrice blobGasPrice request := by
    funext request
    exact preparePayload_eq_map env gasPrice blobGasPrice request
  change requests.mapM (preparePayload env gasPrice blobGasPrice) = _
  rw [hpayload]
  exact mapM_map TracedPayload.payload (prepareTraced env gasPrice blobGasPrice) requests

/-- The payloads of a traced preparation are those of the preparation. -/
theorem prepareSpam_eq_ok_iff {env : Env} {requests : List ExecutionRequest}
    {payloads : List ExecutionPayload} {s t : TestScenario} :
    prepareSpam env requests s = .ok payloads t ↔
      ∃ traced, prepareSpamTraced env requests s = .ok traced t ∧
        traced.map TracedPayload.payload = payloads := by
  rw [prepareSpam_eq_map, map_eq_ok]

theorem prepareTraced_bundle_eq_ok {env : Env} {gasPrice blobGasPrice : Nat}
    {reqs : List NamedTxRequest} {traced : TracedPayload} {s t : TestScenario} :
    prepareTraced env gasPrice blobGasPrice (.bundle reqs) s = .ok traced t ↔
      s.hasBundleClient = true ∧ ∃ signed,
        reqs.mapM (prepareSigned env gasPrice blobGasPrice) s = .ok signed t ∧
          traced = ⟨.signedTxBundle (signed.map Prod.fst) reqs, signed⟩ := by
  simp only [prepareTraced, bind_eq_ok, get_eq_ok]
  constructor
  · rintro ⟨_, _, ⟨rfl, rfl⟩, h⟩
    split_ifs at h with hclient
    · simp only [bind_eq_ok, throw_eq_ok, false_and, exists_false] at h
    · simp only [bind_eq_ok, pure_eq_ok] at h
      obtain ⟨signed, _, hsigned, rfl, rfl⟩ := h
      exact ⟨by simpa using hclient, signed, hsigned, rfl⟩
  · rintro ⟨hclient, signed, hsigned, rfl⟩
    refine ⟨s, s, ⟨rfl, rfl⟩, ?_⟩
    rw [if_neg (by simp [hclient])]
    simp only [bind_eq_ok, pure_eq_ok]
    exact ⟨signed, t, hsigned, rfl, rfl⟩

theorem prepareTraced_tx_eq_ok {env : Env} {gasPrice blobGasPrice : Nat} {req : NamedTxRequest}
    {traced : TracedPayload} {s t : TestScenario} :
    prepareTraced env gasPrice blobGasPrice (.tx req) s = .ok traced t ↔
      ∃ signed, prepareSigned env gasPrice blobGasPrice req s = .ok signed t ∧
        traced = ⟨.signedTx signed.1 signed.2, [signed]⟩ := by
  simp only [prepareTraced, bind_eq_ok, pure_eq_ok]
  constructor
  · rintro ⟨signed, _, hsigned, rfl, rfl⟩
    exact ⟨signed, hsigned, rfl⟩
  · rintro ⟨signed, hsigned, rfl⟩
    exact ⟨signed, t, hsigned, rfl, rfl⟩

theorem prepareSigned_built {env : Env} {gasPrice blobGasPrice : Nat} {req : NamedTxRequest}
    {signed : TxHash × NamedTxRequest} {s t : TestScenario}
    (h : prepareSigned env gasPrice blobGasPrice req s = .ok signed t) :
    ∃ signer, env.build signed.2.tx signer = .ok signed.1 := by
  simp only [prepareSigned, bind_eq_ok, ofExcept_eq_ok, pure_eq_ok] at h
  obtain ⟨⟨tx, signer⟩, _, -, txHash, _, ⟨hbuild, rfl⟩, rfl, rfl⟩ := h
  exact ⟨signer, hbuild⟩

theorem mapM_prepareSigned_built {env : Env} {gasPrice blobGasPrice : Nat}
    {reqs : List NamedTxRequest} {signed : List (TxHash × NamedTxRequest)} {s t : TestScenario}
    (h : reqs.mapM (prepareSigned env gasPrice blobGasPrice) s = .ok signed t) :
    ∀ p ∈ signed, ∃ signer, env.build p.2.tx signer = .ok p.1 := by
  induction reqs generalizing s signed with
  | nil =>
    obtain ⟨rfl, rfl⟩ := mapM_nil_eq_ok.mp h
    simp
  | cons req reqs ih =>
    obtain ⟨p, u, rest, hhead, htail, rfl⟩ := mapM_cons_eq_ok.mp h
    exact List.forall_mem_cons.mpr ⟨prepareSigned_built hhead, ih htail⟩

theorem mapM_prepareTraced_isSigned {env : Env} {gasPrice blobGasPrice : Nat}
    {requests : List ExecutionRequest} {traced : List TracedPayload} {s t : TestScenario}
    (h : requests.mapM (prepareTraced env gasPrice blobGasPrice) s = .ok traced t) :
    ∀ p ∈ traced, p.IsSigned env := by
  induction requests generalizing s traced with
  | nil =>
    obtain ⟨rfl, rfl⟩ := mapM_nil_eq_ok.mp h
    simp
  | cons request requests ih =>
    obtain ⟨head, u, rest, hhead, hrest, rfl⟩ := mapM_cons_eq_ok.mp h
    refine List.forall_mem_cons.mpr ⟨?_, ih hrest⟩
    cases request with
    | tx req =>
      obtain ⟨signed, hsigned, rfl⟩ := prepareTraced_tx_eq_ok.mp hhead
      exact ⟨rfl, List.forall_mem_singleton.mpr (prepareSigned_built hsigned)⟩
    | bundle reqs =>
      obtain ⟨-, signed, hsigned, rfl⟩ := prepareTraced_bundle_eq_ok.mp hhead
      exact ⟨rfl, mapM_prepareSigned_built hsigned⟩

theorem prepareTraced_txs {env : Env} {gasPrice blobGasPrice : Nat} {request : ExecutionRequest}
    {traced : TracedPayload} {s t : TestScenario}
    (h : prepareTraced env gasPrice blobGasPrice request s = .ok traced t) :
    request.txs.mapM (prepareSigned env gasPrice blobGasPrice) s = .ok traced.signed t := by
  cases request with
  | tx req =>
    obtain ⟨signed, hsigned, rfl⟩ := prepareTraced_tx_eq_ok.mp h
    exact mapM_cons_eq_ok.mpr ⟨signed, t, [], hsigned, mapM_nil_eq_ok.mpr ⟨rfl, rfl⟩, rfl⟩
  | bundle reqs =>
    obtain ⟨-, signed, hsigned, rfl⟩ := prepareTraced_bundle_eq_ok.mp h
    exact hsigned

/-- The transactions of a mixed batch are signed one after another. -/
theorem mapM_prepareTraced_flatten {env : Env} {gasPrice blobGasPrice : Nat}
    {requests : List ExecutionRequest} {traced : List TracedPayload} {s t : TestScenario}
    (h : requests.mapM (prepareTraced env gasPrice blobGasPrice) s = .ok traced t) :
    (requests.flatMap ExecutionRequest.txs).mapM (prepareSigned env gasPrice blobGasPrice) s =
      .ok (traced.flatMap TracedPayload.signed) t := by
  induction requests generalizing s traced with
  | nil =>
    obtain ⟨rfl, rfl⟩ := mapM_nil_eq_ok.mp h
    exact mapM_nil_eq_ok.mpr ⟨rfl, rfl⟩
  | cons request requests ih =>
    obtain ⟨head, u, rest, hhead, hrest, rfl⟩ := mapM_cons_eq_ok.mp h
    rw [List.flatMap_cons, List.flatMap_cons]
    exact mapM_append_eq_ok.mpr ⟨u, head.signed, _, prepareTraced_txs hhead, ih hrest, rfl⟩

/-! ### The nonce map after a batch -/

/-- How many of the transactions advance the nonce of `a`. -/
def advancesOf (setcodeSigner a : Address) (reqs : List NamedTxRequest) : Nat :=
  reqs.countP fun req => Advances setcodeSigner a req.tx

theorem mapM_prepareSigned_advanced {env : Env} {gasPrice blobGasPrice : Nat}
    {reqs : List NamedTxRequest} {signed : List (TxHash × NamedTxRequest)} {s t : TestScenario}
    (h : reqs.mapM (prepareSigned env gasPrice blobGasPrice) s = .ok signed t) :
    t.nonceState.2 = s.nonceState.2 ∧
      ∀ a, t.nonces.lookup a =
        (s.nonces.lookup a).map (· + advancesOf s.nonceState.2 a reqs) := by
  induction reqs generalizing s signed with
  | nil =>
    obtain ⟨rfl, rfl⟩ := mapM_nil_eq_ok.mp h
    exact ⟨rfl, fun a => by simp [advancesOf]⟩
  | cons req reqs ih =>
    obtain ⟨p, u, rest, hhead, htail, rfl⟩ := mapM_cons_eq_ok.mp h
    have hadvanced := prepareSigned_advanced hhead
    obtain ⟨hsigner, hrest⟩ := ih htail
    refine ⟨hsigner.trans hadvanced.setcodeSigner, fun a => ?_⟩
    have hhead' : u.nonces.lookup a = _ := hadvanced.lookup a
    rw [hrest a, hadvanced.setcodeSigner, hhead', advancesOf, advancesOf, List.countP_cons]
    by_cases hmoves : Advances s.nonceState.2 a req.tx
    · rw [if_pos hmoves, if_pos (by simpa using hmoves), Option.map_map]
      congr 1
      funext n
      simp only [Function.comp_apply]
      omega
    · rw [if_neg hmoves, if_neg (by simpa using hmoves), Nat.add_zero]
      rfl

/-- A transaction is prepared only when the setCode signer's nonce is known. -/
theorem mapM_prepareSigned_tracked {env : Env} {gasPrice blobGasPrice : Nat}
    {reqs : List NamedTxRequest} {signed : List (TxHash × NamedTxRequest)} {s t : TestScenario}
    (h : reqs.mapM (prepareSigned env gasPrice blobGasPrice) s = .ok signed t) (hreqs : reqs ≠ []) :
    (s.nonces.lookup s.setcodeSigner.address).isSome := by
  cases reqs with
  | nil => exact absurd rfl hreqs
  | cons req reqs =>
    obtain ⟨p, u, rest, hhead, -, -⟩ := mapM_cons_eq_ok.mp h
    exact (prepareSigned_advanced hhead).tracked

/-- How many of the transactions carry an authorization list. -/
def authorizationsIn (reqs : List NamedTxRequest) : Nat :=
  reqs.countP fun req => req.tx.authorizationList.isSome

/-- What a batch does to the nonces: consecutive ones for each sender, one for the
setCode signer for each authorization, and nothing else. -/
structure TakesConsecutive (reqs signed : List NamedTxRequest) (setcodeSigner : Address)
    (before after : AssocMap Address Nat) : Prop where
  senders : ∀ a, 0 < sentBy a reqs → ∃ n, before.lookup a = some n ∧
    noncesOf a signed = List.range' n (sentBy a reqs) ∧
      after.lookup a = some (n + sentBy a reqs)
  signer : after.lookup setcodeSigner =
    (before.lookup setcodeSigner).map (· + authorizationsIn reqs)
  tracked : 0 < authorizationsIn reqs → (before.lookup setcodeSigner).isSome
  others : ∀ a, sentBy a reqs = 0 → a ≠ setcodeSigner → after.lookup a = before.lookup a

theorem mapM_prepareSigned_consecutive {env : Env} {gasPrice blobGasPrice : Nat}
    {reqs : List NamedTxRequest} {signed : List (TxHash × NamedTxRequest)} {s t : TestScenario}
    (h : reqs.mapM (prepareSigned env gasPrice blobGasPrice) s = .ok signed t)
    (hsenders : ∀ req ∈ reqs, req.tx.fromAddr ≠ some s.setcodeSigner.address) :
    TakesConsecutive reqs (signed.map Prod.snd) s.setcodeSigner.address s.nonces t.nonces := by
  obtain ⟨-, hadvanced⟩ := mapM_prepareSigned_advanced h
  refine ⟨fun a hsends => ?_, ?_, fun hauth => ?_, fun a hidle hother => ?_⟩
  · -- a sender is not the setCode signer, so only its own transactions count
    have hne : a ≠ s.setcodeSigner.address := by
      rintro rfl
      obtain ⟨req, hreq, hfrom⟩ := List.countP_pos_iff.mp hsends
      exact hsenders req hreq (by simpa using hfrom)
    have hspares : ∀ req ∈ reqs, SparesNonce s.nonceState.2 a req.tx :=
      fun _ _ heq => absurd heq hne
    obtain ⟨n, hn⟩ := mapM_prepareSigned_known h hspares hsends
    obtain ⟨hnonces, hlast, -⟩ := mapM_prepareSigned_nonces h hspares hn
    exact ⟨n, hn, hnonces, hlast⟩
  · have hcount : advancesOf s.nonceState.2 s.setcodeSigner.address reqs =
        authorizationsIn reqs := by
      apply List.countP_congr
      intro req hreq
      simp [Advances, nonceState, hsenders req hreq]
    rw [hadvanced, hcount]
  · apply mapM_prepareSigned_tracked h
    rintro rfl
    simp [authorizationsIn] at hauth
  · have hcount : advancesOf s.nonceState.2 a reqs = 0 := by
      apply List.countP_eq_zero.mpr
      intro req hreq
      have hsender := List.countP_eq_zero.mp hidle req hreq
      simpa [Advances, nonceState, hother] using hsender
    rw [hadvanced, hcount]
    exact Option.map_id'

/-- **Consecutive nonces.** Whatever single transactions and bundles a batch
mixes, a successful preparation takes consecutive nonces for each sender, and
advances the setCode signer by the number of authorization lists. -/
theorem prepareSpam_nonces {env : Env} {requests : List ExecutionRequest}
    {payloads : List ExecutionPayload} {s t : TestScenario}
    (h : prepareSpam env requests s = .ok payloads t)
    (hsenders : ∀ req ∈ requests.flatMap ExecutionRequest.txs,
      req.tx.fromAddr ≠ some s.setcodeSigner.address) :
    ∃ traced : List TracedPayload, traced.map TracedPayload.payload = payloads ∧
      (∀ p ∈ traced, p.IsSigned env) ∧
        TakesConsecutive (requests.flatMap ExecutionRequest.txs)
          ((traced.flatMap TracedPayload.signed).map Prod.snd) s.setcodeSigner.address
          s.nonces t.nonces := by
  obtain ⟨traced, htraced, hpayloads⟩ := prepareSpam_eq_ok_iff.mp h
  rw [prepareSpamTraced, bind_eq_ok] at htraced
  obtain ⟨⟨gasPrice, blobGasPrice⟩, u, hprices, hloop⟩ := htraced
  refine ⟨traced, hpayloads, mapM_prepareTraced_isSigned hloop, ?_⟩
  -- fetching the prices leaves the nonces alone
  have hkept := (keeps_batchGasPrices untouched_nonceState env).of_ok hprices
  obtain ⟨hnonces, hsigner⟩ := Prod.mk.inj hkept
  rw [← hsigner] at hsenders ⊢
  rw [← hnonces]
  exact mapM_prepareSigned_consecutive (mapM_prepareTraced_flatten hloop) hsenders

/-! ### A mixed batch -/

namespace MixedBatch

/-- A node and a wallet for transactions without call data; the hash is that of
the empty string, and a signed transaction is named by its nonce. -/
def env : Env where
  keccak256 _ := 0xc5d2460186f7233c927e7db2dcc703c0e500b653ca82273b7bfad8045d85a470
  toLowercase := List.map Char.toLower
  build tx _ := .ok (BitVec.ofNat 256 (tx.nonce.getD 0))
  node _ :=
    { getGasPrice := .ok 1000
      getBlobBaseFee := .ok 1
      getCodeAt := fun _ => .ok []
      estimateGas := fun _ => .error "execution reverted".toList }

def setcodeSigner : PrivateKeySigner := { key := 2, address := 8 }

/-- Two senders, with local nonces 5 and 0. -/
def scenario : TestScenario where
  nonces := ((AList.insert 7 5 ∅).insert 6 0).insert setcodeSigner.address 3
  gasLimits := ∅
  signerMap := (AList.insert 7 { key := 1, address := 7 } ∅).insert 6 { key := 3, address := 6 }
  setcodeSigner := setcodeSigner
  txType := .legacy
  chainId := 1
  gasPrice := some 1000
  gasPriceAdder := 0
  lastFetchedGasPrice := none
  lastFetchedBlobGasPrice := none
  hasBundleClient := true
  rpcCalls := 0

/-- A transfer with a gas limit. -/
def transfer (sender : Address) : NamedTxRequest where
  tx := { fromAddr := some sender, toKind := some (.call 9), gas := some 21000 }

/-- A transaction with an authorization of the setCode signer. -/
def delegation : NamedTxRequest where
  tx :=
    { (transfer 7).tx with authorizationList := some [{ chainId := 1, address := 9, nonce := 3 }] }

def requests : List ExecutionRequest :=
  [.tx (transfer 7), .bundle [transfer 6, delegation], .bundle [], .tx (transfer 6)]

theorem prepareSpam_mixed_nonces :
    ∃ payloads t, prepareSpam env requests scenario = .ok payloads t ∧
      ∃ traced : List TracedPayload, traced.map TracedPayload.payload = payloads ∧
        (∀ p ∈ traced, p.IsSigned env) ∧
          TakesConsecutive (requests.flatMap ExecutionRequest.txs)
            ((traced.flatMap TracedPayload.signed).map Prod.snd) scenario.setcodeSigner.address
            scenario.nonces t.nonces :=
  ⟨_, _, rfl, prepareSpam_nonces rfl (by decide +kernel)⟩

end MixedBatch

end TestScenario

end Contender