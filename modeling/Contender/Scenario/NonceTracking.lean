import Contender.Scenario.PrepareSpam

/-!
# The nonces a batch takes

Preparing a request takes the sender's local nonce and advances it by one; all
the rest of `prepare_tx_request` leaves the nonce map alone. Over a batch, the
transactions of one sender therefore get consecutive nonces from the local one
on, and the local nonce ends just above the last of them.

The one exception is an authorization: it also advances the setCode signer's
nonce, so that the signer's own transactions are consecutive only when nobody
else sends an authorization.
-/

namespace Contender

open EStateM ScenarioM

/-- The part of the scenario that decides which nonces are taken. -/
def TestScenario.nonceState (scenario : TestScenario) : AssocMap Address Nat × Address :=
  (scenario.nonces, scenario.setcodeSigner.address)

/-! ### What leaves the nonces alone -/

/-- A part of the scenario that neither the RPC calls nor the caches touch. -/
structure Untouched {γ : Type} (part : TestScenario → γ) : Prop where
  rpcCalls : ∀ s rpcCalls, part { s with rpcCalls } = part s
  gasLimits : ∀ s gasLimits, part { s with gasLimits } = part s
  gasPrice : ∀ s lastFetchedGasPrice, part { s with lastFetchedGasPrice } = part s
  blobGasPrice : ∀ s lastFetchedBlobGasPrice, part { s with lastFetchedBlobGasPrice } = part s

theorem untouched_nonceState : Untouched TestScenario.nonceState :=
  ⟨fun _ _ => rfl, fun _ _ => rfl, fun _ _ => rfl, fun _ _ => rfl⟩

section Keeps

variable {α γ : Type} {part : TestScenario → γ}

theorem keeps_okOr (e : ScenarioError) (o : Option α) : Keeps part (okOr e o) := by
  cases o
  · exact Keeps.throw e
  · exact Keeps.pure _

theorem keeps_ofExcept (e : Text → ScenarioError) (r : Except Text α) :
    Keeps part (ofExcept e r) := by
  cases r
  · exact Keeps.throw _
  · exact Keeps.pure _

theorem keeps_rpcCall (hpart : ∀ s rpcCalls, part { s with rpcCalls } = part s) (env : Env)
    (ask : NodeView → Except Text α) : Keeps part (rpcCall env ask) :=
  Keeps.get.bind fun _ => Keeps.bind (Keeps.update fun s => hpart s _) fun _ => Keeps.pure _

end Keeps

namespace TestScenario

section Keeps

variable {γ : Type} {part : TestScenario → γ}

theorem keeps_estimateGasLimit (hpart : ∀ s rpcCalls, part { s with rpcCalls } = part s)
    (env : Env) (tx : TransactionRequest) : Keeps part (estimateGasLimit env tx) := by
  have hestimate : Keeps part (rpcCall env (·.estimateGas tx) >>= ofExcept .rpc) :=
    (keeps_rpcCall hpart env _).bind fun _ => keeps_ofExcept _ _
  unfold estimateGasLimit
  split
  · exact Keeps.pure _
  · split
    · split
      · exact (keeps_rpcCall hpart env _).bind fun _ => (keeps_ofExcept _ _).bind fun _ =>
          hestimate
      · exact hestimate
    · exact hestimate

theorem keeps_updateGasMap (hpart : Untouched part) (env : Env) (tx : TransactionRequest)
    (blobGasPrice : Nat) : Keeps part (updateGasMap env tx blobGasPrice) := by
  apply Keeps.get.bind
  intro scenario
  split
  · exact Keeps.pure _
  · exact (keeps_estimateGasLimit hpart.rpcCalls env _).bind fun _ =>
      Keeps.bind (Keeps.update fun s => hpart.gasLimits s _) fun _ => Keeps.pure _

theorem keeps_fetchBlobGasPrice (hcalls : ∀ s rpcCalls, part { s with rpcCalls } = part s)
    (hblob : ∀ s lastFetchedBlobGasPrice, part { s with lastFetchedBlobGasPrice } = part s)
    (env : Env) : Keeps part (fetchBlobGasPrice env) := by
  apply Keeps.get.bind
  intro scenario
  split
  · exact Keeps.pure _
  · apply (keeps_rpcCall hcalls env _).bind
    intro answer
    split
    · exact Keeps.bind (Keeps.update fun s => hblob s _) fun _ => Keeps.pure _
    · exact Keeps.pure _

/-- Fetching the prices changes only the prices fetched last. -/
theorem keeps_fetchedPrices (hcalls : ∀ s rpcCalls, part { s with rpcCalls } = part s)
    (hprice : ∀ s lastFetchedGasPrice, part { s with lastFetchedGasPrice } = part s)
    (hblob : ∀ s lastFetchedBlobGasPrice, part { s with lastFetchedBlobGasPrice } = part s)
    (env : Env) : Keeps part (batchGasPrices env) := by
  refine (keeps_fetchBlobGasPrice hcalls hblob env).bind fun _ => Keeps.get.bind fun scenario => ?_
  split
  · exact (keeps_okOr _ _).bind fun _ => Keeps.pure _
  · refine (keeps_rpcCall hcalls env _).bind fun _ => (keeps_ofExcept _ _).bind fun _ => ?_
    refine Keeps.bind (Keeps.update fun s => hprice s _) fun _ => ?_
    exact (keeps_okOr _ _).bind fun _ => (keeps_okOr _ _).bind fun _ => Keeps.pure _

theorem keeps_batchGasPrices (hpart : Untouched part) (env : Env) :
    Keeps part (batchGasPrices env) :=
  keeps_fetchedPrices hpart.rpcCalls hpart.gasPrice hpart.blobGasPrice env

end Keeps

/-! ### Taking a nonce -/

/-- The transaction does not advance the nonce of `a` on another sender's
behalf. -/
def SparesNonce (setcodeSigner a : Address) (tx : TransactionRequest) : Prop :=
  a = setcodeSigner → tx.authorizationList.isSome → tx.fromAddr = some a

/-- A preparation step took `nonce` for `sender`. -/
structure TookNonce (tx : TransactionRequest) (sender : Address) (nonce : Nat)
    (before after : AssocMap Address Nat × Address) : Prop where
  sender_eq : tx.fromAddr = some sender
  taken : before.1.lookup sender = some nonce
  lt : nonce + 1 < 2 ^ 64
  setcodeSigner : after.2 = before.2
  lookup : ∀ a, SparesNonce before.2 a tx →
    after.1.lookup a = if a = sender then some (nonce + 1) else before.1.lookup a

/-- The requests after the first one still spare the nonce. -/
theorem TookNonce.spares_rest {req : NamedTxRequest} {reqs : List NamedTxRequest}
    {sender a : Address} {nonce : Nat} {before after : AssocMap Address Nat × Address}
    (htook : TookNonce req.tx sender nonce before after)
    (hspares : ∀ r ∈ req :: reqs, SparesNonce before.2 a r.tx) :
    ∀ r ∈ reqs, SparesNonce after.2 a r.tx := by
  intro r hr
  rw [htook.setcodeSigner]
  exact hspares r (List.mem_cons_of_mem _ hr)

/-- Preparing the transaction advances the nonce of `a`: it sends the transaction,
or is the setCode signer of an authorization. -/
def Advances (setcodeSigner a : Address) (tx : TransactionRequest) : Prop :=
  tx.fromAddr = some a ∨ a = setcodeSigner ∧ tx.authorizationList.isSome

instance (setcodeSigner a : Address) (tx : TransactionRequest) :
    Decidable (Advances setcodeSigner a tx) :=
  inferInstanceAs (Decidable (_ ∨ _))

/-- The nonces that a preparation step advances, each by one. -/
structure AdvancedNonces (tx : TransactionRequest)
    (before after : AssocMap Address Nat × Address) : Prop where
  tracked : (before.1.lookup before.2).isSome
  setcodeSigner : after.2 = before.2
  lookup : ∀ a, after.1.lookup a =
    if Advances before.2 a tx then (before.1.lookup a).map (· + 1) else before.1.lookup a

theorem takeNonce_eq_ok {tx : TransactionRequest} {s t : TestScenario} {sender : Address}
    {nonce : Nat} (h : takeNonce tx s = .ok (sender, nonce) t) :
    tx.fromAddr = some sender ∧ s.nonces.lookup sender = some nonce ∧ nonce + 1 < 2 ^ 64 ∧
      AdvancedNonces tx s.nonceState t.nonceState := by
  simp only [takeNonce, bind_eq_ok, okOr_eq_ok, get_eq_ok, modify_eq_ok] at h
  obtain ⟨from_, _, ⟨hfrom, rfl⟩, _, _, ⟨rfl, rfl⟩, n, _, ⟨hn, rfl⟩, m, _, ⟨hm, rfl⟩, next, _,
    ⟨hnext, rfl⟩, _, _, rfl, h⟩ := h
  obtain ⟨rfl, hlt⟩ := addU64_eq_some.mp hnext
  have htracked : (s.nonces.lookup s.setcodeSigner.address).isSome := by rw [hm]; rfl
  split_ifs at h with hauth
  · simp only [bind_eq_ok, okOr_eq_ok, modify_eq_ok, pure_eq_ok, Prod.mk.injEq] at h
    obtain ⟨setcodeNext, _, ⟨hsetcode, rfl⟩, _, _, rfl, ⟨rfl, rfl⟩, rfl⟩ := h
    obtain ⟨rfl, -⟩ := addU64_eq_some.mp hsetcode
    refine ⟨hfrom, hn, hlt, htracked, rfl, fun a => ?_⟩
    by_cases ha : a = s.setcodeSigner.address
    · -- the second write wins, also when the signer sends the transaction itself
      subst ha
      simp [nonceState, Advances, hauth, hm]
    · by_cases hsender : a = from_
      · subst hsender
        simp [nonceState, Advances, hfrom, AList.lookup_insert_ne ha, hn]
      · have hother : from_ ≠ a := fun heq => hsender heq.symm
        simp [nonceState, Advances, hfrom, AList.lookup_insert_ne ha,
          AList.lookup_insert_ne hsender, hother, ha]
  · simp only [pure_eq_ok, Prod.mk.injEq] at h
    obtain ⟨⟨rfl, rfl⟩, rfl⟩ := h
    refine ⟨hfrom, hn, hlt, htracked, rfl, fun a => ?_⟩
    by_cases hsender : a = from_
    · subst hsender
      simp [nonceState, Advances, hfrom, hn]
    · have hother : from_ ≠ a := fun heq => hsender heq.symm
      simp [nonceState, Advances, hfrom, hauth, AList.lookup_insert_ne hsender, hother]

theorem takeNonce_ok {tx : TransactionRequest} {s t : TestScenario} {sender : Address}
    {nonce : Nat} (h : takeNonce tx s = .ok (sender, nonce) t) :
    TookNonce tx sender nonce s.nonceState t.nonceState := by
  obtain ⟨hfrom, hn, hlt, hadvanced⟩ := takeNonce_eq_ok h
  refine ⟨hfrom, hn, hlt, hadvanced.setcodeSigner, fun a hspares => ?_⟩
  rw [hadvanced.lookup a]
  by_cases hsender : a = sender
  · subst hsender
    rw [if_pos (.inl hfrom), if_pos rfl]
    exact congrArg (Option.map (· + 1)) hn
  · -- another address is advanced only as a setCode signer that is not spared
    have hidle : ¬Advances s.nonceState.2 a tx := by
      rintro (hsends | ⟨hsetcode, hauth⟩)
      · exact hsender (Option.some.inj (hsends.symm.trans hfrom))
      · exact hsender (Option.some.inj ((hspares hsetcode hauth).symm.trans hfrom))
    rw [if_neg hidle, if_neg hsender]

/-- A prepared request carries the nonce that was taken for its sender. -/
theorem prepareTxRequest_ok {env : Env} {gasPrice blobGasPrice : Nat}
    {tx filled : TransactionRequest} {signer : PrivateKeySigner} {s t : TestScenario}
    (h : prepareTxRequest env gasPrice blobGasPrice tx s = .ok (filled, signer) t) :
    ∃ sender nonce, TookNonce tx sender nonce s.nonceState t.nonceState ∧
      filled.fromAddr = some sender ∧ filled.nonce = some nonce := by
  simp only [prepareTxRequest, bind_eq_ok, okOr_eq_ok, get_eq_ok, pure_eq_ok,
    Prod.mk.injEq] at h
  obtain ⟨⟨sender, nonce⟩, u, htake, key, v, hgas, _, _, ⟨rfl, rfl⟩, _, _, ⟨-, rfl⟩, _, _,
    ⟨-, rfl⟩, ⟨rfl, -⟩, rfl⟩ := h
  -- everything after the nonces are taken leaves them alone
  have htook := takeNonce_ok htake
  have hkept := (keeps_updateGasMap untouched_nonceState env tx blobGasPrice).of_ok hgas
  refine ⟨sender, nonce, hkept ▸ htook, ?_, ?_⟩
  · simpa using htook.sender_eq
  · simp

/-- All else in preparing a request leaves the nonces alone. -/
theorem prepareSigned_advanced {env : Env} {gasPrice blobGasPrice : Nat} {req : NamedTxRequest}
    {signed : TxHash × NamedTxRequest} {s t : TestScenario}
    (h : prepareSigned env gasPrice blobGasPrice req s = .ok signed t) :
    AdvancedNonces req.tx s.nonceState t.nonceState := by
  simp only [prepareSigned, prepareTxRequest, bind_eq_ok, okOr_eq_ok, ofExcept_eq_ok, get_eq_ok,
    pure_eq_ok] at h
  obtain ⟨_, _, ⟨_, u, htake, _, _, hgas, _, _, ⟨rfl, rfl⟩, _, _, ⟨-, rfl⟩, _, _, ⟨-, rfl⟩, -, rfl⟩,
    _, _, ⟨-, rfl⟩, -, rfl⟩ := h
  obtain ⟨-, -, -, hadvanced⟩ := takeNonce_eq_ok htake
  rw [(keeps_updateGasMap untouched_nonceState env req.tx blobGasPrice).of_ok hgas]
  exact hadvanced

theorem prepareSigned_ok {env : Env} {gasPrice blobGasPrice : Nat} {req : NamedTxRequest}
    {signed : TxHash × NamedTxRequest} {s t : TestScenario}
    (h : prepareSigned env gasPrice blobGasPrice req s = .ok signed t) :
    ∃ sender nonce, TookNonce req.tx sender nonce s.nonceState t.nonceState ∧
      signed.2.tx.fromAddr = some sender ∧ signed.2.tx.nonce = some nonce := by
  simp only [prepareSigned, bind_eq_ok, ofExcept_eq_ok, pure_eq_ok] at h
  obtain ⟨⟨filled, signer⟩, u, hprepare, txHash, _, ⟨-, rfl⟩, rfl, rfl⟩ := h
  exact prepareTxRequest_ok hprepare

/-! ### A batch of single transactions -/

/-- How many of the requests `a` sends. -/
def sentBy (a : Address) (reqs : List NamedTxRequest) : Nat :=
  reqs.countP fun req => req.tx.fromAddr = some a

/-- The nonces of the transactions `a` sends, in order. -/
def noncesOf (a : Address) (reqs : List NamedTxRequest) : List Nat :=
  (reqs.filter fun req => req.tx.fromAddr = some a).filterMap fun req => req.tx.nonce

/-- A prepared request names its sender and its nonce. -/
def IsPrepared (req : NamedTxRequest) : Prop :=
  req.tx.fromAddr.isSome ∧ req.tx.nonce.isSome

theorem mapM_prepareSigned_prepared {env : Env} {gasPrice blobGasPrice : Nat}
    {reqs : List NamedTxRequest} {signed : List (TxHash × NamedTxRequest)} {s t : TestScenario}
    (h : reqs.mapM (prepareSigned env gasPrice blobGasPrice) s = .ok signed t) :
    ∀ p ∈ signed, IsPrepared p.2 := by
  induction reqs generalizing s signed with
  | nil =>
    obtain ⟨rfl, rfl⟩ := mapM_nil_eq_ok.mp h
    simp
  | cons req reqs ih =>
    obtain ⟨p, u, rest, hhead, htail, rfl⟩ := mapM_cons_eq_ok.mp h
    obtain ⟨sender, nonce, -, hsender, hnonce⟩ := prepareSigned_ok hhead
    intro q hq
    rcases List.mem_cons.mp hq with rfl | hq
    · exact ⟨by rw [hsender]; rfl, by rw [hnonce]; rfl⟩
    · exact ih htail q hq

/-- The transactions a sender has in a batch take consecutive nonces from the
local one on, and the local nonce ends above the last of them. -/
theorem mapM_prepareSigned_nonces {env : Env} {gasPrice blobGasPrice : Nat}
    {reqs : List NamedTxRequest} {signed : List (TxHash × NamedTxRequest)} {s t : TestScenario}
    (h : reqs.mapM (prepareSigned env gasPrice blobGasPrice) s = .ok signed t) {a : Address}
    {n : Nat} (hspares : ∀ req ∈ reqs, SparesNonce s.nonceState.2 a req.tx)
    (hn : s.nonces.lookup a = some n) :
    noncesOf a (signed.map Prod.snd) = List.range' n (sentBy a reqs) ∧
      t.nonces.lookup a = some (n + sentBy a reqs) ∧
      (0 < sentBy a reqs → n + sentBy a reqs < 2 ^ 64) := by
  -- along the batch: each transaction of `a` takes the nonce the one before left
  induction reqs generalizing s signed n with
  | nil =>
    obtain ⟨rfl, rfl⟩ := mapM_nil_eq_ok.mp h
    exact ⟨rfl, hn, by simp [sentBy]⟩
  | cons req reqs ih =>
    obtain ⟨p, u, rest, hhead, htail, rfl⟩ := mapM_cons_eq_ok.mp h
    obtain ⟨sender, nonce, htook, hsender, hnonce⟩ := prepareSigned_ok hhead
    have hlookup := htook.lookup a (hspares req List.mem_cons_self)
    have hspares' := htook.spares_rest hspares
    -- a transaction of another sender neither takes nor moves the nonce of `a`
    by_cases ha : a = sender
    · subst ha
      rw [if_pos rfl] at hlookup
      have hn' : nonce = n := Option.some.inj (htook.taken.symm.trans hn)
      subst hn'
      obtain ⟨hnonces, hlast, hlt⟩ := ih htail hspares' hlookup
      have hsent : sentBy a (req :: reqs) = sentBy a reqs + 1 := by
        simp [sentBy, htook.sender_eq]
      have hmore := htook.lt
      rw [hsent]
      refine ⟨?_, ?_, fun _ => ?_⟩
      · rw [List.range'_succ, ← hnonces]
        simp [noncesOf, hsender, hnonce]
      · rw [hlast]
        congr 1
        omega
      · omega
    · rw [if_neg ha] at hlookup
      obtain ⟨hnonces, hlast, hlt⟩ := ih htail hspares' (hlookup.trans hn)
      have hne : sender ≠ a := fun heq => ha heq.symm
      have hsent : sentBy a (req :: reqs) = sentBy a reqs := by
        simp [sentBy, htook.sender_eq, hne]
      rw [hsent]
      refine ⟨?_, hlast, hlt⟩
      rw [← hnonces]
      simp [noncesOf, hsender, hne]

/-- A transaction that was prepared had a sender with a local nonce. -/
theorem mapM_prepareSigned_known {env : Env} {gasPrice blobGasPrice : Nat}
    {reqs : List NamedTxRequest} {signed : List (TxHash × NamedTxRequest)} {s t : TestScenario}
    (h : reqs.mapM (prepareSigned env gasPrice blobGasPrice) s = .ok signed t) {a : Address}
    (hspares : ∀ req ∈ reqs, SparesNonce s.nonceState.2 a req.tx) (hsends : 0 < sentBy a reqs) :
    ∃ n, s.nonces.lookup a = some n := by
  induction reqs generalizing s signed with
  | nil => simp [sentBy] at hsends
  | cons req reqs ih =>
    obtain ⟨p, u, rest, hhead, htail, rfl⟩ := mapM_cons_eq_ok.mp h
    obtain ⟨sender, nonce, htook, -, -⟩ := prepareSigned_ok hhead
    -- the first transaction of `a` found its nonce; those before it kept the entry
    by_cases ha : a = sender
    · exact ⟨nonce, ha ▸ htook.taken⟩
    · have hlookup := htook.lookup a (hspares req List.mem_cons_self)
      rw [if_neg ha] at hlookup
      have hne : sender ≠ a := fun heq => ha heq.symm
      have hspares' := htook.spares_rest hspares
      obtain ⟨n, hn⟩ := ih htail hspares' (by simpa [sentBy, htook.sender_eq, hne] using hsends)
      exact ⟨n, hlookup.symm.trans hn⟩

/-- Preparing keeps the senders. -/
theorem mapM_prepareSigned_fromAddr {env : Env} {gasPrice blobGasPrice : Nat}
    {reqs : List NamedTxRequest} {signed : List (TxHash × NamedTxRequest)} {s t : TestScenario}
    (h : reqs.mapM (prepareSigned env gasPrice blobGasPrice) s = .ok signed t) :
    (signed.map fun p => p.2.tx.fromAddr) = reqs.map fun req => req.tx.fromAddr := by
  induction reqs generalizing s signed with
  | nil =>
    obtain ⟨rfl, rfl⟩ := mapM_nil_eq_ok.mp h
    rfl
  | cons req reqs ih =>
    obtain ⟨p, u, rest, hhead, htail, rfl⟩ := mapM_cons_eq_ok.mp h
    obtain ⟨sender, nonce, htook, hsender, -⟩ := prepareSigned_ok hhead
    rw [List.map_cons, List.map_cons, ih htail, hsender, htook.sender_eq]

theorem mapM_prepareSigned_senders {env : Env} {gasPrice blobGasPrice : Nat}
    {reqs : List NamedTxRequest} {signed : List (TxHash × NamedTxRequest)} {s t : TestScenario}
    (h : reqs.mapM (prepareSigned env gasPrice blobGasPrice) s = .ok signed t) (a : Address) :
    sentBy a (signed.map Prod.snd) = sentBy a reqs := by
  have hcount : ∀ reqs : List NamedTxRequest,
      sentBy a reqs = (reqs.map fun req => req.tx.fromAddr).countP (· = some a) := by
    intro reqs
    rw [List.countP_map]
    rfl
  rw [hcount, hcount, ← mapM_prepareSigned_fromAddr h, List.map_map]
  rfl

theorem mapM_preparePayload_tx {env : Env} {gasPrice blobGasPrice : Nat}
    {reqs : List NamedTxRequest} {payloads : List ExecutionPayload} {s t : TestScenario}
    (h : (reqs.map ExecutionRequest.tx).mapM (preparePayload env gasPrice blobGasPrice) s =
      .ok payloads t) :
    ∃ signed, reqs.mapM (prepareSigned env gasPrice blobGasPrice) s = .ok signed t ∧
      payloads = signed.map fun p => .signedTx p.1 p.2 := by
  induction reqs generalizing s payloads with
  | nil =>
    obtain ⟨rfl, rfl⟩ := mapM_nil_eq_ok.mp h
    exact ⟨[], mapM_nil_eq_ok.mpr ⟨rfl, rfl⟩, rfl⟩
  | cons req reqs ih =>
    obtain ⟨payload, u, rest, hhead, htail, rfl⟩ := mapM_cons_eq_ok.mp h
    simp only [preparePayload, bind_eq_ok, pure_eq_ok] at hhead
    obtain ⟨p, _, hp, rfl, rfl⟩ := hhead
    obtain ⟨signed, hsigned, rfl⟩ := ih htail
    exact ⟨p :: signed, mapM_cons_eq_ok.mpr ⟨p, _, signed, hp, hsigned, rfl⟩, rfl⟩

/-- Preparing a batch of single transactions prepares each of them in turn, from
the nonces the batch starts with. -/
theorem prepareSpam_map_tx_ok {env : Env} {reqs : List NamedTxRequest}
    {payloads : List ExecutionPayload} {s t : TestScenario}
    (h : prepareSpam env (reqs.map .tx) s = .ok payloads t) :
    ∃ gasPrice blobGasPrice u signed, u.nonceState = s.nonceState ∧
      reqs.mapM (prepareSigned env gasPrice blobGasPrice) u = .ok signed t ∧
      payloads = signed.map fun p => .signedTx p.1 p.2 := by
  rw [prepareSpam, bind_eq_ok] at h
  obtain ⟨⟨gasPrice, blobGasPrice⟩, u, hprices, hloop⟩ := h
  obtain ⟨signed, hsigned, hpayloads⟩ := mapM_preparePayload_tx hloop
  exact ⟨gasPrice, blobGasPrice, u, signed,
    (keeps_batchGasPrices untouched_nonceState env).of_ok hprices, hsigned, hpayloads⟩

end TestScenario

end Contender
