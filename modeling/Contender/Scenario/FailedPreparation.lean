import Contender.Scenario.BatchNonces

/-!
# Failed preparations

`prepare_tx_request` takes its nonces before it does anything that can fail, and
`prepare_spam` goes on to the next request with the nonces of the last one
advanced. When either of them returns an error, nothing of the batch is sent, but
the nonces stay where they are. They are as they were before only when the
preparation fails before it takes the first nonce.

## Main results

* `sameNonces_iff` — when a failed preparation leaves the nonce map as it was
-/

namespace Contender

open EStateM ScenarioM

namespace TestScenario

/-- The two scenarios hold the same nonces. -/
def SameNonces (s t : TestScenario) : Prop := ∀ a, t.nonces.lookup a = s.nonces.lookup a

/-- No nonce has gone down. -/
def Grows (s t : TestScenario) : Prop :=
  ∀ a n, s.nonces.lookup a = some n → ∃ m, t.nonces.lookup a = some m ∧ n ≤ m

instance : Std.Refl Grows := ⟨fun _ _ n hn => ⟨n, hn, le_rfl⟩⟩

instance : IsTrans TestScenario Grows where
  trans s t u hst htu a n hn := by
    obtain ⟨m, hm, hnm⟩ := hst a n hn
    obtain ⟨k, hk, hmk⟩ := htu a m hm
    exact ⟨k, hk, hnm.trans hmk⟩

theorem grows_of_nonceState (s t : TestScenario) (h : t.nonceState = s.nonceState) :
    Grows s t := by
  have hnonces : t.nonces = s.nonces := (Prod.mk.inj h).1
  intro a n hn
  exact ⟨n, by rw [hnonces]; exact hn, le_rfl⟩

/-- The request has a sender, and its nonce and that of the setCode signer are
known. -/
def CanTake (s : TestScenario) (tx : TransactionRequest) : Prop :=
  ∃ sender, tx.fromAddr = some sender ∧ (s.nonces.lookup sender).isSome ∧
    (s.nonces.lookup s.setcodeSigner.address).isSome

/-! ### Taking a nonce, and failing -/

theorem grows_insert {s : TestScenario} {a : Address} {n : Nat}
    (hn : s.nonces.lookup a = some n) :
    Grows s { s with nonces := s.nonces.insert a (n + 1) } := by
  intro b m hm
  by_cases hb : b = a
  · subst hb
    obtain rfl := Option.some.inj (hn.symm.trans hm)
    exact ⟨n + 1, AList.lookup_insert _, Nat.le_succ n⟩
  · exact ⟨m, (AList.lookup_insert_ne hb).trans hm, le_rfl⟩

/-- A request whose nonce cannot be taken changes nothing; the only other failure
is an overflow. -/
theorem takeNonce_eq_error {tx : TransactionRequest} {s t : TestScenario} {e : ScenarioError}
    (h : takeNonce tx s = .error e t) : t = s ∧ ¬CanTake s tx ∨ e = .panic ∧ Grows s t := by
  simp only [takeNonce, bind_eq_error, okOr_eq_error, okOr_eq_ok, get_eq_error, get_eq_ok,
    modify_eq_error, modify_eq_ok, false_or] at h
  rcases h with ⟨hfrom, -, rfl⟩ | ⟨sender, _, ⟨hfrom, rfl⟩, _, _, ⟨rfl, rfl⟩, h⟩
  · refine .inl ⟨rfl, ?_⟩
    rintro ⟨sender, hsender, -⟩
    rw [hfrom] at hsender
    cases hsender
  have hsender : ∀ b, tx.fromAddr = some b → b = sender :=
    fun b hb => Option.some.inj (hb.symm.trans hfrom)
  rcases h with ⟨hnone, -, rfl⟩ | ⟨n, _, ⟨hn, rfl⟩, h⟩
  · refine .inl ⟨rfl, ?_⟩
    rintro ⟨b, hb, hknown, -⟩
    rw [hsender b hb, hnone] at hknown
    cases hknown
  rcases h with ⟨hnone, -, rfl⟩ | ⟨m, _, ⟨-, rfl⟩, h⟩
  · refine .inl ⟨rfl, ?_⟩
    rintro ⟨b, -, -, hknown⟩
    rw [hnone] at hknown
    cases hknown
  -- from here on only an overflow is left
  rcases h with ⟨-, rfl, rfl⟩ | ⟨next, _, ⟨hnext, rfl⟩, _, _, rfl, h⟩
  · exact .inr ⟨rfl, refl_of Grows _⟩
  obtain ⟨rfl, -⟩ := addU64_eq_some.mp hnext
  split_ifs at h
  · simp only [bind_eq_error, okOr_eq_error, okOr_eq_ok, modify_eq_error, modify_eq_ok,
      pure_eq_error, and_false, exists_false, or_false] at h
    obtain ⟨-, rfl, rfl⟩ := h
    exact .inr ⟨rfl, grows_insert hn⟩
  · exact absurd h pure_eq_error

theorem AdvancedNonces.grows {tx : TransactionRequest} {s t : TestScenario}
    (h : AdvancedNonces tx s.nonceState t.nonceState) : Grows s t := by
  intro a n hn
  have hlookup : t.nonces.lookup a = _ := h.lookup a
  have hn' : s.nonceState.1.lookup a = some n := hn
  rw [hlookup, hn']
  split_ifs
  · exact ⟨n + 1, rfl, Nat.le_succ n⟩
  · exact ⟨n, rfl, le_rfl⟩

theorem relates_takeNonce (tx : TransactionRequest) : Relates Grows (takeNonce tx) := by
  intro s
  cases hrun : takeNonce tx s with
  | ok p t => exact (takeNonce_eq_ok hrun).2.2.2.grows
  | error e t =>
    rcases takeNonce_eq_error hrun with ⟨rfl, -⟩ | ⟨-, hgrows⟩
    · exact refl_of Grows _
    · exact hgrows

/-! ### Programs that take a nonce first -/

/-- How a program ends that takes the nonces of a transaction before all else: it
fails with that, or goes on from there. -/
def TakesFirst {α : Type} (tx : TransactionRequest) (s : TestScenario)
    (r : EStateM.Result ScenarioError TestScenario α) : Prop :=
  (∃ e t, takeNonce tx s = .error e t ∧ r = .error e t) ∨
    ∃ p u, takeNonce tx s = .ok p u ∧ Grows u r.state

theorem takesFirst_takeNonce (tx : TransactionRequest) (s : TestScenario) :
    TakesFirst tx s (takeNonce tx s) := by
  cases hrun : takeNonce tx s with
  | ok p t => exact .inr ⟨p, t, hrun, refl_of Grows t⟩
  | error e t => exact .inl ⟨e, t, hrun, rfl⟩

theorem TakesFirst.bind {α β : Type} {tx : TransactionRequest} {s : TestScenario}
    {x : ScenarioM α} {f : α → ScenarioM β} (hx : TakesFirst tx s (x s))
    (hf : ∀ a, Relates Grows (f a)) : TakesFirst tx s ((x >>= f) s) := by
  rcases hx with ⟨e, t, htake, hx⟩ | ⟨p, u, htake, hgrows⟩
  · exact .inl ⟨e, t, htake, bind_eq_error.mpr (.inl hx)⟩
  · refine .inr ⟨p, u, htake, trans_of Grows hgrows ?_⟩
    cases hrun : x s with
    | ok a v =>
      have hbind : (x >>= f) s = f a v := by simp only [Bind.bind, EStateM.bind, hrun]
      rw [hbind]
      exact hf a v
    | error e v =>
      rw [bind_eq_error.mpr (.inl hrun)]
      exact refl_of Grows v

/-- Such a program leaves the nonces as they were only when it could not take
them. -/
theorem TakesFirst.unchanged_iff {α : Type} {tx : TransactionRequest} {s t : TestScenario}
    {e : ScenarioError} (h : TakesFirst tx s (.error e t : EStateM.Result _ _ α))
    (he : e ≠ .panic) : SameNonces s t ↔ ¬CanTake s tx := by
  rcases h with ⟨e', t', htake, hr⟩ | ⟨⟨sender, n⟩, u, htake, hgrows⟩
  · obtain ⟨rfl, rfl⟩ := EStateM.Result.error.inj hr
    rcases takeNonce_eq_error htake with ⟨rfl, hcannot⟩ | ⟨rfl, -⟩
    · exact ⟨fun _ => hcannot, fun _ _ => rfl⟩
    · exact absurd rfl he
  · obtain ⟨hfrom, hn, -, hadvanced⟩ := takeNonce_eq_ok htake
    constructor
    · intro hsame
      -- the sender's nonce has been advanced and does not come back
      have hnext : u.nonces.lookup sender = some (n + 1) := by
        have hlookup : u.nonces.lookup sender = _ := hadvanced.lookup sender
        have hn' : s.nonceState.1.lookup sender = some n := hn
        rw [hlookup, if_pos (.inl hfrom), hn', Option.map_some]
      obtain ⟨m, hm, hle⟩ := hgrows sender (n + 1) hnext
      have hback : t.nonces.lookup sender = some n := (hsame sender).trans hn
      obtain rfl := Option.some.inj (hback.symm.trans hm)
      omega
    · intro hcannot
      exact absurd ⟨sender, hfrom, by rw [hn]; rfl, hadvanced.tracked⟩ hcannot

/-! ### The preparation -/

theorem takesFirst_prepareTxRequest (env : Env) (gasPrice blobGasPrice : Nat)
    (tx : TransactionRequest) (s : TestScenario) :
    TakesFirst tx s (prepareTxRequest env gasPrice blobGasPrice tx s) := by
  apply TakesFirst.bind (takesFirst_takeNonce tx s)
  intro p
  obtain ⟨sender, nonce⟩ := p
  apply Relates.of_keeps grows_of_nonceState
  exact (keeps_updateGasMap untouched_nonceState env tx blobGasPrice).bind fun _ =>
    Keeps.get.bind fun _ => (keeps_okOr _ _).bind fun _ => (keeps_okOr _ _).bind fun _ =>
      Keeps.pure _

theorem takesFirst_prepareSigned (env : Env) (gasPrice blobGasPrice : Nat) (req : NamedTxRequest)
    (s : TestScenario) : TakesFirst req.tx s (prepareSigned env gasPrice blobGasPrice req s) := by
  refine TakesFirst.bind (takesFirst_prepareTxRequest env gasPrice blobGasPrice req.tx s)
    fun p => ?_
  exact Relates.of_keeps grows_of_nonceState
    ((keeps_ofExcept _ _).bind fun _ => Keeps.pure _)

theorem TakesFirst.grows {α : Type} {tx : TransactionRequest} {s : TestScenario}
    {r : EStateM.Result ScenarioError TestScenario α} (h : TakesFirst tx s r) :
    Grows s r.state := by
  have htake := relates_takeNonce tx s
  rcases h with ⟨e, t, hrun, rfl⟩ | ⟨p, u, hrun, hgrows⟩
  · rwa [hrun] at htake
  · rw [hrun] at htake
    exact trans_of Grows htake hgrows

theorem relates_prepareSigned (env : Env) (gasPrice blobGasPrice : Nat) (req : NamedTxRequest) :
    Relates Grows (prepareSigned env gasPrice blobGasPrice req) :=
  fun s => (takesFirst_prepareSigned env gasPrice blobGasPrice req s).grows

theorem relates_preparePayload (env : Env) (gasPrice blobGasPrice : Nat)
    (request : ExecutionRequest) :
    Relates Grows (preparePayload env gasPrice blobGasPrice request) := by
  have hpure : ∀ payload : ExecutionPayload,
      Relates Grows (Pure.pure payload : ScenarioM ExecutionPayload) :=
    fun _ s => refl_of Grows s
  cases request with
  | tx req => exact (relates_prepareSigned env gasPrice blobGasPrice req).bind fun _ => hpure _
  | bundle reqs =>
    refine Relates.bind (fun s => refl_of Grows s) fun scenario => ?_
    have hrest : Relates Grows (reqs.mapM (prepareSigned env gasPrice blobGasPrice) >>=
        fun signed => Pure.pure (ExecutionPayload.signedTxBundle (signed.map Prod.fst) reqs)) :=
      (Relates.mapM (relates_prepareSigned env gasPrice blobGasPrice) reqs).bind fun _ => hpure _
    split
    · exact Relates.bind (fun s => refl_of Grows s) fun _ => hrest
    · exact hrest

/-- The first transaction that the loop comes to, past empty bundles. -/
def firstTx (hasBundleClient : Bool) : List ExecutionRequest → Option TransactionRequest
  | [] => none
  | .tx req :: _ => some req.tx
  | .bundle reqs :: requests =>
    if hasBundleClient then
      match reqs with
      | [] => firstTx hasBundleClient requests
      | req :: _ => some req.tx
    else none

/-- The signing loop of a bundle and its payload. -/
def prepareBundle (env : Env) (gasPrice blobGasPrice : Nat) (reqs : List NamedTxRequest) :
    ScenarioM ExecutionPayload := do
  let signed ← reqs.mapM (prepareSigned env gasPrice blobGasPrice)
  return .signedTxBundle (signed.map Prod.fst) reqs

theorem preparePayload_bundle (env : Env) (gasPrice blobGasPrice : Nat)
    (reqs : List NamedTxRequest) (s : TestScenario) :
    preparePayload env gasPrice blobGasPrice (.bundle reqs) s =
      if s.hasBundleClient then prepareBundle env gasPrice blobGasPrice reqs s
      else .error .builderUrlRequired s := by
  cases hclient : s.hasBundleClient with
  | true =>
    change (if s.hasBundleClient = false then _ else prepareBundle env gasPrice blobGasPrice reqs :
      ScenarioM ExecutionPayload) s = _
    rw [hclient]
    rfl
  | false =>
    change (if s.hasBundleClient = false then throw .builderUrlRequired >>= fun _ =>
      prepareBundle env gasPrice blobGasPrice reqs else _ : ScenarioM ExecutionPayload) s = _
    rw [if_pos hclient]
    rfl

/-- The loop over the requests takes the nonces of the first transaction before
all else; when there is none, it takes no nonce. -/
theorem mapM_preparePayload_first (env : Env) (gasPrice blobGasPrice : Nat)
    (requests : List ExecutionRequest) (s : TestScenario) :
    (∀ tx, firstTx s.hasBundleClient requests = some tx →
      TakesFirst tx s (requests.mapM (preparePayload env gasPrice blobGasPrice) s)) ∧
    (firstTx s.hasBundleClient requests = none →
      (requests.mapM (preparePayload env gasPrice blobGasPrice) s).state = s) := by
  have hrest : ∀ requests : List ExecutionRequest, ∀ payload : ExecutionPayload,
      Relates Grows (requests.mapM (preparePayload env gasPrice blobGasPrice) >>= fun payloads =>
        Pure.pure (payload :: payloads)) := fun requests payload =>
    (Relates.mapM (relates_preparePayload env gasPrice blobGasPrice) requests).bind
      fun _ s => refl_of Grows s
  induction requests with
  | nil =>
    constructor
    · intro tx htx
      cases htx
    · intro _
      rw [List.mapM_nil]
      rfl
  | cons request requests ih =>
    rw [List.mapM_cons]
    cases request with
    | tx req =>
      constructor
      · intro tx htx
        obtain rfl := Option.some.inj htx
        refine TakesFirst.bind (TakesFirst.bind ?_ fun _ s => refl_of Grows s) (hrest requests)
        exact takesFirst_prepareSigned env gasPrice blobGasPrice req s
      · intro hnone
        cases hnone
    | bundle reqs =>
      have hbundle := preparePayload_bundle env gasPrice blobGasPrice reqs s
      cases hclient : s.hasBundleClient with
      | false =>
        -- without a client the loop stops at once
        rw [hclient] at hbundle
        refine ⟨fun tx htx => by simp [firstTx] at htx, fun _ => ?_⟩
        rw [bind_eq_error.mpr (.inl hbundle)]
        rfl
      | true =>
        rw [hclient] at hbundle ih
        cases reqs with
        | nil =>
          -- an empty bundle takes nothing
          have hempty : (preparePayload env gasPrice blobGasPrice (.bundle []) >>= fun payload =>
              requests.mapM (preparePayload env gasPrice blobGasPrice) >>= fun payloads =>
                Pure.pure (payload :: payloads)) s =
              (requests.mapM (preparePayload env gasPrice blobGasPrice) >>= fun payloads =>
                Pure.pure (.signedTxBundle [] [] :: payloads)) s := by
            simp only [Bind.bind, EStateM.bind, hbundle]
            rfl
          rw [hempty]
          refine ⟨fun tx htx => (ih.1 tx htx).bind fun _ s => refl_of Grows s, fun hnone => ?_⟩
          have hstate := ih.2 hnone
          simp only [Bind.bind, EStateM.bind]
          cases hrun : requests.mapM (preparePayload env gasPrice blobGasPrice) s with
          | ok payloads t =>
            rw [hrun] at hstate
            exact hstate
          | error e t =>
            rw [hrun] at hstate
            exact hstate
        | cons req reqs =>
          refine ⟨fun tx htx => ?_, fun hnone => by simp [firstTx] at hnone⟩
          obtain rfl : req.tx = tx := by simpa [firstTx] using htx
          refine TakesFirst.bind ?_ (hrest requests)
          rw [hbundle]
          refine TakesFirst.bind ?_ fun _ s => refl_of Grows s
          rw [List.mapM_cons]
          apply (takesFirst_prepareSigned env gasPrice blobGasPrice req s).bind
          intro _
          exact (Relates.mapM (relates_prepareSigned env gasPrice blobGasPrice) reqs).bind
            fun _ s => refl_of Grows s

/-- The batch comes to take a nonce: its gas prices are known, and its first
transaction has a sender whose nonce is known, as is that of the setCode
signer. -/
def TakesNonce (env : Env) (s : TestScenario) (requests : List ExecutionRequest) : Prop :=
  (∃ prices u, batchGasPrices env s = .ok prices u) ∧
    ∃ tx, firstTx s.hasBundleClient requests = some tx ∧ CanTake s tx

theorem untouched_hasBundleClient : Untouched TestScenario.hasBundleClient :=
  ⟨fun _ _ => rfl, fun _ _ => rfl, fun _ _ => rfl, fun _ _ => rfl⟩

theorem canTake_congr {s u : TestScenario} (h : u.nonceState = s.nonceState)
    (tx : TransactionRequest) : CanTake u tx ↔ CanTake s tx := by
  obtain ⟨hnonces, hsigner⟩ := Prod.mk.inj h
  unfold CanTake
  rw [hnonces, hsigner]

theorem prepareSpam_sameNonces_iff {env : Env} {requests : List ExecutionRequest}
    {s t : TestScenario} {e : ScenarioError} (h : prepareSpam env requests s = .error e t)
    (he : e ≠ .panic) : SameNonces s t ↔ ¬TakesNonce env s requests := by
  rw [prepareSpam, bind_eq_error] at h
  rcases h with hprices | ⟨⟨gasPrice, blobGasPrice⟩, u, hprices, hloop⟩
  · -- without the gas prices nothing is prepared
    have hkept := (keeps_batchGasPrices untouched_nonceState env).of_error hprices
    have hsame : t.nonces = s.nonces := (Prod.mk.inj hkept).1
    refine ⟨fun _ htakes => ?_, fun _ a => by rw [hsame]⟩
    obtain ⟨⟨prices, u, hok⟩, -⟩ := htakes
    rw [hprices] at hok
    cases hok
  · have hkept := (keeps_batchGasPrices untouched_nonceState env).of_ok hprices
    have hclient := (keeps_batchGasPrices untouched_hasBundleClient env).of_ok hprices
    have hnonces : u.nonces = s.nonces := (Prod.mk.inj hkept).1
    have hsame : SameNonces s t ↔ SameNonces u t := by
      unfold SameNonces
      rw [hnonces]
    change requests.mapM (preparePayload env gasPrice blobGasPrice) u = .error e t at hloop
    obtain ⟨hfirst, hnone⟩ := mapM_preparePayload_first env gasPrice blobGasPrice requests u
    rw [hclient] at hfirst hnone
    rw [hsame]
    cases htx : firstTx s.hasBundleClient requests with
    | none =>
      have hstate := hnone htx
      rw [hloop] at hstate
      obtain rfl : t = u := hstate
      refine ⟨fun _ htakes => ?_, fun _ a => rfl⟩
      obtain ⟨-, tx, htx', -⟩ := htakes
      rw [htx] at htx'
      cases htx'
    | some tx =>
      have htakes := hfirst tx htx
      rw [hloop] at htakes
      rw [htakes.unchanged_iff he, canTake_congr hkept, not_iff_not]
      constructor
      · intro hcan
        exact ⟨⟨_, u, hprices⟩, tx, htx, hcan⟩
      · rintro ⟨-, tx', htx', hcan⟩
        obtain rfl := Option.some.inj (htx.symm.trans htx')
        exact hcan

/-- **Failed preparations.** When preparing a request or a batch returns an error,
the nonces are as they were before exactly when no nonce could be taken. -/
theorem sameNonces_iff (env : Env) :
    (∀ gasPrice blobGasPrice tx s e t,
      prepareTxRequest env gasPrice blobGasPrice tx s = .error e t → e ≠ .panic →
        (SameNonces s t ↔ ¬CanTake s tx)) ∧
    ∀ requests s e t, prepareSpam env requests s = .error e t → e ≠ .panic →
      (SameNonces s t ↔ ¬TakesNonce env s requests) := by
  refine ⟨fun gasPrice blobGasPrice tx s e t h he => ?_, fun requests s e t h he => ?_⟩
  · have hfirst := takesFirst_prepareTxRequest env gasPrice blobGasPrice tx s
    rw [h] at hfirst
    exact hfirst.unchanged_iff he
  · exact prepareSpam_sameNonces_iff h he

namespace MixedBatch

/-- A transfer whose gas has to be estimated. -/
def unestimated (sender : Address) : NamedTxRequest where
  tx := { fromAddr := some sender, toKind := some (.call 9) }

/-- The node rejects the estimate for the first transaction: nothing is sent, but
the sender's nonce has been taken. -/
theorem not_sameNonces_of_unestimated :
    ∃ e t, prepareSpam env [.tx (unestimated 7)] scenario = .error e t ∧ e ≠ .panic ∧
      ¬SameNonces scenario t := by
  refine ⟨_, _, rfl, by decide, fun hsame => ?_⟩
  exact absurd (hsame 7) (by decide +kernel)

/-- A sender without a nonce is found out before a nonce is taken. -/
theorem sameNonces_of_unknownSender :
    ∃ e t, prepareSpam env [.bundle [], .tx (transfer 5)] scenario = .error e t ∧
      (SameNonces scenario t ↔ ¬TakesNonce env scenario [.bundle [], .tx (transfer 5)]) ∧
        ∃ e' t', prepareTxRequest env 1000 0 (transfer 5).tx scenario = .error e' t' ∧
          (SameNonces scenario t' ↔ ¬CanTake scenario (transfer 5).tx) :=
  ⟨_, _, rfl, (sameNonces_iff env).2 _ _ _ _ rfl (by decide), _, _, rfl,
    (sameNonces_iff env).1 1000 0 _ _ _ _ rfl (by decide)⟩

end MixedBatch

end TestScenario

end Contender
