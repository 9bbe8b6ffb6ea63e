import Contender.Scenario.BatchNonces
import Contender.Scenario.ExecuteSpam

/-!
# The order of dispatch

`execute_spam` sorts the payloads by nonce before it sends them. The nonce of a
single transaction is the one it was signed with. That of a bundle is read from
its first request as it was generated, before nonces were assigned, so that it is
usually missing, and a missing nonce comes before all others; an empty bundle has
no first request, and the sort panics on it.

The payloads come in the order in which their nonces were taken, which the sort
keeps only when the nonces it reads follow that order.

## Main results

* `dispatchedInOrder_iff` — when the sort keeps each sender's nonces in order
* `inSortOrder_iff_of_isGenerated` — what that means for generated requests
-/

namespace Contender

open EStateM ScenarioM

namespace TracedPayload

/-- The nonces that `a` uses in the payload. -/
def nonces (a : Address) (traced : TracedPayload) : List Nat :=
  TestScenario.noncesOf a (traced.signed.map Prod.snd)

/-- No sender uses a smaller nonce in the second payload than in the first one. -/
def Ascends (p q : TracedPayload) : Prop :=
  ∀ a, ∀ m ∈ p.nonces a, ∀ n ∈ q.nonces a, m ≤ n

/-- The payload sort, with the transactions beside the payloads. -/
def sort (traced : List TracedPayload) : Option (List TracedPayload) :=
  traced.sortByKey? fun p => p.payload.sortNonce

theorem sortPayloads_map (traced : List TracedPayload) :
    sortPayloads (traced.map payload) = (sort traced).map (List.map payload) :=
  List.sortByKey?_map ExecutionPayload.sortNonce payload traced

end TracedPayload

/-- What decides the place of a payload: the nonce it is sorted by, and its
senders. -/
structure SortEntry where
  nonce : Option (WithBot Nat)
  senders : List (Option Address)

def TracedPayload.sortEntry (traced : TracedPayload) : SortEntry where
  nonce := traced.payload.sortNonce
  senders := traced.signed.map fun p => p.2.tx.fromAddr

/-- The two entries are in order, or have no sender in common. -/
def SortEntry.Fits (p q : SortEntry) : Prop :=
  (∃ sender ∈ p.senders, sender ∈ q.senders) → List.KeyLE SortEntry.nonce p q

namespace TestScenario

/-- The nonce a transaction will take once the earlier ones have taken theirs. -/
def plannedNonce (s : TestScenario) (earlier : List NamedTxRequest) (tx : TransactionRequest) :
    Option Nat :=
  tx.fromAddr.bind fun sender =>
    (s.nonces.lookup sender).map (· + advancesOf s.setcodeSigner.address sender earlier)

/-- The entry of a request: a single transaction is sorted by the nonce it will
take, a bundle by the one in its first request. -/
def sortEntry (s : TestScenario) (earlier : List NamedTxRequest) (request : ExecutionRequest) :
    SortEntry where
  nonce :=
    match request with
    | .tx req => some ((s.plannedNonce earlier req.tx).elim ⊥ WithBot.some)
    | .bundle reqs => reqs.head?.map fun req => req.tx.nonce.elim ⊥ WithBot.some
  senders := request.txs.map fun req => req.tx.fromAddr

def sortEntries (s : TestScenario) : List NamedTxRequest → List ExecutionRequest → List SortEntry
  | _, [] => []
  | earlier, request :: requests =>
    s.sortEntry earlier request :: s.sortEntries (earlier ++ request.txs) requests

/-- The nonces the requests will be sorted by follow their order wherever two of
them share a sender; an empty bundle stands alone. -/
def InSortOrder (s : TestScenario) (requests : List ExecutionRequest) : Prop :=
  (requests.length < 2 ∨ .bundle [] ∉ requests) ∧
    (s.sortEntries [] requests).Pairwise SortEntry.Fits

/-- The batch is prepared, the sort of its payloads does not panic, and no
sender's nonces go down from one payload to a later one. -/
def DispatchedInOrder (env : Env) (requests : List ExecutionRequest) (s : TestScenario) : Prop :=
  ∃ traced t sorted, prepareSpamTraced env requests s = .ok traced t ∧
    TracedPayload.sort traced = some sorted ∧
      sortPayloads (traced.map TracedPayload.payload) =
        some (sorted.map TracedPayload.payload) ∧
        sorted.Pairwise TracedPayload.Ascends

/-! ### The entries of the prepared payloads -/

variable {env : Env} {gasPrice blobGasPrice : Nat} {s t : TestScenario}

/-- The scenario as the earlier requests have left it. -/
structure IsAfter (s u : TestScenario) (earlier : List NamedTxRequest) : Prop where
  setcodeSigner : u.setcodeSigner.address = s.setcodeSigner.address
  lookup : ∀ a, u.nonces.lookup a =
    (s.nonces.lookup a).map (· + advancesOf s.setcodeSigner.address a earlier)

theorem IsAfter.append {u v : TestScenario} {earlier reqs : List NamedTxRequest}
    {signed : List (TxHash × NamedTxRequest)} (hu : IsAfter s u earlier)
    (h : reqs.mapM (prepareSigned env gasPrice blobGasPrice) u = .ok signed v) :
    IsAfter s v (earlier ++ reqs) := by
  obtain ⟨hsigner, hadvanced⟩ := mapM_prepareSigned_advanced h
  refine ⟨hsigner.trans hu.setcodeSigner, fun a => ?_⟩
  have hsigner' : u.nonceState.2 = s.setcodeSigner.address := hu.setcodeSigner
  rw [hadvanced a, hu.lookup a, hsigner', Option.map_map]
  congr 1
  funext n
  simp only [Function.comp_apply, advancesOf, List.countP_append]
  omega

theorem prepareTraced_sortEntry {u v : TestScenario} {earlier : List NamedTxRequest}
    {request : ExecutionRequest} {traced : TracedPayload} (hu : IsAfter s u earlier)
    (h : prepareTraced env gasPrice blobGasPrice request u = .ok traced v) :
    traced.sortEntry = s.sortEntry earlier request := by
  have hsenders := mapM_prepareSigned_fromAddr (prepareTraced_txs h)
  have hnonce : traced.payload.sortNonce = (s.sortEntry earlier request).nonce := by
    cases request with
    | tx req =>
      obtain ⟨signed, hsigned, rfl⟩ := prepareTraced_tx_eq_ok.mp h
      obtain ⟨sender, nonce, htook, -, hnonce⟩ := prepareSigned_ok hsigned
      -- the nonce that was taken is the one the earlier transactions have left
      have htaken : u.nonces.lookup sender = some nonce := htook.taken
      have hplanned : s.plannedNonce earlier req.tx = some nonce := by
        rw [plannedNonce, htook.sender_eq, Option.bind_some, ← hu.lookup, htaken]
      simp only [ExecutionPayload.sortNonce, sortEntry, hnonce, hplanned]
    | bundle reqs =>
      obtain ⟨-, signed, -, rfl⟩ := prepareTraced_bundle_eq_ok.mp h
      rfl
  simp only [TracedPayload.sortEntry, hsenders, hnonce]
  rfl

theorem mapM_prepareTraced_sortEntry {u : TestScenario} {earlier : List NamedTxRequest}
    {requests : List ExecutionRequest} {traced : List TracedPayload} (hu : IsAfter s u earlier)
    (h : requests.mapM (prepareTraced env gasPrice blobGasPrice) u = .ok traced t) :
    traced.map TracedPayload.sortEntry = s.sortEntries earlier requests := by
  induction requests generalizing u traced earlier with
  | nil =>
    obtain ⟨rfl, rfl⟩ := mapM_nil_eq_ok.mp h
    rfl
  | cons request requests ih =>
    obtain ⟨head, v, rest, hhead, hrest, rfl⟩ := mapM_cons_eq_ok.mp h
    rw [List.map_cons, sortEntries, prepareTraced_sortEntry hu hhead,
      ih (hu.append (prepareTraced_txs hhead)) hrest]

theorem length_sortEntries (s : TestScenario) (earlier : List NamedTxRequest)
    (requests : List ExecutionRequest) :
    (s.sortEntries earlier requests).length = requests.length := by
  induction requests generalizing earlier with
  | nil => rfl
  | cons request requests ih => simp [sortEntries, ih]

/-- Only an empty bundle has no nonce to be sorted by. -/
theorem forall_sortEntries_isSome (s : TestScenario) (earlier : List NamedTxRequest)
    (requests : List ExecutionRequest) :
    (∀ entry ∈ s.sortEntries earlier requests, entry.nonce.isSome) ↔ .bundle [] ∉ requests := by
  induction requests generalizing earlier with
  | nil => simp [sortEntries]
  | cons request requests ih =>
    rw [sortEntries, List.forall_mem_cons, ih, List.mem_cons, not_or]
    apply and_congr_left
    intro _
    cases request with
    | tx req => simp [sortEntry]
    | bundle reqs => cases reqs <;> simp [sortEntry]

/-! ### The order in which nonces are taken -/

/-- A sender of both transactions uses a smaller nonce in the first one. -/
def NonceLT (p q : TxHash × NamedTxRequest) : Prop :=
  ∀ a m n, p.2.tx.fromAddr = some a → q.2.tx.fromAddr = some a →
    p.2.tx.nonce = some m → q.2.tx.nonce = some n → m < n

/-- The transaction was signed with a nonce not below the local one. -/
def NonceAbove (s : TestScenario) (p : TxHash × NamedTxRequest) : Prop :=
  ∃ a m n, p.2.tx.fromAddr = some a ∧ s.nonces.lookup a = some m ∧ p.2.tx.nonce = some n ∧ m ≤ n

/-- What a preparation step takes, and what it leaves for the later ones. -/
theorem prepareSigned_nonce {req : NamedTxRequest} {p : TxHash × NamedTxRequest}
    (h : prepareSigned env gasPrice blobGasPrice req s = .ok p t) :
    NonceAbove s p ∧ ∀ q, NonceAbove t q → NonceAbove s q ∧ NonceLT p q := by
  obtain ⟨sender, nonce, htook, hsender, hnonce⟩ := prepareSigned_ok h
  have hadvanced := prepareSigned_advanced h
  have htaken : s.nonces.lookup sender = some nonce := htook.taken
  refine ⟨⟨sender, nonce, nonce, hsender, htaken, hnonce, le_rfl⟩, fun q hq => ?_⟩
  obtain ⟨a, m, n, hfrom, hm, hn, hle⟩ := hq
  have hlookup : t.nonces.lookup a = if Advances s.nonceState.2 a req.tx then
      (s.nonces.lookup a).map (· + 1) else s.nonces.lookup a := hadvanced.lookup a
  rw [hm] at hlookup
  constructor
  · split_ifs at hlookup
    · obtain ⟨k, hk, rfl⟩ := Option.map_eq_some_iff.mp hlookup.symm
      exact ⟨a, k, n, hfrom, hk, hn, by omega⟩
    · exact ⟨a, m, n, hfrom, hlookup.symm, hn, hle⟩
  · intro b j k hb hb' hj hk
    obtain rfl := Option.some.inj (hfrom.symm.trans hb')
    obtain rfl := Option.some.inj (hsender.symm.trans hb)
    rw [if_pos (.inl htook.sender_eq), htaken, Option.map_some] at hlookup
    have hm' : m = nonce + 1 := Option.some.inj hlookup
    have hj' : nonce = j := Option.some.inj (hnonce.symm.trans hj)
    have hk' : n = k := Option.some.inj (hn.symm.trans hk)
    omega

theorem mapM_prepareSigned_ascending {reqs : List NamedTxRequest}
    {signed : List (TxHash × NamedTxRequest)}
    (h : reqs.mapM (prepareSigned env gasPrice blobGasPrice) s = .ok signed t) :
    (∀ p ∈ signed, NonceAbove s p) ∧ signed.Pairwise NonceLT := by
  induction reqs generalizing s signed with
  | nil =>
    obtain ⟨rfl, rfl⟩ := mapM_nil_eq_ok.mp h
    exact ⟨by simp, List.Pairwise.nil⟩
  | cons req reqs ih =>
    obtain ⟨p, u, rest, hhead, htail, rfl⟩ := mapM_cons_eq_ok.mp h
    obtain ⟨habove, hpairs⟩ := ih htail
    obtain ⟨hp, hlater⟩ := prepareSigned_nonce hhead
    constructor
    · exact List.forall_mem_cons.mpr ⟨hp, fun q hq => (hlater q (habove q hq)).1⟩
    · exact List.pairwise_cons.mpr ⟨fun q hq => (hlater q (habove q hq)).2, hpairs⟩

end TestScenario

/-! ### The sort -/

namespace TracedPayload

open TestScenario

/-- Every sender of both payloads uses smaller nonces in the first one. -/
def Precedes (p q : TracedPayload) : Prop := ∀ x ∈ p.signed, ∀ y ∈ q.signed, NonceLT x y

/-- Some sender uses nonces in both payloads. -/
def Linked (p q : TracedPayload) : Prop := ∃ a m n, m ∈ p.nonces a ∧ n ∈ q.nonces a

theorem mem_nonces {traced : TracedPayload} {a : Address} {n : Nat} :
    n ∈ traced.nonces a ↔
      ∃ p ∈ traced.signed, p.2.tx.fromAddr = some a ∧ p.2.tx.nonce = some n := by
  simp only [nonces, noncesOf, List.mem_filterMap, List.mem_filter, List.mem_map,
    decide_eq_true_eq]
  constructor
  · rintro ⟨_, ⟨⟨p, hp, rfl⟩, hfrom⟩, hnonce⟩
    exact ⟨p, hp, hfrom, hnonce⟩
  · rintro ⟨p, hp, hfrom, hnonce⟩
    exact ⟨p.2, ⟨⟨p, hp, rfl⟩, hfrom⟩, hnonce⟩

theorem Precedes.lt {p q : TracedPayload} (h : Precedes p q) {a : Address} {m n : Nat}
    (hm : m ∈ p.nonces a) (hn : n ∈ q.nonces a) : m < n := by
  obtain ⟨x, hx, hfrom, hnonce⟩ := mem_nonces.mp hm
  obtain ⟨y, hy, hfrom', hnonce'⟩ := mem_nonces.mp hn
  exact h x hx y hy a m n hfrom hfrom' hnonce hnonce'

/-- When nonces come in the order in which they were taken, the sort keeps it
exactly when the payloads of each sender have keys in order. -/
theorem pairwise_ascends_iff {traced sorted : List TracedPayload} (h : sort traced = some sorted)
    (htaken : traced.Pairwise Precedes) :
    sorted.Pairwise Ascends ↔ traced.Pairwise fun p q =>
      Linked p q → List.KeyLE (fun r : TracedPayload => r.payload.sortNonce) p q := by
  refine List.pairwise_sortByKey?_iff htaken h ?_ ?_ ?_ ?_
  · intro p q hpq a m hm n hn
    exact (hpq.lt hm hn).le
  · intro p q hfree a m hm n hn
    exact absurd ⟨a, m, n, hm, hn⟩ hfree
  · rintro p q ⟨a, m, n, hm, hn⟩
    exact ⟨a, n, m, hn, hm⟩
  · rintro p q hpq ⟨a, m, n, hm, hn⟩ hback
    exact absurd (hpq.lt hm hn) (hback a n hn m hm).not_gt

/-- Prepared payloads are linked when they have a sender in common. -/
theorem linked_iff {p q : TracedPayload} (hp : ∀ x ∈ p.signed, IsPrepared x.2)
    (hq : ∀ y ∈ q.signed, IsPrepared y.2) :
    Linked p q ↔ ∃ sender ∈ p.sortEntry.senders, sender ∈ q.sortEntry.senders := by
  simp only [sortEntry, List.mem_map]
  constructor
  · rintro ⟨a, m, n, hm, hn⟩
    obtain ⟨x, hx, hfrom, -⟩ := mem_nonces.mp hm
    obtain ⟨y, hy, hfrom', -⟩ := mem_nonces.mp hn
    exact ⟨some a, ⟨x, hx, hfrom⟩, y, hy, hfrom'⟩
  · rintro ⟨_, ⟨x, hx, rfl⟩, y, hy, hsame⟩
    obtain ⟨a, ha⟩ := Option.isSome_iff_exists.mp (hp x hx).1
    obtain ⟨m, hm⟩ := Option.isSome_iff_exists.mp (hp x hx).2
    obtain ⟨n, hn⟩ := Option.isSome_iff_exists.mp (hq y hy).2
    exact ⟨a, m, n, mem_nonces.mpr ⟨x, hx, ha, hm⟩, mem_nonces.mpr ⟨y, hy, hsame.trans ha, hn⟩⟩

end TracedPayload

namespace TestScenario

open TracedPayload

section Batch

variable {env : Env} {requests : List ExecutionRequest} {s t : TestScenario}

/-- **Order of dispatch.** For a batch that is prepared, sorting the payloads does
not panic and keeps every sender's nonces in order exactly when the nonces that
the sort reads follow the order of the requests. -/
theorem dispatchedInOrder_iff {payloads : List ExecutionPayload}
    (h : prepareSpam env requests s = .ok payloads t) :
    DispatchedInOrder env requests s ↔ s.InSortOrder requests := by
  obtain ⟨traced, htraced, -⟩ := prepareSpam_eq_ok_iff.mp h
  have hrun := htraced
  rw [prepareSpamTraced, bind_eq_ok] at hrun
  obtain ⟨⟨gasPrice, blobGasPrice⟩, u, hprices, hloop⟩ := hrun
  change requests.mapM (prepareTraced env gasPrice blobGasPrice) u = .ok traced t at hloop
  -- fetching the prices takes no nonce
  obtain ⟨hnonces, hsigner⟩ :=
    Prod.mk.inj ((keeps_batchGasPrices untouched_nonceState env).of_ok hprices)
  have hstart : IsAfter s u [] := by
    refine ⟨hsigner, fun a => ?_⟩
    rw [hnonces]
    exact Option.map_id'.symm
  have hentries := mapM_prepareTraced_sortEntry hstart hloop
  have hsigned := mapM_prepareTraced_flatten hloop
  have hprepared : ∀ p ∈ traced, ∀ x ∈ p.signed, IsPrepared x.2 := fun p hp x hx =>
    mapM_prepareSigned_prepared hsigned x (List.mem_flatMap.mpr ⟨p, hp, hx⟩)
  have htaken : traced.Pairwise Precedes :=
    (List.pairwise_flatMap.mp (mapM_prepareSigned_ascending hsigned).2).2
  -- the sort panics on an empty bundle only
  have hsorts : (sort traced).isSome ↔ requests.length < 2 ∨ .bundle [] ∉ requests := by
    rw [sort, List.sortByKey?_isSome, ← forall_sortEntries_isSome s [], ← hentries,
      ← length_sortEntries s [], ← hentries, List.length_map, List.forall_mem_map]
    rfl
  have hfits : (s.sortEntries [] requests).Pairwise SortEntry.Fits ↔ traced.Pairwise fun p q =>
      Linked p q → List.KeyLE (fun r : TracedPayload => r.payload.sortNonce) p q := by
    rw [← hentries, List.pairwise_map]
    refine List.Pairwise.iff_of_mem fun {p q} hp hq => ?_
    rw [linked_iff (hprepared p hp) (hprepared q hq)]
    rfl
  constructor
  · rintro ⟨traced', t', sorted, htraced', hsort, -, hascends⟩
    rw [htraced] at htraced'
    obtain ⟨rfl, -⟩ := EStateM.Result.ok.inj htraced'
    exact ⟨hsorts.mp (by rw [hsort]; rfl),
      hfits.mpr ((pairwise_ascends_iff hsort htaken).mp hascends)⟩
  · rintro ⟨hshort, hpairs⟩
    obtain ⟨sorted, hsort⟩ := Option.isSome_iff_exists.mp (hsorts.mpr hshort)
    refine ⟨traced, t, sorted, htraced, hsort, ?_, ?_⟩
    · rw [sortPayloads_map, hsort]
      rfl
    · exact (pairwise_ascends_iff hsort htaken).mpr (hfits.mp hpairs)

/-! ### Generated requests -/

/-- A bundle that follows a single transaction has none of the same sender. -/
def SparesSingles (request later : ExecutionRequest) : Prop :=
  ∀ req reqs, request = .tx req → later = .bundle reqs →
    ∀ other ∈ reqs, other.tx.fromAddr ≠ req.tx.fromAddr

/-- A request as the generator makes it: a single transaction has a sender whose
nonce is known, and the transactions of a bundle carry no nonces. -/
def IsGenerated (s : TestScenario) : ExecutionRequest → Prop
  | .tx req => ∃ a n, req.tx.fromAddr = some a ∧ s.nonces.lookup a = some n
  | .bundle reqs => ∀ req ∈ reqs, req.tx.nonce = none

theorem nonce_of_isGenerated {reqs : List NamedTxRequest} (h : s.IsGenerated (.bundle reqs))
    (earlier : List NamedTxRequest) {k : WithBot Nat}
    (hk : k ∈ (s.sortEntry earlier (.bundle reqs)).nonce) : k = ⊥ := by
  cases reqs with
  | nil => cases hk
  | cons req reqs =>
    have hnonce : req.tx.nonce = none := h req List.mem_cons_self
    have hk' : some (req.tx.nonce.elim ⊥ WithBot.some) = some k := hk
    rw [hnonce] at hk'
    exact (Option.some.inj hk').symm

theorem plannedNonce_mono (earlier mid : List NamedTxRequest) {tx later : TransactionRequest}
    (h : tx.fromAddr = later.fromAddr) :
    (s.plannedNonce earlier tx).elim ⊥ WithBot.some ≤
      (s.plannedNonce (earlier ++ mid) later).elim ⊥ WithBot.some := by
  unfold plannedNonce
  rw [h]
  cases later.fromAddr with
  | none => exact le_rfl
  | some a =>
    rw [Option.bind_some, Option.bind_some]
    cases s.nonces.lookup a with
    | none => exact le_rfl
    | some n =>
      apply WithBot.coe_le_coe.mpr
      simp only [advancesOf, List.countP_append]
      omega

/-- Only a single transaction before a bundle is out of order. -/
theorem fits_sortEntry_iff {request later : ExecutionRequest} (hrequest : s.IsGenerated request)
    (hlater : s.IsGenerated later) (earlier mid : List NamedTxRequest) :
    SortEntry.Fits (s.sortEntry earlier request) (s.sortEntry (earlier ++ mid) later) ↔
      SparesSingles request later := by
  cases request with
  | bundle reqs =>
    refine iff_of_true (fun _ j hj k _ => ?_) fun _ _ hreq => nomatch hreq
    rw [nonce_of_isGenerated hrequest earlier hj]
    exact bot_le
  | tx req =>
    cases later with
    | tx other =>
      refine iff_of_true (fun hshare j hj k hk => ?_) fun _ _ _ hreqs => nomatch hreqs
      obtain rfl := Option.some.inj hj
      obtain rfl := Option.some.inj hk
      obtain ⟨sender, hsender, hsender'⟩ := hshare
      obtain rfl := List.mem_singleton.mp hsender
      exact plannedNonce_mono earlier mid (List.mem_singleton.mp hsender')
    | bundle reqs =>
      constructor
      · rintro hfits req' reqs' hreq hreqs other hother hsame
        obtain rfl := ExecutionRequest.tx.inj hreq
        obtain rfl := ExecutionRequest.bundle.inj hreqs
        -- the transaction takes a nonce, and the bundle is sorted by none
        have hshare : ∃ sender ∈ (s.sortEntry earlier (.tx req)).senders,
            sender ∈ (s.sortEntry (earlier ++ mid) (.bundle reqs)).senders :=
          ⟨req.tx.fromAddr, List.mem_singleton.mpr rfl, List.mem_map.mpr ⟨other, hother, hsame⟩⟩
        obtain ⟨head, rest, rfl⟩ := List.exists_cons_of_ne_nil (List.ne_nil_of_mem hother)
        have hle := hfits hshare _ rfl _ rfl
        have hhead : head.tx.nonce = none := hlater head List.mem_cons_self
        obtain ⟨a, n, hfrom, hn⟩ := hrequest
        simp only [plannedNonce, hfrom, Option.bind_some, hn, hhead] at hle
        exact absurd hle (WithBot.not_coe_le_bot _)
      · rintro hspares ⟨sender, hsender, hsender'⟩
        obtain rfl := List.mem_singleton.mp hsender
        obtain ⟨other, hother, hsame⟩ := List.mem_map.mp hsender'
        exact absurd hsame (hspares req reqs rfl rfl other hother)

theorem forall_fits_sortEntries_iff {request : ExecutionRequest} (hrequest : s.IsGenerated request)
    {requests : List ExecutionRequest} (hrequests : ∀ r ∈ requests, s.IsGenerated r)
    (earlier mid : List NamedTxRequest) :
    (∀ entry ∈ s.sortEntries (earlier ++ mid) requests,
      SortEntry.Fits (s.sortEntry earlier request) entry) ↔
      ∀ later ∈ requests, SparesSingles request later := by
  induction requests generalizing mid with
  | nil => simp [sortEntries]
  | cons later requests ih =>
    obtain ⟨hlater, hrest⟩ := List.forall_mem_cons.mp hrequests
    rw [sortEntries, List.forall_mem_cons, List.forall_mem_cons,
      fits_sortEntry_iff hrequest hlater, List.append_assoc, ih hrest]

theorem pairwise_sortEntries_iff (hrequests : ∀ r ∈ requests, s.IsGenerated r)
    (earlier : List NamedTxRequest) :
    (s.sortEntries earlier requests).Pairwise SortEntry.Fits ↔ requests.Pairwise SparesSingles := by
  induction requests generalizing earlier with
  | nil => exact iff_of_true List.Pairwise.nil List.Pairwise.nil
  | cons request requests ih =>
    obtain ⟨hrequest, hrest⟩ := List.forall_mem_cons.mp hrequests
    rw [sortEntries, List.pairwise_cons, List.pairwise_cons,
      forall_fits_sortEntries_iff hrequest hrest, ih hrest]

/-- Generated requests are in order when no bundle follows a single transaction of
one of its senders. -/
theorem inSortOrder_iff_of_isGenerated (hrequests : ∀ r ∈ requests, s.IsGenerated r) :
    s.InSortOrder requests ↔
      (requests.length < 2 ∨ .bundle [] ∉ requests) ∧ requests.Pairwise SparesSingles :=
  and_congr_right fun _ => pairwise_sortEntries_iff hrequests []

end Batch

namespace MixedBatch

/-- A transfer and then a bundle of the same sender: the bundle was signed with
the later nonce, and is sent first. An empty bundle makes the sort panic. -/
theorem not_dispatchedInOrder_of_bundleLast :
    ((∃ payloads t, prepareSpam env [.tx (transfer 7), .bundle [transfer 7]] scenario =
      .ok payloads t) ∧
      ¬DispatchedInOrder env [.tx (transfer 7), .bundle [transfer 7]] scenario) ∧
    ∃ payloads t, prepareSpam env [.tx (transfer 7), .bundle []] scenario = .ok payloads t ∧
      sortPayloads payloads = none := by
  refine ⟨⟨⟨_, _, rfl⟩, ?_⟩, _, _, rfl, rfl⟩
  rintro ⟨traced, t, sorted, hprepared, hsorted, -, hascends⟩
  obtain ⟨rfl, -⟩ := EStateM.Result.ok.inj hprepared
  obtain rfl := Option.some.inj hsorted
  have hpair := List.rel_of_pairwise_cons hascends List.mem_cons_self
  exact absurd (hpair 7 6 (by decide +kernel) 5 (by decide +kernel)) (by decide)

/-- A bundle and then a transfer of the same sender. -/
theorem dispatchedInOrder_of_bundleFirst :
    DispatchedInOrder env [.bundle [transfer 6, transfer 7], .tx (transfer 7)] scenario := by
  refine (dispatchedInOrder_iff rfl).mpr ⟨.inr (by decide), ?_⟩
  refine List.pairwise_cons.mpr ⟨fun entry hentry => ?_, List.pairwise_singleton _ _⟩
  obtain rfl := List.mem_singleton.mp hentry
  intro _ j hj k _
  obtain rfl := Option.some.inj hj
  exact bot_le

end MixedBatch

end TestScenario

end Contender
