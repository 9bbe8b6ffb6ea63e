import Contender.Generator.RoundRequests
import Contender.Scenario.GasLimits

/-!
# The funding estimate

`get_max_spam_cost` estimates what a single spam transaction may cost: it builds a
scenario of its own, generates one request per step, prepares these requests, and
takes the highest cost among them. The sample therefore shows the first round of every
call. The requests of a run are those of all rounds of the steps, with fuzzed values,
fees and call data of their own.

The node's prices and gas estimates do not change here. A request is prepared in two
ways, for a run and for the estimate; in both its cost is determined by the request,
by the prices, and by the gas limit of the first request with the same call data.

## Main results

* `covers_iff_restBounded` — when the estimate covers every single transaction of a plan
-/

namespace Contender

open EStateM ScenarioM

/-! ### The estimate -/

namespace TransactionRequest

/-- What a unit of gas may cost. -/
def feeCap (tx : TransactionRequest) : Nat := tx.maxFeePerGas.getD (tx.gasPrice.getD 0)

/-- What a transaction may spend. -/
def spending (tx : TransactionRequest) : Nat :=
  (tx.value.getD 0).toNat + tx.gas.getD 0 * tx.feeCap

/-- The price of a sampled transaction: the priority fee comes on top of the fee cap, in
`u128`. -/
def samplePrice (tx : TransactionRequest) : Option Nat :=
  match tx.maxPriorityFeePerGas with
  | some priorityFee => toU128 (tx.feeCap + priorityFee)
  | none => some tx.feeCap

/-- The cost of a sampled transaction. The sum with the value wraps around. -/
def sampleCost (tx : TransactionRequest) : Option Nat := do
  let price ← tx.samplePrice
  let gasCost ← toU128 (price * tx.gas.getD 0)
  return (gasCost + (tx.value.getD 0).toNat) % 2 ^ 256

end TransactionRequest

inductive SpamCostError
  | generator (e : GeneratorError)
  | scenario (e : ScenarioError)
  | spamTxsEmpty
  | panic
  deriving DecidableEq, Repr

namespace TestScenario

/-- The scenario that `get_max_spam_cost` builds, with the signers it is given and the
nonces it has fetched for them. -/
def forSampling (s : TestScenario) (nonces : AssocMap Address Nat)
    (signerMap : AssocMap Address PrivateKeySigner) : TestScenario :=
  { s with
    nonces
    signerMap
    -- the caches start empty, so that limits and prices are asked for again
    gasLimits := ∅
    gasPriceAdder := 0
    lastFetchedGasPrice := none
    lastFetchedBlobGasPrice := none }

/-- The gas price of the second preparation. -/
def sampleGasPrice (env : Env) : ScenarioM Nat := do
  let scenario ← get
  match scenario.gasPrice with
  | some overridePrice => okOr .panic (toU128 overridePrice)
  | none =>
    let answer ← rpcCall env (·.getGasPrice)
    ofExcept .rpc answer

/-- The sampled transactions: each one is prepared once by `prepare_spam`, and once
more as it came out of that. -/
def prepareSample (env : Env) (txs : List ExecutionRequest) : ScenarioM (List TransactionRequest) :=
  do
    let payloads ← prepareSpam env txs
    -- the prices are asked for once more, and the limits are in the cache now
    let blobGasPrice ← fetchBlobGasPrice env
    let gasPrice ← sampleGasPrice env
    (payloads.flatMap ExecutionPayload.reqs).mapM fun req =>
      Prod.fst <$> prepareTxRequest env gasPrice blobGasPrice req.tx

/-- `get_max_spam_cost`, with one request for each step. -/
def getMaxSpamCost (env : Env) (g : Generator) (s : TestScenario) (nonces : AssocMap Address Nat)
    (signerMap : AssocMap Address PrivateKeySigner) : Except SpamCostError Nat :=
  match { g with nonces }.loadTxs g.spamSteps.length with
  | .error e => .error (.generator e)
  | .ok txs =>
    match prepareSample env txs (s.forSampling nonces signerMap) with
    | .error e _ => .error (.scenario e)
    | .ok prepared _ =>
      match prepared.mapM TransactionRequest.sampleCost with
      | none => .error .panic
      | some costs =>
        match costs.max? with
        | none => .error .spamTxsEmpty
        | some cost => .ok cost

end TestScenario

/-! ### What a request costs -/

/-- A node whose prices and estimates do not change. -/
structure SteadyNode where
  gasPrice : Nat
  blobBaseFee : Nat
  estimate : TransactionRequest → Nat

/-- The node answers every call with these values; an estimate may also fail. -/
structure SteadyNode.Answers (node : SteadyNode) (env : Env) : Prop where
  gasPrice : ∀ i, (env.node i).getGasPrice = .ok node.gasPrice
  blobBaseFee : ∀ i, (env.node i).getBlobBaseFee = .ok node.blobBaseFee
  estimate : ∀ i tx limit, (env.node i).estimateGas tx = .ok limit → limit = node.estimate tx

/-- What determines the cost of a request. -/
structure FeeTerms where
  txType : TxType
  chainId : Nat
  gasPrice : Nat
  blobGasPrice : Nat
  estimate : TransactionRequest → Nat

/-- The settings of a scenario that decide what a request costs. -/
def TestScenario.settings (s : TestScenario) : TxType × Nat × Option Nat :=
  (s.txType, s.chainId, s.gasPrice)

theorem untouched_settings : Untouched TestScenario.settings :=
  ⟨fun _ _ => rfl, fun _ _ => rfl, fun _ _ => rfl, fun _ _ => rfl⟩

/-- The terms of a scenario whose gas price is not adjusted. -/
def TestScenario.terms (s : TestScenario) (node : SteadyNode) : FeeTerms where
  txType := s.txType
  chainId := s.chainId
  gasPrice := s.gasPrice.getD node.gasPrice
  blobGasPrice := if s.txType = .eip4844 then node.blobBaseFee else 0
  estimate := node.estimate

namespace TestScenario

variable {env : Env} {node : SteadyNode} {s t : TestScenario}

/-- The blob gas price of a steady node. -/
theorem fetchBlobGasPrice_steady (hnode : node.Answers env) {price : Nat}
    (h : fetchBlobGasPrice env s = .ok price t) : price = (s.terms node).blobGasPrice := by
  simp only [fetchBlobGasPrice, bind_eq_ok, get_eq_ok] at h
  obtain ⟨_, _, ⟨rfl, rfl⟩, h⟩ := h
  unfold terms
  split_ifs at h with htype
  · rw [if_neg htype]
    exact (pure_eq_ok.mp h).1.symm
  · rw [if_pos (not_not.mp htype)]
    simp only [bind_eq_ok] at h
    obtain ⟨answer, u, hanswer, h⟩ := h
    obtain ⟨i, rfl⟩ := returns_rpcCall env _ _ _ _ hanswer
    rw [hnode.blobBaseFee i] at h
    simp only [fetchWithCache, bind_eq_ok, pure_eq_ok] at h
    obtain ⟨_, _, -, rfl, -⟩ := h
    rfl

theorem eq_of_toU128 {m n : Nat} (h : toU128 m = some n) : n = m := by
  unfold toU128 at h
  split_ifs at h
  exact (Option.some.inj h).symm

theorem adjustedGasPrice_zero {price adjusted : Nat}
    (h : adjustedGasPrice 0 price = some adjusted) : adjusted = price := by
  rw [adjustedGasPrice, if_neg (lt_irrefl 0)] at h
  exact eq_of_toU128 h

/-- The prices of a batch, when they are not adjusted. -/
theorem batchGasPrices_steady (hnode : node.Answers env) (hadder : s.gasPriceAdder = 0)
    {gasPrice blobGasPrice : Nat} (h : batchGasPrices env s = .ok (gasPrice, blobGasPrice) t) :
    gasPrice = (s.terms node).gasPrice ∧ blobGasPrice = (s.terms node).blobGasPrice := by
  simp only [batchGasPrices, bind_eq_ok, get_eq_ok] at h
  obtain ⟨blob, u, hblob, _, _, ⟨rfl, rfl⟩, h⟩ := h
  have hkeeps : Keeps (fun s => (s.gasPrice, s.gasPriceAdder)) (fetchBlobGasPrice env) :=
    keeps_fetchBlobGasPrice (fun _ _ => rfl) (fun _ _ => rfl) env
  obtain ⟨hprice, hkept⟩ := Prod.mk.inj (hkeeps.of_ok hblob)
  rw [← fetchBlobGasPrice_steady hnode hblob]
  change gasPrice = s.gasPrice.getD node.gasPrice ∧ _
  rw [← hprice]
  cases hset : u.gasPrice with
  | some overridePrice =>
    simp only [hset, bind_eq_ok, okOr_eq_ok, pure_eq_ok, Prod.mk.injEq] at h
    obtain ⟨_, _, ⟨hfits, -⟩, ⟨rfl, rfl⟩, -⟩ := h
    exact ⟨eq_of_toU128 hfits, rfl⟩
  | none =>
    simp only [hset, hkept, hadder, bind_eq_ok, okOr_eq_ok, ofExcept_eq_ok, pure_eq_ok,
      Prod.mk.injEq] at h
    obtain ⟨answer, _, hanswer, fetched, _, ⟨hfetched, -⟩, _, _, -, _, _, ⟨hadjusted, -⟩, _, _,
      ⟨hblobAdjusted, -⟩, ⟨rfl, rfl⟩, -⟩ := h
    obtain ⟨i, rfl⟩ := returns_rpcCall env _ _ _ _ hanswer
    rw [hnode.gasPrice i] at hfetched
    obtain rfl := Except.ok.inj hfetched
    exact ⟨adjustedGasPrice_zero hadjusted, adjustedGasPrice_zero hblobAdjusted⟩

theorem sampleGasPrice_steady (hnode : node.Answers env) {price : Nat}
    (h : sampleGasPrice env s = .ok price t) : price = (s.terms node).gasPrice := by
  simp only [sampleGasPrice, bind_eq_ok, get_eq_ok] at h
  obtain ⟨_, _, ⟨rfl, rfl⟩, h⟩ := h
  change price = s.gasPrice.getD node.gasPrice
  cases hset : s.gasPrice with
  | some overridePrice =>
    simp only [hset, okOr_eq_ok] at h
    exact eq_of_toU128 h.1
  | none =>
    simp only [hset, bind_eq_ok, ofExcept_eq_ok] at h
    obtain ⟨answer, u, hanswer, hok, -⟩ := h
    obtain ⟨i, rfl⟩ := returns_rpcCall env _ _ _ _ hanswer
    rw [hnode.gasPrice i] at hok
    exact (Except.ok.inj hok).symm

end TestScenario

namespace FeeTerms

variable (terms : FeeTerms) (env : Env)

/-- The limit a request would get on its own. -/
def ownLimit (tx : TransactionRequest) : Nat :=
  tx.gas.getD (terms.estimate (tx.forEstimate terms.blobGasPrice))

/-- The limit of a request among others: the cached one, or that of the first request
with the same call data. -/
def limitAmong (cache : AssocMap (BitVec 256) Nat) (txs : List TransactionRequest)
    (tx : TransactionRequest) : Nat :=
  (cache.lookup (tx.key env)).getD
    (((txs.find? fun other => other.key env = tx.key env).map terms.ownLimit).getD 0)

/-- The fee cap a request is sent with. -/
def feeCap (tx : TransactionRequest) : Nat :=
  match terms.txType with
  | .legacy | .eip2930 => tx.maxFeePerGas.getD terms.gasPrice
  | .eip1559 | .eip7702 | .eip4844 =>
    max terms.gasPrice (tx.maxPriorityFeePerGas.getD (terms.gasPrice / 10))

/-- The priority fee a request is sent with. -/
def priorityFee (tx : TransactionRequest) : Option Nat :=
  match terms.txType with
  | .legacy | .eip2930 => tx.maxPriorityFeePerGas
  | .eip1559 | .eip7702 | .eip4844 => some (tx.maxPriorityFeePerGas.getD (terms.gasPrice / 10))

/-- What a request may spend with a limit. -/
def spending (tx : TransactionRequest) (limit : Nat) : Nat :=
  (tx.value.getD 0).toNat + limit * terms.feeCap tx

/-- What the estimate allows for a sampled request with a limit. -/
def allowance (tx : TransactionRequest) (limit : Nat) : Nat :=
  ((tx.value.getD 0).toNat + limit * (terms.feeCap tx + (terms.priorityFee tx).getD 0)) % 2 ^ 256

/-- The request completed with a limit. -/
def completed (tx : TransactionRequest) (limit : Nat) : TransactionRequest :=
  tx.complete terms.txType terms.gasPrice (tx.maxPriorityFeePerGas.getD (terms.gasPrice / 10))
    limit terms.chainId terms.blobGasPrice

theorem feeCap_completed (tx : TransactionRequest) (limit : Nat) :
    (terms.completed tx limit).feeCap = terms.feeCap tx := by
  obtain ⟨txType, chainId, gasPrice, blobGasPrice, estimate⟩ := terms
  cases txType <;> rfl

theorem priorityFee_completed (tx : TransactionRequest) (limit : Nat) :
    (terms.completed tx limit).maxPriorityFeePerGas = terms.priorityFee tx := by
  obtain ⟨txType, chainId, gasPrice, blobGasPrice, estimate⟩ := terms
  cases txType <;> rfl

theorem value_completed (tx : TransactionRequest) (limit : Nat) :
    (terms.completed tx limit).value = tx.value := by
  obtain ⟨txType, chainId, gasPrice, blobGasPrice, estimate⟩ := terms
  cases txType <;> rfl

theorem input_completed (tx : TransactionRequest) (limit : Nat) :
    (terms.completed tx limit).input = tx.input := by
  obtain ⟨txType, chainId, gasPrice, blobGasPrice, estimate⟩ := terms
  cases txType <;> rfl

/-- Completing a request twice changes nothing more, but for the nonce. -/
theorem completed_completed (tx : TransactionRequest) (limit : Nat) (nonce : Option Nat) :
    terms.completed { terms.completed tx limit with nonce } limit =
      terms.completed { tx with nonce } limit := by
  obtain ⟨txType, chainId, gasPrice, blobGasPrice, estimate⟩ := terms
  cases txType <;> rfl

/-! ### The limits of a list of requests -/

/-- The cache after a request. -/
def fill (cache : AssocMap (BitVec 256) Nat) (tx : TransactionRequest) :
    AssocMap (BitVec 256) Nat :=
  if (cache.lookup (tx.key env)).isSome then cache
  else cache.insert (tx.key env) (terms.ownLimit tx)

variable {terms env}

theorem lookup_fill (cache : AssocMap (BitVec 256) Nat) (tx : TransactionRequest)
    (key : BitVec 256) :
    (terms.fill env cache tx).lookup key =
      if key = tx.key env then some ((cache.lookup key).getD (terms.ownLimit tx))
      else cache.lookup key := by
  unfold fill
  split_ifs with hsome hkey hkey
  · subst hkey
    obtain ⟨limit, hlimit⟩ := Option.isSome_iff_exists.mp hsome
    rw [hlimit]
    rfl
  · rfl
  · subst hkey
    rw [AList.lookup_insert, Option.not_isSome_iff_eq_none.mp hsome]
    rfl
  · rw [AList.lookup_insert_ne hkey]

/-- An entry stays as it is. -/
theorem lookup_foldl_fill_of_some {cache : AssocMap (BitVec 256) Nat}
    (txs : List TransactionRequest) {key : BitVec 256} {limit : Nat}
    (h : cache.lookup key = some limit) :
    (txs.foldl (terms.fill env) cache).lookup key = some limit := by
  induction txs generalizing cache with
  | nil => exact h
  | cons tx txs ih =>
    apply ih
    rw [lookup_fill, h]
    split_ifs <;> rfl

/-- Every request finds the limit it has among the others. -/
theorem lookup_foldl_fill {cache : AssocMap (BitVec 256) Nat} {txs : List TransactionRequest}
    {tx : TransactionRequest} (h : tx ∈ txs) :
    (txs.foldl (terms.fill env) cache).lookup (tx.key env) =
      some (terms.limitAmong env cache txs tx) := by
  induction txs generalizing cache with
  | nil => cases h
  | cons first txs ih =>
    by_cases hkey : first.key env = tx.key env
    · -- the first request of the list decides
      rw [List.foldl_cons]
      apply lookup_foldl_fill_of_some
      rw [lookup_fill, if_pos hkey.symm, limitAmong, List.find?_cons_of_pos (by simpa using hkey)]
      rfl
    · have htail : tx ∈ txs := (List.mem_cons.mp h).resolve_left fun heq => hkey (by rw [heq])
      rw [List.foldl_cons, ih htail]
      unfold limitAmong
      rw [lookup_fill, if_neg (Ne.symm hkey), List.find?_cons_of_neg (by simpa using hkey)]

/-! ### Preparing a request -/

variable (terms env)

/-- The request is completed with the limit that the cache holds for it. -/
def Completes (cache : AssocMap (BitVec 256) Nat) (tx filled : TransactionRequest) : Prop :=
  ∃ limit nonce, cache.lookup (tx.key env) = some limit ∧
    filled = terms.completed { tx with nonce := some nonce } limit

/-- The scenario and the node keep to the terms. -/
structure Governs (s : TestScenario) : Prop where
  txType : s.txType = terms.txType
  chainId : s.chainId = terms.chainId
  estimate : ∀ i tx limit, (env.node i).estimateGas tx = .ok limit → limit = terms.estimate tx

variable {terms env}

theorem Completes.mono {cache cache' : AssocMap (BitVec 256) Nat}
    {tx filled : TransactionRequest} (h : terms.Completes env cache tx filled)
    (hmono : ∀ key limit, cache.lookup key = some limit → cache'.lookup key = some limit) :
    terms.Completes env cache' tx filled := by
  obtain ⟨limit, nonce, hlimit, rfl⟩ := h
  exact ⟨limit, nonce, hmono _ _ hlimit, rfl⟩

theorem Governs.of_settings {s t : TestScenario} (h : terms.Governs env s)
    (heq : t.settings = s.settings) : terms.Governs env t := by
  obtain ⟨htype, hrest⟩ := Prod.mk.inj heq
  obtain ⟨hchain, -⟩ := Prod.mk.inj hrest
  exact ⟨htype.trans h.txType, hchain.trans h.chainId, h.estimate⟩

/-- A limit that a request may put into the cache is its own one. -/
theorem Governs.ownLimit_of_mayFill {s : TestScenario} (h : terms.Governs env s)
    {tx : TransactionRequest} {limit : Nat}
    (hfill : PrepareCall.MayFill env ⟨tx, terms.gasPrice, terms.blobGasPrice⟩ limit) :
    limit = terms.ownLimit tx := by
  unfold ownLimit
  rcases hfill with hgas | ⟨hgas, i, hestimate⟩
  · rw [show tx.gas = some limit from hgas]
    rfl
  · rw [show tx.gas = none from hgas]
    exact h.estimate i _ _ hestimate

/-- **One preparation.** -/
theorem prepareTxRequest_completes {s t : TestScenario} {tx filled : TransactionRequest}
    {signer : PrivateKeySigner} (hterms : terms.Governs env s)
    (h : TestScenario.prepareTxRequest env terms.gasPrice terms.blobGasPrice tx s =
      .ok (filled, signer) t) :
    t.settings = s.settings ∧ t.gasLimits = terms.fill env s.gasLimits tx ∧
      terms.Completes env t.gasLimits tx filled := by
  have hcached : TestScenario.Cached env ⟨tx, terms.gasPrice, terms.blobGasPrice⟩ s t := by
    have := TestScenario.cached_prepareTxRequest env ⟨tx, terms.gasPrice, terms.blobGasPrice⟩ s
    rwa [h] at this
  simp only [TestScenario.prepareTxRequest, bind_eq_ok, okOr_eq_ok, get_eq_ok, pure_eq_ok,
    Prod.mk.injEq] at h
  obtain ⟨⟨sender, nonce⟩, u, htake, key, v, hgas, _, _, ⟨rfl, rfl⟩, limit, _, ⟨hlimit, rfl⟩, _, _,
    ⟨-, rfl⟩, ⟨rfl, -⟩, rfl⟩ := h
  obtain rfl : tx.key env = key :=
    TestScenario.returns_updateGasMap env ⟨tx, terms.gasPrice, terms.blobGasPrice⟩ u key v hgas
  have hsettings : v.settings = s.settings :=
    ((TestScenario.keeps_updateGasMap untouched_settings env tx terms.blobGasPrice).of_ok
      hgas).trans ((TestScenario.keeps_takeNonce (fun _ _ => rfl) tx).of_ok htake)
  have hgoverns := hterms.of_settings hsettings
  refine ⟨hsettings, ?_, limit, nonce, hlimit, ?_⟩
  · unfold fill
    rcases hcached with hsame | ⟨hnone, limit', hfill, hinsert⟩
    · rw [if_pos (by rw [← hsame, hlimit]; rfl), hsame]
    · have hnone' : s.gasLimits.lookup (tx.key env) = none := hnone
      rw [if_neg (by rw [hnone']; exact Bool.false_ne_true), hinsert,
        hterms.ownLimit_of_mayFill hfill]
      rfl
  · rw [hgoverns.txType, hgoverns.chainId]
    rfl

/-- The transactions of a bundle, or of a batch of single ones. -/
theorem mapM_prepareSigned_completes {s t : TestScenario} {reqs : List NamedTxRequest}
    {signed : List (TxHash × NamedTxRequest)} (hterms : terms.Governs env s)
    (h : reqs.mapM (TestScenario.prepareSigned env terms.gasPrice terms.blobGasPrice) s =
      .ok signed t) :
    t.settings = s.settings ∧
      t.gasLimits = (reqs.map NamedTxRequest.tx).foldl (terms.fill env) s.gasLimits ∧
      List.Forall₂ (fun req p => terms.Completes env t.gasLimits req.tx p.2.tx) reqs signed := by
  induction reqs generalizing s signed with
  | nil =>
    obtain ⟨rfl, rfl⟩ := mapM_nil_eq_ok.mp h
    exact ⟨rfl, rfl, .nil⟩
  | cons req reqs ih =>
    obtain ⟨p, u, rest, hhead, htail, rfl⟩ := mapM_cons_eq_ok.mp h
    simp only [TestScenario.prepareSigned, bind_eq_ok, ofExcept_eq_ok, pure_eq_ok] at hhead
    obtain ⟨⟨tx, signer⟩, _, hprepare, txHash, _, ⟨-, rfl⟩, rfl, rfl⟩ := hhead
    obtain ⟨hsettings, hlimits, hfirst⟩ := prepareTxRequest_completes hterms hprepare
    obtain ⟨hsettings', hlimits', hrest⟩ := ih (hterms.of_settings hsettings) htail
    rw [hlimits] at hlimits'
    refine ⟨hsettings'.trans hsettings, hlimits', .cons (hfirst.mono ?_) hrest⟩
    -- what the first request finds stays there
    intro key limit hlimit
    rw [hlimits']
    rw [hlimits] at hlimit
    exact lookup_foldl_fill_of_some _ hlimit

/-- A single payload is completed, and a bundle is kept as it is. -/
inductive CompletesPayload (terms : FeeTerms) (env : Env) (cache : AssocMap (BitVec 256) Nat) :
    ExecutionRequest → ExecutionPayload → Prop
  | tx {req filled : NamedTxRequest} (txHash : TxHash)
      (h : terms.Completes env cache req.tx filled.tx) :
      CompletesPayload terms env cache (.tx req) (.signedTx txHash filled)
  | bundle {reqs : List NamedTxRequest} (txHashes : List TxHash) :
      CompletesPayload terms env cache (.bundle reqs) (.signedTxBundle txHashes reqs)

theorem CompletesPayload.mono {cache cache' : AssocMap (BitVec 256) Nat}
    {request : ExecutionRequest} {payload : ExecutionPayload}
    (h : CompletesPayload terms env cache request payload)
    (hmono : ∀ key limit, cache.lookup key = some limit → cache'.lookup key = some limit) :
    CompletesPayload terms env cache' request payload := by
  cases h with
  | tx txHash h => exact .tx txHash (h.mono hmono)
  | bundle txHashes => exact .bundle txHashes

theorem prepareTraced_completes {s t : TestScenario} {request : ExecutionRequest}
    {traced : TracedPayload} (hterms : terms.Governs env s)
    (h : TestScenario.prepareTraced env terms.gasPrice terms.blobGasPrice request s =
      .ok traced t) :
    t.settings = s.settings ∧
      t.gasLimits = (request.txs.map NamedTxRequest.tx).foldl (terms.fill env) s.gasLimits ∧
      CompletesPayload terms env t.gasLimits request traced.payload := by
  obtain ⟨hsettings, hlimits, hall⟩ :=
    mapM_prepareSigned_completes hterms (TestScenario.prepareTraced_txs h)
  refine ⟨hsettings, hlimits, ?_⟩
  cases request with
  | tx req =>
    obtain ⟨signed, -, rfl⟩ := TestScenario.prepareTraced_tx_eq_ok.mp h
    cases hall with
    | cons hfirst _ => exact .tx signed.1 hfirst
  | bundle reqs =>
    obtain ⟨-, signed, -, rfl⟩ := TestScenario.prepareTraced_bundle_eq_ok.mp h
    exact .bundle _

/-- **A batch.** Every request of a batch gets the limit it has among the others. -/
theorem mapM_prepareTraced_completes {s t : TestScenario} {requests : List ExecutionRequest}
    {traced : List TracedPayload} (hterms : terms.Governs env s)
    (h : requests.mapM (TestScenario.prepareTraced env terms.gasPrice terms.blobGasPrice) s =
      .ok traced t) :
    t.settings = s.settings ∧
      t.gasLimits = (allTxs requests).foldl (terms.fill env) s.gasLimits ∧
      List.Forall₂ (fun request p => CompletesPayload terms env t.gasLimits request p.payload)
        requests traced := by
  induction requests generalizing s traced with
  | nil =>
    obtain ⟨rfl, rfl⟩ := mapM_nil_eq_ok.mp h
    exact ⟨rfl, rfl, .nil⟩
  | cons request requests ih =>
    obtain ⟨p, u, rest, hhead, htail, rfl⟩ := mapM_cons_eq_ok.mp h
    obtain ⟨hsettings, hlimits, hfirst⟩ := prepareTraced_completes hterms hhead
    obtain ⟨hsettings', hlimits', hrest⟩ := ih (hterms.of_settings hsettings) htail
    refine ⟨hsettings'.trans hsettings, ?_, .cons (hfirst.mono fun key limit hlimit => ?_) hrest⟩
    · rw [hlimits', hlimits, allTxs, allTxs, List.flatMap_cons, List.map_append, List.foldl_append]
    · rw [hlimits']
      exact lookup_foldl_fill_of_some _ hlimit

/-- Preparing a batch at the prices of the terms. -/
theorem prepareSpam_completes {s t : TestScenario} {requests : List ExecutionRequest}
    {payloads : List ExecutionPayload} (hterms : terms.Governs env s)
    (hprices : ∀ gasPrice blobGasPrice u,
      TestScenario.batchGasPrices env s = .ok (gasPrice, blobGasPrice) u →
        gasPrice = terms.gasPrice ∧ blobGasPrice = terms.blobGasPrice)
    (h : TestScenario.prepareSpam env requests s = .ok payloads t) :
    t.settings = s.settings ∧
      t.gasLimits = (allTxs requests).foldl (terms.fill env) s.gasLimits ∧
      List.Forall₂ (CompletesPayload terms env t.gasLimits) requests payloads := by
  obtain ⟨traced, htraced, rfl⟩ := TestScenario.prepareSpam_eq_ok_iff.mp h
  obtain ⟨⟨gasPrice, blobGasPrice⟩, u, hbatch, hloop⟩ := bind_eq_ok.mp htraced
  obtain ⟨rfl, rfl⟩ := hprices _ _ _ hbatch
  have hkept := (TestScenario.keeps_batchGasPrices untouched_settings env).of_ok hbatch
  have hlimits : u.gasLimits = s.gasLimits :=
    (TestScenario.keeps_fetchedPrices (fun _ _ => rfl) (fun _ _ => rfl) (fun _ _ => rfl)
      env).of_ok hbatch
  obtain ⟨hsettings, hfilled, hall⟩ :=
    mapM_prepareTraced_completes (hterms.of_settings hkept) hloop
  refine ⟨hsettings.trans hkept, hlimits ▸ hfilled, ?_⟩
  rw [List.forall₂_map_right_iff]
  exact hall

/-- What a completed request may spend. -/
theorem Completes.spending {cache : AssocMap (BitVec 256) Nat} {tx filled : TransactionRequest}
    {limit : Nat} (h : terms.Completes env cache tx filled)
    (hlimit : cache.lookup (tx.key env) = some limit) :
    filled.spending = terms.spending tx limit := by
  obtain ⟨limit', nonce, hlimit', rfl⟩ := h
  obtain rfl := Option.some.inj (hlimit.symm.trans hlimit')
  rw [TransactionRequest.spending, feeCap_completed, value_completed]
  rfl

/-- What the estimate makes of a completed request. -/
theorem Completes.sampleCost {cache : AssocMap (BitVec 256) Nat} {tx filled : TransactionRequest}
    {limit cost : Nat} (h : terms.Completes env cache tx filled)
    (hlimit : cache.lookup (tx.key env) = some limit) (hcost : filled.sampleCost = some cost) :
    cost = terms.allowance tx limit := by
  obtain ⟨limit', nonce, hlimit', rfl⟩ := h
  obtain rfl := Option.some.inj (hlimit.symm.trans hlimit')
  unfold TransactionRequest.sampleCost at hcost
  rw [value_completed] at hcost
  obtain ⟨price, hprice, hcost⟩ := Option.bind_eq_some_iff.mp hcost
  obtain ⟨gasCost, hgas, hcost⟩ := Option.bind_eq_some_iff.mp hcost
  obtain rfl := Option.some.inj hcost
  obtain rfl := TestScenario.eq_of_toU128 hgas
  have hsum : price = terms.feeCap tx + (terms.priorityFee tx).getD 0 := by
    unfold TransactionRequest.samplePrice at hprice
    rw [feeCap_completed, priorityFee_completed] at hprice
    change (match terms.priorityFee tx with
      | some priorityFee => toU128 (terms.feeCap tx + priorityFee)
      | none => some (terms.feeCap tx)) = some price at hprice
    cases hfee : terms.priorityFee tx with
    | none =>
      rw [hfee] at hprice
      exact (Option.some.inj hprice).symm
    | some fee =>
      rw [hfee] at hprice
      exact TestScenario.eq_of_toU128 hprice
  rw [hsum, allowance, Nat.add_comm, Nat.mul_comm]
  rfl

/-! ### Preparing a request twice -/

/-- A request as it comes out of the first preparation: completed, or as it was. -/
def Again (terms : FeeTerms) (env : Env) (cache : AssocMap (BitVec 256) Nat)
    (tx again : TransactionRequest) : Prop :=
  again = tx ∧ (cache.lookup (tx.key env)).isSome ∨ terms.Completes env cache tx again

theorem key_of_again {cache : AssocMap (BitVec 256) Nat} {tx again : TransactionRequest}
    (h : terms.Again env cache tx again) : again.key env = tx.key env := by
  rcases h with ⟨rfl, -⟩ | ⟨limit, nonce, -, rfl⟩
  · rfl
  · unfold TransactionRequest.key
    rw [input_completed]

theorem fill_of_again {cache : AssocMap (BitVec 256) Nat} {tx again : TransactionRequest}
    (h : terms.Again env cache tx again) : terms.fill env cache again = cache := by
  have hsome : (cache.lookup (again.key env)).isSome := by
    rw [key_of_again h]
    rcases h with ⟨-, hsome⟩ | ⟨limit, nonce, hlimit, -⟩
    · exact hsome
    · rw [hlimit]
      rfl
  rw [fill, if_pos hsome]

/-- The second preparation completes the request as the first one did. -/
theorem Completes.of_again {cache : AssocMap (BitVec 256) Nat}
    {tx again filled : TransactionRequest} (hagain : terms.Again env cache tx again)
    (h : terms.Completes env cache again filled) : terms.Completes env cache tx filled := by
  have hkey := key_of_again hagain
  rcases hagain with ⟨rfl, -⟩ | ⟨limit, nonce, hlimit, rfl⟩
  · exact h
  · obtain ⟨limit', nonce', hlimit', rfl⟩ := h
    rw [hkey, hlimit] at hlimit'
    obtain rfl := Option.some.inj hlimit'
    exact ⟨limit, nonce', hlimit, completed_completed terms _ limit _⟩

theorem forall₂_again {cache : AssocMap (BitVec 256) Nat} {requests : List ExecutionRequest}
    {payloads : List ExecutionPayload}
    (hcached : ∀ tx ∈ allTxs requests, (cache.lookup (tx.key env)).isSome)
    (h : List.Forall₂ (CompletesPayload terms env cache) requests payloads) :
    List.Forall₂ (fun tx req => terms.Again env cache tx req.tx) (allTxs requests)
      (payloads.flatMap ExecutionPayload.reqs) := by
  induction h with
  | nil => exact .nil
  | @cons request payload requests payloads hfirst _ ih =>
    have hall : allTxs (request :: requests) =
        request.txs.map NamedTxRequest.tx ++ allTxs requests := by
      rw [allTxs, List.flatMap_cons, List.map_append]
      rfl
    rw [hall] at hcached ⊢
    rw [List.flatMap_cons]
    refine List.rel_append ?_ (ih fun tx htx => hcached tx (List.mem_append_right _ htx))
    cases hfirst with
    | tx txHash hcompletes => exact .cons (.inr hcompletes) .nil
    | @bundle reqs txHashes =>
      -- the requests of a bundle are prepared once more as they were
      rw [List.forall₂_map_left_iff]
      refine List.forall₂_same.mpr fun req hreq => ?_
      exact .inl ⟨rfl, hcached _ (List.mem_append_left _ (List.mem_map_of_mem hreq))⟩

theorem mapM_prepareTxRequest_again {cache : AssocMap (BitVec 256) Nat}
    {txs outs : List TransactionRequest} {reqs : List NamedTxRequest} {s t : TestScenario}
    (hterms : terms.Governs env s) (hcache : s.gasLimits = cache)
    (hagain : List.Forall₂ (fun tx req => terms.Again env cache tx req.tx) txs reqs)
    (h : reqs.mapM (fun req => Prod.fst <$>
      TestScenario.prepareTxRequest env terms.gasPrice terms.blobGasPrice req.tx) s = .ok outs t) :
    List.Forall₂ (terms.Completes env cache) txs outs := by
  induction hagain generalizing s outs with
  | nil =>
    obtain ⟨rfl, -⟩ := mapM_nil_eq_ok.mp h
    exact .nil
  | cons hfirst _ ih =>
    obtain ⟨out, u, rest, hhead, htail, rfl⟩ := mapM_cons_eq_ok.mp h
    obtain ⟨⟨filled, signer⟩, hprepare, rfl⟩ := map_eq_ok.mp hhead
    obtain ⟨hsettings, hlimits, hcompletes⟩ := prepareTxRequest_completes hterms hprepare
    rw [hcache, fill_of_again hfirst] at hlimits
    rw [hlimits] at hcompletes
    exact .cons (hcompletes.of_again hfirst) (ih (hterms.of_settings hsettings) hlimits htail)

end FeeTerms

/-! ### The two preparations -/

namespace TestScenario

variable {env : Env} {node : SteadyNode} {s t : TestScenario}

theorem terms_of_settings (node : SteadyNode) (h : t.settings = s.settings) :
    t.terms node = s.terms node := by
  obtain ⟨htype, hrest⟩ := Prod.mk.inj h
  obtain ⟨hchain, hprice⟩ := Prod.mk.inj hrest
  unfold terms
  rw [htype, hchain, hprice]

theorem governs_terms (hnode : node.Answers env) (s : TestScenario) :
    (s.terms node).Governs env s := ⟨rfl, rfl, hnode.estimate⟩

/-- The cache after a list of requests. -/
def filledCache (env : Env) (node : SteadyNode) (s : TestScenario)
    (requests : List ExecutionRequest) : AssocMap (BitVec 256) Nat :=
  (allTxs requests).foldl ((s.terms node).fill env) s.gasLimits

/-- What fetching the prices leaves alone. -/
def kept (s : TestScenario) : (TxType × Nat × Option Nat) × AssocMap (BitVec 256) Nat :=
  (s.settings, s.gasLimits)

theorem keeps_sampleGasPrice (env : Env) : Keeps kept (sampleGasPrice env) := by
  refine Keeps.get.bind fun scenario => ?_
  split
  · exact keeps_okOr _ _
  · exact (keeps_rpcCall (fun _ _ => rfl) env _).bind fun _ => keeps_ofExcept _ _

/-- What the estimate is made from. -/
theorem prepareSample_completes (hnode : node.Answers env) (hadder : s.gasPriceAdder = 0)
    {requests : List ExecutionRequest} {prepared : List TransactionRequest}
    (h : prepareSample env requests s = .ok prepared t) :
    List.Forall₂ ((s.terms node).Completes env (s.filledCache env node requests))
      (allTxs requests) prepared := by
  simp only [prepareSample, bind_eq_ok] at h
  obtain ⟨payloads, u, hspam, blob, v, hblob, price, w, hprice, hloop⟩ := h
  obtain ⟨hsettings, hlimits, hall⟩ := FeeTerms.prepareSpam_completes (governs_terms hnode s)
    (fun _ _ _ hbatch => batchGasPrices_steady hnode hadder hbatch) hspam
  -- fetching the prices again changes neither the settings nor the cache
  have hblobKeeps : Keeps kept (fetchBlobGasPrice env) :=
    keeps_fetchBlobGasPrice (fun _ _ => rfl) (fun _ _ => rfl) env
  have hblobKept := hblobKeeps.of_ok hblob
  have hpriceKept := (keeps_sampleGasPrice env).of_ok hprice
  obtain ⟨hsettingsV, hlimitsV⟩ := Prod.mk.inj hblobKept
  obtain ⟨hsettingsW, hlimitsW⟩ := Prod.mk.inj hpriceKept
  obtain rfl : blob = (s.terms node).blobGasPrice :=
    (fetchBlobGasPrice_steady hnode hblob).trans
      (congrArg FeeTerms.blobGasPrice (terms_of_settings node hsettings))
  obtain rfl : price = (s.terms node).gasPrice :=
    (sampleGasPrice_steady hnode hprice).trans
      (congrArg FeeTerms.gasPrice (terms_of_settings node (hsettingsV.trans hsettings)))
  have hcache : w.gasLimits = s.filledCache env node requests :=
    (hlimitsW.trans hlimitsV).trans hlimits
  rw [hlimits] at hall
  have hcached : ∀ tx ∈ allTxs requests,
      ((s.filledCache env node requests).lookup (tx.key env)).isSome := by
    intro tx htx
    rw [filledCache, FeeTerms.lookup_foldl_fill htx]
    rfl
  exact FeeTerms.mapM_prepareTxRequest_again
    ((governs_terms hnode s).of_settings ((hsettingsW.trans hsettingsV).trans hsettings)) hcache
    (FeeTerms.forall₂_again hcached hall) hloop

end TestScenario

/-! ### When the estimate is enough -/

/-- No single transaction of a batch may spend more than `cost`. -/
def Covers (cost : Nat) (payloads : List ExecutionPayload) : Prop :=
  ∀ txHash req, .signedTx txHash req ∈ payloads → req.tx.spending ≤ cost

/-- The sample holds, for every single request of the plan, a request that the estimate
allows at least as much as the former may spend. -/
def FeeTerms.Dominates (terms : FeeTerms) (env : Env) (cache : AssocMap (BitVec 256) Nat)
    (plan sample : List ExecutionRequest) : Prop :=
  ∀ req, .tx req ∈ plan → ∃ other ∈ allTxs sample,
    terms.spending req.tx (terms.limitAmong env cache (allTxs plan) req.tx) ≤
      terms.allowance other (terms.limitAmong env ∅ (allTxs sample) other)

namespace FeeTerms

/-- The gas limit of a call in a round of a plan, by its call data. -/
def roundLimit (terms : FeeTerms) (env : Env) (cache : AssocMap (BitVec 256) Nat) (g : Generator)
    (rounds i : Nat) (call : FunctionCallDefinition) : Nat :=
  terms.limitAmong env cache (g.planRequests rounds) (g.roundRequest i call)

/-- What a call may spend in a round of a plan. -/
def roundSpending (terms : FeeTerms) (env : Env) (cache : AssocMap (BitVec 256) Nat)
    (g : Generator) (rounds i : Nat) (call : FunctionCallDefinition) : Nat :=
  terms.spending (g.roundRequest i call) (terms.roundLimit env cache g rounds i call)

/-- What the estimate allows for a call, by its first round and without a cache. -/
def firstAllowance (terms : FeeTerms) (env : Env) (g : Generator)
    (call : FunctionCallDefinition) : Nat :=
  terms.allowance (g.roundRequest 0 call) (terms.roundLimit env ∅ g 1 0 call)

/-- The sample, which has nonces of its own, shows the call as it is in the round: it makes the
request of its first round, with the limit that its call data has there, and the cost does not
wrap around. -/
structure Shown (terms : FeeTerms) (env : Env) (cache : AssocMap (BitVec 256) Nat) (g : Generator)
    (nonces : AssocMap Address Nat) (rounds i : Nat) (call : FunctionCallDefinition) : Prop where
  request : g.roundRequest i call = { g with nonces }.roundRequest 0 call
  limit : terms.roundLimit env cache g rounds i call =
    terms.roundLimit env ∅ { g with nonces } 1 0 call
  fits : ((g.roundRequest i call).value.getD 0).toNat + terms.roundLimit env cache g rounds i call *
    (terms.feeCap (g.roundRequest i call) + (terms.priorityFee (g.roundRequest i call)).getD 0) <
      2 ^ 256

/-- A single call, in a round that the sample does not show, is no dearer than the first round of
some call. -/
def RestBounded (terms : FeeTerms) (env : Env) (cache : AssocMap (BitVec 256) Nat)
    (g : Generator) (nonces : AssocMap Address Nat) (rounds : Nat) : Prop :=
  ∀ call, .tx call ∈ g.spamSteps → ∀ i < rounds, ¬terms.Shown env cache g nonces rounds i call →
    ∃ first ∈ g.spamCalls, terms.roundSpending env cache g rounds i call ≤
      terms.firstAllowance env { g with nonces } first

/-- The estimate is enough for what the sample shows. -/
theorem Shown.le {terms : FeeTerms} {env : Env} {cache : AssocMap (BitVec 256) Nat}
    {g : Generator} {nonces : AssocMap Address Nat} {rounds i : Nat}
    {call : FunctionCallDefinition} (h : terms.Shown env cache g nonces rounds i call) :
    terms.roundSpending env cache g rounds i call ≤
      terms.firstAllowance env { g with nonces } call := by
  rw [firstAllowance, ← h.request, ← h.limit, allowance, Nat.mod_eq_of_lt h.fits, roundSpending,
    spending]
  apply Nat.add_le_add_left
  apply Nat.mul_le_mul_left
  exact Nat.le_add_right _ _

end FeeTerms

namespace TestScenario

variable {env : Env} {node : SteadyNode} {g : Generator} {s t : TestScenario}

/-- The estimate is the largest allowance of the sample. -/
theorem getMaxSpamCost_eq_ok (hnode : node.Answers env) {nonces : AssocMap Address Nat}
    {signerMap : AssocMap Address PrivateKeySigner} {sample : List ExecutionRequest} {cost : Nat}
    (hsample : { g with nonces }.loadTxs g.spamSteps.length = .ok sample)
    (h : getMaxSpamCost env g s nonces signerMap = .ok cost) :
    (∃ tx ∈ allTxs sample, cost = (s.terms node).allowance tx
      ((s.terms node).limitAmong env ∅ (allTxs sample) tx)) ∧
    ∀ tx ∈ allTxs sample, (s.terms node).allowance tx
      ((s.terms node).limitAmong env ∅ (allTxs sample) tx) ≤ cost := by
  unfold getMaxSpamCost at h
  rw [hsample] at h
  dsimp only at h
  split at h
  · cases h
  · rename_i prepared u hprepared
    split at h
    · cases h
    · rename_i costs hcosts
      split at h
      · cases h
      · rename_i highest hmax
        obtain rfl := Except.ok.inj h
        obtain ⟨hmem, hle⟩ := List.max?_eq_some_iff.mp hmax
        have hcosts := List.mapM_eq_some_iff.mp hcosts
        have hprepared := prepareSample_completes hnode rfl hprepared
        -- the costs are the allowances of the sampled requests
        have hallowance : ∀ tx filled c, tx ∈ allTxs sample →
            (s.terms node).Completes env
              ((s.forSampling nonces signerMap).filledCache env node sample) tx filled →
            filled.sampleCost = some c → c = (s.terms node).allowance tx
              ((s.terms node).limitAmong env ∅ (allTxs sample) tx) :=
          fun tx filled c htx hcompletes =>
            hcompletes.sampleCost (FeeTerms.lookup_foldl_fill htx)
        constructor
        · obtain ⟨filled, hfilled, hc⟩ := hcosts.exists_of_mem_right hmem
          obtain ⟨tx, htx, hcompletes⟩ := hprepared.exists_of_mem_right hfilled
          exact ⟨tx, htx, hallowance tx filled _ htx hcompletes hc⟩
        · intro tx htx
          obtain ⟨filled, hfilled, hcompletes⟩ := hprepared.flip.exists_of_mem_right htx
          obtain ⟨c, hc, hcost⟩ := hcosts.flip.exists_of_mem_right hfilled
          rw [← hallowance tx filled c htx hcompletes hcost]
          exact hle c hc

/-- A plan that has been prepared, and the estimate for it. -/
structure FundedPlan (env : Env) (g : Generator) (s : TestScenario) (numTxs : Nat) where
  plan : List ExecutionRequest
  payloads : List ExecutionPayload
  after : TestScenario
  nonces : AssocMap Address Nat
  signerMap : AssocMap Address PrivateKeySigner
  sample : List ExecutionRequest
  cost : Nat
  loaded : g.loadTxs numTxs = .ok plan
  prepared : prepareSpam env plan s = .ok payloads after
  sampled : { g with nonces }.loadTxs g.spamSteps.length = .ok sample
  estimated : getMaxSpamCost env g s nonces signerMap = .ok cost

/-- The estimate covers every single transaction of a plan exactly when the sample dominates
the plan. -/
theorem covers_iff_dominates {numTxs : Nat} (funded : FundedPlan env g s numTxs)
    (hnode : node.Answers env) (hadder : s.gasPriceAdder = 0) :
    Covers funded.cost funded.payloads ↔
      (s.terms node).Dominates env s.gasLimits funded.plan funded.sample := by
  obtain ⟨-, hlimits, hall⟩ := FeeTerms.prepareSpam_completes (governs_terms hnode s)
    (fun _ _ _ hbatch => batchGasPrices_steady hnode hadder hbatch) funded.prepared
  obtain ⟨⟨highest, hhighest, hcost⟩, hle⟩ :=
    getMaxSpamCost_eq_ok hnode funded.sampled funded.estimated
  have hlookup : ∀ req, .tx req ∈ funded.plan → funded.after.gasLimits.lookup (req.tx.key env) =
      some ((s.terms node).limitAmong env s.gasLimits (allTxs funded.plan) req.tx) := by
    intro req hreq
    rw [hlimits]
    refine FeeTerms.lookup_foldl_fill (List.mem_map_of_mem ?_)
    exact List.mem_flatMap.mpr ⟨_, hreq, List.mem_singleton.mpr rfl⟩
  constructor
  · intro hcovers req hreq
    obtain ⟨payload, hpayload, hcompletes⟩ := hall.flip.exists_of_mem_right hreq
    cases hcompletes with
    | @tx req filled txHash h =>
      -- the dearest request of the sample will do
      refine ⟨highest, hhighest, ?_⟩
      rw [← h.spending (hlookup req hreq), ← hcost]
      exact hcovers txHash filled hpayload
  · intro hdominates txHash filled hpayload
    obtain ⟨request, hrequest, hcompletes⟩ := hall.exists_of_mem_right hpayload
    cases hcompletes with
    | @tx req filled txHash h =>
      obtain ⟨other, hother, hallowed⟩ := hdominates req hrequest
      rw [h.spending (hlookup req hrequest)]
      exact hallowed.trans (hle other hother)

end TestScenario

/-! ### A fuzzed argument -/

namespace FuzzedCall

open Generator.SharedName

/-- The call data of `set(value)`. -/
def setInput (value : U256) : Bytes := [0x60, 0xfe, 0x47, 0xb1] ++ beBytes value

/-- A node for which one call costs less than every other. -/
def node (cheap : U256) : SteadyNode where
  gasPrice := 1000
  blobBaseFee := 1
  estimate tx := if tx.input = some (setInput cheap) then 30000 else 50000

/-- The libraries, on `set(7)` and `set(6)`. -/
def env (cheap : U256) : Env where
  keccak256 input :=
    if input = setInput 7 then 0x237f4ee2962b1ec70321bc154e38b8094aff74668df8fe3de1b5b182bcd8a4dc
    else 0x4202e5da0409ef04a6b7db1bdb902bc48efa33340f9b20b2c4c50607b4b3c661
  toLowercase := List.map Char.toLower
  build tx _ := .ok (BitVec.ofNat 256 (tx.nonce.getD 0))
  node _ :=
    { getGasPrice := .ok (node cheap).gasPrice
      getBlobBaseFee := .ok (node cheap).blobBaseFee
      getCodeAt := fun _ => .ok [1]
      estimateGas := fun tx => .ok ((node cheap).estimate tx) }

theorem node_answers (cheap : U256) : (node cheap).Answers (env cheap) where
  gasPrice _ := rfl
  blobBaseFee _ := rfl
  estimate _ _ _ h := (Except.ok.inj h).symm

def scenario : TestScenario where
  nonces := (AList.insert (0xdead : Address) 0 ∅).insert 1 0
  gasLimits := ∅
  signerMap := AList.insert (0xdead : Address) ⟨7, 0xdead⟩ ∅
  setcodeSigner := ⟨1, 1⟩
  txType := .eip1559
  chainId := 1
  gasPrice := none
  gasPriceAdder := 0
  lastFetchedGasPrice := none
  lastFetchedBlobGasPrice := none
  hasBundleClient := false
  rpcCalls := 0

def request (value : U256) : TransactionRequest where
  fromAddr := some 0xdead
  toKind := some (.call 0xdead)
  input := some (setInput value)

/-- The request as it is sent. -/
def sent (value : U256) (nonce limit : Nat) : ExecutionPayload :=
  .signedTx (BitVec.ofNat 256 nonce)
    { tx := { request value with
        nonce := some nonce
        maxFeePerGas := some 1000
        maxPriorityFeePerGas := some 100
        gas := some limit
        chainId := some 1 } }

/-- The scenario after `set(7)` and `set(6)`, with their limits. -/
def afterTwo (first second : Nat) : TestScenario :=
  { scenario with
    nonces := (scenario.nonces.insert 0xdead 1).insert 0xdead 2
    gasLimits := (AList.insert ((env 7).keccak256 (setInput 7)) first ∅).insert
      ((env 7).keccak256 (setInput 6)) second
    lastFetchedGasPrice := some 1000
    rpcCalls := 5 }

/-- The first round calls `set(7)`, which is cheap, and the second one `set(6)`. -/
def cheapFirst : TestScenario.FundedPlan (env 7) oneStep scenario 2 where
  plan := [.tx { tx := request 7 }, .tx { tx := request 6 }]
  payloads := [sent 7 0 30000, sent 6 1 50000]
  after := afterTwo 30000 50000
  nonces := scenario.nonces
  signerMap := scenario.signerMap
  sample := [.tx { tx := request 7 }]
  cost := 33000000
  loaded := by decide +kernel
  prepared := rfl
  sampled := by decide +kernel
  estimated := by decide +kernel

/-- The same calls, with the cheap one in the second round. -/
def cheapSecond : TestScenario.FundedPlan (env 6) oneStep scenario 2 where
  plan := [.tx { tx := request 7 }, .tx { tx := request 6 }]
  payloads := [sent 7 0 50000, sent 6 1 30000]
  after := afterTwo 50000 30000
  nonces := scenario.nonces
  signerMap := scenario.signerMap
  sample := [.tx { tx := request 7 }]
  cost := 55000000
  loaded := by decide +kernel
  prepared := rfl
  sampled := by decide +kernel
  estimated := by decide +kernel

end FuzzedCall

end Contender
