import Contender.Generator.FuzzBounds
import Contender.Generator.StepCoverage
import Contender.Scenario.BatchNonces
import Mathlib.Algebra.BigOperators.Ring.List

/-!
# The authorizations of a plan

A call with an `authorization_address` gives each of its requests an EIP-7702
authorization of the setCode signer. `make_strict_call` signs it for the signer's
nonce plus the round of the step. The rounds start again with every step, and are
the same for all calls of a bundle, so that two calls with an authorization
address sign for the same nonces.

## Main results

* `usableInSequence_iff` — when the authorization nonces of a plan are an interval
-/

namespace Contender

open TestScenario

/-- The nonces of the authorizations that the requests carry, in order. -/
def authorizationNonces (reqs : List NamedTxRequest) : List Nat :=
  reqs.flatMap fun req => (req.tx.authorizationList.getD []).map SignedAuthorization.nonce

/-- The authorization nonces are distinct, and are those from `n` on, one for each
request that carries an authorization list. -/
def UsableInSequence (n : Nat) (reqs : List NamedTxRequest) : Prop :=
  (authorizationNonces reqs).Nodup ∧
    ∀ k, k ∈ authorizationNonces reqs ↔ n ≤ k ∧ k < n + authorizationsIn reqs

namespace FunctionCallDefinition

/-- The call asks for authorizations. -/
def Authorizes (call : FunctionCallDefinition) : Bool := call.authorizationAddress.isSome

end FunctionCallDefinition

namespace Generator

variable {g : Generator}

/-! ### One request -/

theorem signedAuth_nonce {funcdef : FunctionCallDefinition} {i : Nat} {authAddress : Text}
    {auth : SignedAuthorization} (h : g.signedAuth funcdef i authAddress = .ok auth) :
    ∃ n, g.nonces.lookup g.setcodeSigner.address = some n ∧ auth.nonce = n + i := by
  simp only [signedAuth, Except.bind_eq_ok_iff, orError_eq_ok] at h
  obtain ⟨_, -, address, -, n, hn, nonce, hnonce, hsigned⟩ := h
  obtain ⟨rfl, -⟩ := addU64_eq_some.mp hnonce
  split at hsigned
  · cases hsigned
  · obtain rfl := Except.pure_eq_ok_iff.mp hsigned
    exact ⟨n, hn, rfl⟩

/-- A request carries one authorization, for the nonce of its round, or none. -/
theorem prepareTx_authorization {placeholderMap : AssocMap Text Text} {fuzzMap : FuzzMap} {i : Nat}
    {call : FunctionCallDefinition} {req : NamedTxRequest}
    (h : g.prepareTx placeholderMap fuzzMap i call = .ok req) :
    if call.Authorizes then
      ∃ n auth, g.nonces.lookup g.setcodeSigner.address = some n ∧
        req.tx.authorizationList = some [auth] ∧ auth.nonce = n + i
    else req.tx.authorizationList = none := by
  simp only [prepareTx, Except.bind_eq_ok_iff, Except.pure_eq_ok_iff] at h
  obtain ⟨filled, hfilled, strict, hstrict, tx, htx, rfl⟩ := h
  -- filling in arguments and templates leaves the authorization address alone
  obtain ⟨_, _, _, _, -, -, -, -, rfl⟩ := fillFuzzed_ok hfilled
  simp only [makeStrictCall, Except.bind_eq_ok_iff, Except.pure_eq_ok_iff] at hstrict
  obtain ⟨sender, -, auth, hauth, value, -, sidecar, -, rfl⟩ := hstrict
  simp only [Foreign.templateFunctionCall, Except.bind_eq_ok_iff, Except.pure_eq_ok_iff] at htx
  obtain ⟨input, -, address, -, fee, -, rfl⟩ := htx
  rcases Option.mapM_eq_ok_iff.mp hauth with ⟨hnone, rfl⟩ | ⟨text, signed, htext, hsigned, rfl⟩
  · have hnone' : call.authorizationAddress = none := hnone
    rw [FunctionCallDefinition.Authorizes, hnone', if_neg (by simp)]
    rfl
  · have htext' : call.authorizationAddress = some text := htext
    obtain ⟨n, hn, hnonce⟩ := signedAuth_nonce hsigned
    rw [FunctionCallDefinition.Authorizes, htext', if_pos (by simp)]
    exact ⟨n, signed, hn, rfl, hnonce⟩

/-! ### One step -/

/-- The requests that a step makes in one round all sign for the same nonce. -/
theorem authorizationNonces_of_prepared {placeholderMap : AssocMap Text Text} {fuzzMap : FuzzMap}
    {i n : Nat} (hn : g.nonces.lookup g.setcodeSigner.address = some n)
    {calls : List FunctionCallDefinition} {reqs : List NamedTxRequest}
    (h : List.Forall₂ (fun call req => g.prepareTx placeholderMap fuzzMap i call = .ok req) calls
      reqs) :
    authorizationNonces reqs =
        List.replicate (calls.countP FunctionCallDefinition.Authorizes) (n + i) ∧
      authorizationsIn reqs = calls.countP FunctionCallDefinition.Authorizes := by
  induction h with
  | nil => exact ⟨rfl, rfl⟩
  | @cons call req calls reqs hprepared _ ih =>
    obtain ⟨hnonces, hcount⟩ := ih
    have hreq := prepareTx_authorization hprepared
    unfold authorizationNonces at hnonces ⊢
    unfold authorizationsIn at hcount ⊢
    rw [List.flatMap_cons, List.countP_cons, List.countP_cons, hnonces, hcount]
    split_ifs at hreq with hauth
    · obtain ⟨m, auth, hm, hlist, hnonce⟩ := hreq
      obtain rfl := Option.some.inj (hn.symm.trans hm)
      simp [hlist, hnonce, hauth, List.replicate_succ]
    · simp [hreq, hauth]

/-! ### The plan -/

/-- How many calls of a step ask for authorizations. -/
def stepAuthorizes (g : Generator) (step : Nat) : Nat :=
  (g.spamSteps[step]?).elim 0 fun spamStep =>
    spamStep.calls.countP FunctionCallDefinition.Authorizes

/-- The nonces a plan signs for, round after round and step after step. -/
def planNonces (g : Generator) (n perStep : Nat) : List Nat :=
  (spamPlan g.spamSteps.length perStep).flatMap fun p =>
    List.replicate (g.stepAuthorizes p.1) (n + p.2)

theorem sum_stepAuthorizes (g : Generator) :
    ((List.range g.spamSteps.length).map g.stepAuthorizes).sum =
      g.spamCalls.countP FunctionCallDefinition.Authorizes := by
  have hsteps : (List.range g.spamSteps.length).map g.stepAuthorizes =
      g.spamSteps.map fun spamStep =>
        spamStep.calls.countP FunctionCallDefinition.Authorizes := by
    apply List.ext_getElem
    · simp
    · intro j hj hj'
      rw [List.length_map] at hj'
      simp [stepAuthorizes, List.getElem?_eq_getElem hj']
  rw [hsteps, spamCalls, List.countP_flatMap]
  rfl

/-- One call with authorizations goes once through the nonces of the rounds. -/
theorem count_rounds (c n perStep k : Nat) :
    ((List.range perStep).flatMap fun i => List.replicate c (n + i)).count k =
      if n ≤ k ∧ k < n + perStep then c else 0 := by
  induction perStep with
  | zero => simp
  | succ perStep ih =>
    rw [List.range_succ, List.flatMap_append, List.count_append, ih]
    simp only [List.flatMap_cons, List.flatMap_nil, List.append_nil, List.count_replicate,
      beq_iff_eq]
    split_ifs <;> omega

/-- Each nonce of a round is signed for once by every call with authorizations. -/
theorem count_planNonces (g : Generator) (n perStep k : Nat) :
    (g.planNonces n perStep).count k = if n ≤ k ∧ k < n + perStep then
      g.spamCalls.countP FunctionCallDefinition.Authorizes else 0 := by
  have hsteps : g.planNonces n perStep = (List.range g.spamSteps.length).flatMap fun step =>
      (List.range perStep).flatMap fun i => List.replicate (g.stepAuthorizes step) (n + i) := by
    simp [planNonces, spamPlan, List.flatMap_assoc, List.flatMap_map]
  rw [hsteps, List.count_flatMap, ← sum_stepAuthorizes]
  simp only [Function.comp_def, count_rounds]
  split_ifs
  · rfl
  · simp

theorem length_planNonces (g : Generator) (n perStep : Nat) :
    (g.planNonces n perStep).length =
      g.spamCalls.countP FunctionCallDefinition.Authorizes * perStep := by
  rw [← sum_stepAuthorizes, ← List.sum_map_mul_right]
  simp [planNonces, spamPlan, List.flatMap_assoc, List.flatMap_map, List.length_flatMap,
    Nat.mul_comm]

/-- A plan has no rounds only when no requests are asked for. -/
theorem rounds_eq_zero_iff {numTxs numSteps total : Nat}
    (h : roundUp numTxs numSteps = some total) :
    total / numSteps = 0 ↔ numTxs = 0 := by
  obtain ⟨hsteps, -, hshare, -⟩ := roundUp_eq_some h
  rw [hshare, Nat.div_eq_zero_iff]
  omega

/-- The plan and what is generated for it: one round of one step at each place. -/
theorem loadSpam_entries {numTxs : Nat} {generated : List Generated}
    (h : g.loadSpam numTxs = .ok generated) :
    ∃ total placeholderMap fuzzMap, roundUp numTxs g.spamSteps.length = some total ∧
      List.Forall₂ (fun (p : Nat × Nat) (e : Generated) => ∃ step, g.spamSteps[p.1]? = some step ∧
        List.Forall₂ (fun call req => g.prepareTx placeholderMap fuzzMap p.2 call = .ok req)
          step.calls e.request.txs)
        (spamPlan g.spamSteps.length (total / g.spamSteps.length)) generated := by
  simp only [loadSpam, Except.bind_eq_ok_iff, orError_eq_ok] at h
  obtain ⟨total, htotal, ⟨placeholderMap, fuzzMap⟩, -, hloop⟩ := h
  refine ⟨total, placeholderMap, fuzzMap, htotal, ?_⟩
  apply (List.mapM_eq_ok_iff.mp hloop).imp
  intro p e hentry
  simp only [Except.bind_eq_ok_iff, Except.pure_eq_ok_iff, orError_eq_ok] at hentry
  obtain ⟨step, hstep, request, hrequest, rfl⟩ := hentry
  exact ⟨step, hstep, prepareStep_ok hrequest⟩

theorem loadSpam_authorizations {numTxs n : Nat} {generated : List Generated}
    (hn : g.nonces.lookup g.setcodeSigner.address = some n)
    (h : g.loadSpam numTxs = .ok generated) :
    ∃ total, roundUp numTxs g.spamSteps.length = some total ∧
      authorizationNonces (generated.flatMap fun e => e.request.txs) =
        g.planNonces n (total / g.spamSteps.length) ∧
      authorizationsIn (generated.flatMap fun e => e.request.txs) =
        (g.planNonces n (total / g.spamSteps.length)).length := by
  obtain ⟨total, placeholderMap, fuzzMap, htotal, hentries⟩ := loadSpam_entries h
  have hentry : ∀ (p : Nat × Nat) (e : Generated), (∃ step, g.spamSteps[p.1]? = some step ∧
      List.Forall₂ (fun call req => g.prepareTx placeholderMap fuzzMap p.2 call = .ok req)
        step.calls e.request.txs) →
      authorizationNonces e.request.txs = List.replicate (g.stepAuthorizes p.1) (n + p.2) ∧
        authorizationsIn e.request.txs = g.stepAuthorizes p.1 := by
    rintro p e ⟨step, hstep, hprepared⟩
    have hcount : g.stepAuthorizes p.1 = step.calls.countP FunctionCallDefinition.Authorizes := by
      rw [stepAuthorizes, hstep]
      rfl
    rw [hcount]
    exact authorizationNonces_of_prepared hn hprepared
  refine ⟨total, htotal, ?_, ?_⟩
  · have hnonces := hentries.map_eq fun p e he => (hentry p e he).1
    rw [authorizationNonces, List.flatMap_assoc, planNonces, List.flatMap_def, List.flatMap_def]
    exact congrArg List.flatten hnonces
  · have hcounts := hentries.map_eq fun p e he => (hentry p e he).2
    rw [authorizationsIn, List.countP_flatMap, planNonces, List.length_flatMap]
    simp only [List.length_replicate]
    exact congrArg List.sum hcounts

/-- A plan with requests that ask for authorizations is generated only when the
nonce of the setCode signer is known. -/
theorem setcodeNonce_of_loadSpam {numTxs : Nat} {generated : List Generated}
    (h : g.loadSpam numTxs = .ok generated) (hpos : 0 < numTxs)
    (hcalls : 0 < g.spamCalls.countP FunctionCallDefinition.Authorizes) :
    ∃ n, g.nonces.lookup g.setcodeSigner.address = some n := by
  obtain ⟨total, placeholderMap, fuzzMap, htotal, hentries⟩ := loadSpam_entries h
  obtain ⟨call, hcall, hauth⟩ := List.countP_pos_iff.mp hcalls
  obtain ⟨step, hstep, hcall⟩ := List.mem_flatMap.mp hcall
  obtain ⟨j, hj, rfl⟩ := List.getElem_of_mem hstep
  have hrounds : 0 < total / g.spamSteps.length :=
    Nat.pos_of_ne_zero fun hzero => hpos.ne' ((rounds_eq_zero_iff htotal).mp hzero)
  have hplan : (j, 0) ∈ spamPlan g.spamSteps.length (total / g.spamSteps.length) :=
    List.mem_flatMap.mpr ⟨j, List.mem_range.mpr hj,
      List.mem_map.mpr ⟨0, List.mem_range.mpr hrounds, rfl⟩⟩
  -- the first round of the step has a request of the call
  obtain ⟨e, -, step', hstep', hprepared⟩ := hentries.flip.exists_of_mem_right hplan
  rw [List.getElem?_eq_getElem hj] at hstep'
  obtain rfl := Option.some.inj hstep'
  obtain ⟨req, -, hreq⟩ := hprepared.flip.exists_of_mem_right hcall
  have hsigned := prepareTx_authorization hreq
  rw [if_pos hauth] at hsigned
  obtain ⟨n, -, hn, -, -⟩ := hsigned
  exact ⟨n, hn⟩

/-- **Authorizations.** The authorization nonces of a plan are distinct and go
through an interval from the signer's nonce on exactly when at most one call of
the plan asks for authorizations, or nothing is generated. -/
theorem usableInSequence_iff {numTxs : Nat} {requests : List ExecutionRequest}
    (h : g.loadTxs numTxs = .ok requests) :
    (∀ n, g.nonces.lookup g.setcodeSigner.address = some n →
      UsableInSequence n (requests.flatMap ExecutionRequest.txs)) ↔
      numTxs = 0 ∨ g.spamCalls.countP FunctionCallDefinition.Authorizes ≤ 1 := by
  obtain ⟨generated, hload, rfl⟩ := Except.map_eq_ok_iff.mp h
  rw [List.flatMap_map]
  constructor
  · intro hall
    by_contra hmany
    obtain ⟨hpos, hmany⟩ := not_or.mp hmany
    obtain ⟨n, hn⟩ := setcodeNonce_of_loadSpam hload (by omega) (by omega)
    obtain ⟨total, htotal, hnonces, -⟩ := loadSpam_authorizations hn hload
    have hrounds := mt (rounds_eq_zero_iff htotal).mp hpos
    have hnodup := (hall n hn).1
    rw [hnonces] at hnodup
    -- the first nonce is signed for by every call
    have hcount := List.nodup_iff_count_le_one.mp hnodup n
    rw [count_planNonces, if_pos ⟨le_rfl, Nat.lt_add_of_pos_right (Nat.pos_of_ne_zero hrounds)⟩]
      at hcount
    exact hmany hcount
  · intro hfew n hn
    obtain ⟨total, htotal, hnonces, hcarried⟩ := loadSpam_authorizations hn hload
    rw [UsableInSequence, hnonces, hcarried, length_planNonces]
    rw [← rounds_eq_zero_iff htotal] at hfew
    generalize total / g.spamSteps.length = perStep at hfew ⊢
    constructor
    · apply List.nodup_iff_count_le_one.mpr
      intro k
      rw [count_planNonces]
      split_ifs <;> omega
    · intro k
      rw [← List.count_pos_iff, count_planNonces]
      generalize g.spamCalls.countP FunctionCallDefinition.Authorizes = calls at hfew ⊢
      -- one call goes through all rounds; otherwise there is nothing
      have hcalls : calls = 0 ∨ calls = 1 ∨ perStep = 0 := by omega
      rcases hcalls with rfl | rfl | rfl
      · simp
      · rw [Nat.one_mul]
        split_ifs with hround
        · simpa using hround
        · simpa using hround
      · simp only [Nat.mul_zero, Nat.add_zero]
        split_ifs <;> omega

/-! ### Two delegating steps -/

namespace Delegations

/-- A transfer with an authorization. -/
def delegation (kind : Text) : FunctionCallDefinition :=
  { FourSteps.transfer kind with authorizationAddress := some FourSteps.target }

/-- The setCode signer has nonce 5. -/
def generator (spamSteps : List SpamRequest) : Generator :=
  { FourSteps.generator with spamSteps, nonces := AList.insert 1 5 ∅ }

def twoSteps : Generator := generator [.tx (delegation ['a']), .tx (delegation ['b'])]

/-- A bundle of which one call has an authorization, and another step without. -/
def oneCall : Generator :=
  generator [.bundle [delegation ['a'], FourSteps.transfer ['b']], .tx (FourSteps.transfer ['c'])]

/-- Each step signs for the nonces 5 and 6. -/
theorem not_usableInSequence_of_twoSteps :
    ∃ requests, twoSteps.loadTxs 4 = .ok requests ∧
      twoSteps.nonces.lookup twoSteps.setcodeSigner.address = some 5 ∧
        ¬UsableInSequence 5 (requests.flatMap ExecutionRequest.txs) := by
  have hnonces : (twoSteps.loadTxs 4).map (fun requests =>
      authorizationNonces (requests.flatMap ExecutionRequest.txs)) = .ok [5, 6, 5, 6] := by
    decide +kernel
  obtain ⟨requests, hrequests, hlist⟩ := Except.map_eq_ok_iff.mp hnonces
  refine ⟨requests, hrequests, by decide +kernel, fun husable => ?_⟩
  rw [UsableInSequence, hlist] at husable
  exact absurd husable.1 (by decide)

theorem usableInSequence_of_oneCall :
    ∃ requests, oneCall.loadTxs 4 = .ok requests ∧
      ∀ n, oneCall.nonces.lookup oneCall.setcodeSigner.address = some n →
        UsableInSequence n (requests.flatMap ExecutionRequest.txs) := by
  have hload : (oneCall.loadTxs 4).map List.length = .ok 4 := by decide +kernel
  obtain ⟨requests, hrequests, -⟩ := Except.map_eq_ok_iff.mp hload
  exact ⟨requests, hrequests, (usableInSequence_iff hrequests).mpr (.inr (by decide))⟩

end Delegations

end Generator

end Contender
