import Contender.Generator.SpamLayout

/-!
# The requests of a round

The request a call makes in a round is determined by the scenario: by the texts of the
call, by the account at the round's number in its pool, and by the values that are drawn
for the round from the seeds of the fuzz entries. The requests of a plan are those of its
steps, all rounds of one step after the other.

Here they are written without the maps and the errors of the generator. Where
`load_txs(PlanType::Spam)` returns, it has generated these requests.

## Main results

* `allTxs_loadTxs` — the requests of a plan
* `mem_loadTxs_tx` — those that are not in a bundle
-/

namespace Contender

/-- The requests of a list of execution requests, in order. -/
def allTxs (requests : List ExecutionRequest) : List TransactionRequest :=
  (requests.flatMap ExecutionRequest.txs).map NamedTxRequest.tx

namespace Generator

variable (g : Generator)

/-! ### What is drawn for a round -/

/-- The value of a key in a round, when the plan fuzzes it. -/
def drawn (key : Text) (i : Nat) : Option U256 := do
  let base ← g.baseSeed
  let fuzz ← lastEntry g.planFuzz key
  return g.entryValue base key fuzz i

/-- The text in the place of an argument, in a round. -/
def drawnArg (i : Nat) (input arg : Text) : Text :=
  (do
    let (type, name) ← namedInput input
    let value ← g.drawn name i
    return fuzzText type value).getD arg

/-- The inputs of the function a call names. -/
def inputs (call : FunctionCallDefinition) : List Text :=
  (call.signature.bind fun signature => (g.foreign.parseFunction signature).toOption).elim []
    AbiFunction.inputs

/-- The arguments of a call in a round. -/
def drawnArgs (i : Nat) (call : FunctionCallDefinition) : List Text :=
  let args := ((g.inputs call).zip (call.args.getD [])).map fun (input, arg) =>
    g.drawnArg i input arg
  -- the proof of a call that verifies one is made for the round
  if call.kind = some groth16Kind then args.set 5 (g.groth16Proof i) else args

/-- The text of a fuzzed field of a call in a round. -/
def drawnField (wants : FuzzParam → Bool) (key : Text) (i : Nat) (call : FunctionCallDefinition) :
    Option Text :=
  if (callFuzz call).any wants then (g.drawn key i).map fun v => Nat.decimal v.toNat else none

/-- The call with what is drawn for a round. -/
def fillDrawn (i : Nat) (call : FunctionCallDefinition) : FunctionCallDefinition :=
  { call with
    args := some (g.drawnArgs i call)
    value :=
      (g.drawnField (fun fuzz => fuzz.value = some true) FuzzParam.valueKey i call).or call.value
    maxPriorityFeePerGas :=
      (g.drawnField (fun fuzz => fuzz.maxPriorityFeePerGas = some true)
        FuzzParam.maxPriorityFeeKey i call).or call.maxPriorityFeePerGas }

/-! ### The request of a round -/

/-- The addresses that the placeholders of the plan stand for. -/
def placeholders : AssocMap Text Text :=
  (g.spamCalls.foldlM g.source.findFncallPlaceholders g.env).toOption.getD ∅

/-- A text of a call, with nothing left to fill in. -/
def roundText (i : Nat) (call : FunctionCallDefinition) (text : Text) : Text :=
  g.ownArg g.placeholders ((g.fromAddress call i).toOption.getD 0) text

/-- The call data of a round. -/
def roundInput (i : Nat) (call : FunctionCallDefinition) : Option Bytes :=
  (g.foreign.encodeCalldata ((g.drawnArgs i call).map (g.roundText i call))
    (call.signature.getD [])).toOption

/-- The value sent in a round. -/
def roundValue (i : Nat) (call : FunctionCallDefinition) : Option U256 :=
  g.foreign.templateValue g.placeholders
    ((g.fillDrawn i call).value.bind fun text => (g.strictValue text).toOption)

/-- The priority fee of a round. -/
def roundFee (i : Nat) (call : FunctionCallDefinition) : Option Nat :=
  (g.fillDrawn i call).maxPriorityFeePerGas.bind fun raw =>
    (g.foreign.templateFee g.placeholders raw).toOption

/-- The request a call makes in a round. -/
def roundRequest (i : Nat) (call : FunctionCallDefinition) : TransactionRequest where
  fromAddr := (g.fromAddress call i).toOption
  toKind := (g.foreign.parseAddress (g.roundText i call call.toAddr)).map TxKind.call
  input := g.roundInput i call
  value := g.roundValue i call
  -- only the call's own limit: an estimate is filled in when the request is prepared
  gas := call.gasLimit
  maxPriorityFeePerGas := g.roundFee i call
  sidecar := (g.sidecarData call).toOption.join
  authorizationList :=
    (call.authorizationAddress.bind fun address =>
      (g.signedAuth (g.fillDrawn i call) i address).toOption).map fun auth => [auth]

/-- The requests of a plan: steps in order, all rounds of a step, and all calls of a round. -/
def planRequests (rounds : Nat) : List TransactionRequest :=
  g.spamSteps.flatMap fun step => (List.range rounds).flatMap fun i =>
    step.calls.map (g.roundRequest i)

variable {g}

/-! ### What the maps hold -/

/-- The first map holds the placeholders, and the second one what is drawn. -/
structure Holds (g : Generator) (numValues : Nat) (placeholderMap : AssocMap Text Text)
    (fuzzMap : FuzzMap) : Prop where
  placeholders : placeholderMap = g.placeholders
  drawn : ∀ key, ∀ i < numValues, (fuzzMap.lookup key).bind (·[i]?) = g.drawn key i

theorem holds_of_collectMaps {numValues : Nat} {placeholderMap : AssocMap Text Text}
    {fuzzMap : FuzzMap} (h : g.collectMaps numValues = .ok (placeholderMap, fuzzMap)) :
    g.Holds numValues placeholderMap fuzzMap := by
  obtain ⟨base, hbase⟩ := exists_baseSeed g
  have hlast := HoldsLast.collectMaps hbase h
  constructor
  · rw [placeholders, foldlM_findFncallPlaceholders h]
    rfl
  · intro key i hi
    rw [hlast.lookup key, drawn, hbase]
    cases lastEntry g.planFuzz key with
    | none => rfl
    | some fuzz => simp [hi]

/-! ### What a request is made of -/

namespace Holds

variable {numValues i : Nat} {placeholderMap : AssocMap Text Text} {fuzzMap : FuzzMap}
  {call : FunctionCallDefinition}

theorem fuzzedArg_eq (hholds : g.Holds numValues placeholderMap fuzzMap) (hi : i < numValues)
    {input arg text : Text} (h : fuzzedArg fuzzMap i input arg = .ok text) :
    text = g.drawnArg i input arg := by
  unfold fuzzedArg at h
  unfold drawnArg
  cases hnamed : namedInput input with
  | none =>
    rw [hnamed] at h
    exact (Except.ok.inj h).symm
  | some typed =>
    obtain ⟨type, name⟩ := typed
    have hdrawn := hholds.drawn name i hi
    simp only [hnamed] at h
    cases hlookup : fuzzMap.lookup name with
    | none =>
      -- nobody fuzzes the name, and the argument is the call's own
      rw [hlookup] at h hdrawn
      obtain rfl := Except.ok.inj h
      simp [← hdrawn]
    | some values =>
      rw [hlookup] at h hdrawn
      obtain ⟨v, hv, rfl⟩ := Except.map_eq_ok_iff.mp h
      rw [orError_eq_ok] at hv
      simp [← hdrawn, hv]

theorem getFuzzedField_eq (hholds : g.Holds numValues placeholderMap fuzzMap)
    (hi : i < numValues) {wants : FuzzParam → Bool} {key : Text} {text : Option Text}
    (h : getFuzzedField wants key call fuzzMap i = .ok text) :
    text = g.drawnField wants key i call := by
  unfold getFuzzedField at h
  unfold drawnField callFuzz
  split_ifs at h ⊢ with hany
  · simp only [Except.bind_eq_ok_iff, orError_eq_ok, Except.pure_eq_ok_iff] at h
    obtain ⟨values, hvalues, v, hv, rfl⟩ := h
    rw [← hholds.drawn key i hi, hvalues, Option.bind_some, hv]
    rfl
  · exact (Except.ok.inj h).symm

/-- The arguments, with a proof in the place of the sixth one or without. -/
theorem drawnArgs_eq (hholds : g.Holds numValues placeholderMap fuzzMap) (hi : i < numValues)
    {fuzzed args : List Text} (hfuzzed : g.getFuzzedArgs call fuzzMap i = .ok fuzzed)
    (hargs : g.withProof i call fuzzed = .ok args) : args = g.drawnArgs i call := by
  have hzip : fuzzed = ((g.inputs call).zip (call.args.getD [])).map fun (input, arg) =>
      g.drawnArg i input arg := by
    unfold getFuzzedArgs at hfuzzed
    unfold inputs
    cases hsignature : call.signature with
    | none =>
      rw [hsignature] at hfuzzed
      exact (Except.ok.inj hfuzzed).symm
    | some signature =>
      simp only [hsignature] at hfuzzed
      cases hfunc : g.foreign.parseFunction signature with
      | error message =>
        rw [hfunc] at hfuzzed
        cases hfuzzed
      | ok func =>
        simp only [hfunc] at hfuzzed
        split_ifs at hfuzzed with hlen
        rw [Option.bind_some, hfunc, ← List.map_id fuzzed]
        exact (List.mapM_eq_ok_iff.mp hfuzzed).map_eq fun _ _ hone =>
          hholds.fuzzedArg_eq hi hone
  unfold withProof at hargs
  unfold drawnArgs
  rw [← hzip]
  split_ifs at hargs ⊢ <;> exact (Except.ok.inj hargs).symm

theorem fillFuzzed_eq (hholds : g.Holds numValues placeholderMap fuzzMap) (hi : i < numValues)
    {filled : FunctionCallDefinition} (h : g.fillFuzzed fuzzMap i call = .ok filled) :
    filled = g.fillDrawn i call := by
  obtain ⟨fuzzed, args, value, fee, hfuzzed, hproof, hvalue, hfee, rfl⟩ := fillFuzzed_ok h
  rw [hholds.drawnArgs_eq hi hfuzzed hproof, hholds.getFuzzedField_eq hi hvalue,
    hholds.getFuzzedField_eq hi hfee]
  rfl

/-- A part of a call that is there has been computed. -/
theorem bind_toOption_of_mapM {α β : Type} {f : α → Except GeneratorError β} {o : Option α}
    {r : Option β} (h : o.mapM f = .ok r) : (o.bind fun a => (f a).toOption) = r := by
  rcases Option.mapM_eq_ok_iff.mp h with ⟨rfl, rfl⟩ | ⟨a, b, rfl, hb, rfl⟩
  · rfl
  · rw [Option.bind_some, hb]
    rfl

/-- **The request of a round.** -/
theorem prepareTx_eq (hholds : g.Holds numValues placeholderMap fuzzMap) (hi : i < numValues)
    {r : NamedTxRequest} (h : g.prepareTx placeholderMap fuzzMap i call = .ok r) :
    r.tx = g.roundRequest i call := by
  simp only [prepareTx, Except.bind_eq_ok_iff, Except.pure_eq_ok_iff] at h
  obtain ⟨filled, hfilled, strict, hstrict, tx, htx, rfl⟩ := h
  obtain rfl := hholds.fillFuzzed_eq hi hfilled
  obtain rfl := hholds.placeholders
  simp only [makeStrictCall, Except.bind_eq_ok_iff, Except.pure_eq_ok_iff] at hstrict
  obtain ⟨sender, hsender, auth, hauth, value, hvalue, sidecar, hsidecar, rfl⟩ := hstrict
  simp only [Foreign.templateFunctionCall, Except.bind_eq_ok_iff, Except.pure_eq_ok_iff,
    orError_eq_ok] at htx
  obtain ⟨input, hinput, address, haddress, fee, hfee, rfl⟩ := htx
  have hfrom : (g.fromAddress call i).toOption = some sender := congrArg Except.toOption hsender
  have htext : ∀ text, g.roundText i call text = g.ownArg g.placeholders sender text := by
    intro text
    rw [roundText, hfrom, Option.getD_some]
  -- the special placeholders first, and the others in what is left
  have htexts : (g.drawnArgs i call).map (g.roundText i call) =
      ((g.drawnArgs i call).map (g.specialReplace sender)).map
        (replacePlaceholders g.placeholders) := by
    rw [List.map_map]
    exact List.map_congr_left fun text _ => htext text
  have hinput' : g.roundInput i call = some input := by
    rw [roundInput, htexts]
    exact congrArg Except.toOption hinput
  have hto : g.foreign.parseAddress (g.roundText i call call.toAddr) = some address := by
    rw [htext]
    exact haddress
  have hvalue' : g.roundValue i call = g.foreign.templateValue g.placeholders value := by
    rw [roundValue, bind_toOption_of_mapM hvalue]
  have hfee' : g.roundFee i call = fee := bind_toOption_of_mapM hfee
  have hsidecar' : (g.sidecarData call).toOption = some sidecar :=
    congrArg Except.toOption hsidecar
  have hauth' : (call.authorizationAddress.bind fun address =>
      (g.signedAuth (g.fillDrawn i call) i address).toOption) = auth :=
    bind_toOption_of_mapM hauth
  rw [roundRequest, hfrom, hinput', hto, hvalue', hfee', hsidecar', hauth']
  rfl

end Holds

/-! ### The requests of a plan -/

theorem map_tx_prepareStep {numValues i : Nat} {placeholderMap : AssocMap Text Text}
    {fuzzMap : FuzzMap} {step : SpamRequest} {request : ExecutionRequest}
    (hholds : g.Holds numValues placeholderMap fuzzMap) (hi : i < numValues)
    (h : g.prepareStep placeholderMap fuzzMap i step = .ok request) :
    request.txs.map NamedTxRequest.tx = step.calls.map (g.roundRequest i) :=
  (prepareStep_ok h).map_eq fun _ _ => hholds.prepareTx_eq hi

/-- A step and a round of the plan, and what the round has generated. -/
def GeneratesRound (g : Generator) (entry : Nat × Nat) (request : ExecutionRequest) : Prop :=
  ∃ step placeholderMap fuzzMap, g.spamSteps[entry.1]? = some step ∧
    g.prepareStep placeholderMap fuzzMap entry.2 step = .ok request ∧
    request.txs.map NamedTxRequest.tx = step.calls.map (g.roundRequest entry.2)

theorem mem_spamPlan {numSteps rounds : Nat} {entry : Nat × Nat} :
    entry ∈ spamPlan numSteps rounds ↔ entry.1 < numSteps ∧ entry.2 < rounds := by
  obtain ⟨k, i⟩ := entry
  simp [spamPlan]

theorem loadTxs_ok {numTxs : Nat} {requests : List ExecutionRequest}
    (h : g.loadTxs numTxs = .ok requests) :
    List.Forall₂ g.GeneratesRound
      (spamPlan g.spamSteps.length (perStep numTxs g.spamSteps.length)) requests := by
  obtain ⟨generated, hload, rfl⟩ := Except.map_eq_ok_iff.mp h
  obtain ⟨total, placeholderMap, fuzzMap, htotal, hmaps, hplan⟩ := loadSpam_ok hload
  obtain ⟨hsteps, -, hrounds, hexact⟩ := roundUp_eq_some htotal
  have hholds := holds_of_collectMaps hmaps
  change total / g.spamSteps.length = perStep numTxs g.spamSteps.length at hrounds
  rw [hrounds] at hplan hexact
  -- there are values for every round
  have hvalues : ∀ entry ∈ spamPlan g.spamSteps.length (perStep numTxs g.spamSteps.length),
      entry.2 < total := by
    intro entry hentry
    rw [← hexact]
    exact lt_of_lt_of_le (mem_spamPlan.mp hentry).2 (Nat.le_mul_of_pos_left _ hsteps)
  rw [List.forall₂_map_right_iff]
  refine ((List.forall₂_and_left _ _).mpr ⟨hvalues, hplan⟩).imp ?_
  rintro entry e ⟨hi, step, hstep, hrequest⟩
  exact ⟨step, placeholderMap, fuzzMap, hstep, hrequest.prepared,
    map_tx_prepareStep hholds hi hrequest.prepared⟩

/-- The elements of a list, found by their numbers. -/
theorem flatMap_range_getElem? {α β : Type*} (l : List α) (f : α → List β) :
    ((List.range l.length).flatMap fun k => l[k]?.elim [] f) = l.flatMap f := by
  induction l with
  | nil => rfl
  | cons a l ih =>
    rw [List.length_cons, List.range_succ_eq_map, List.flatMap_cons, List.flatMap_map,
      List.flatMap_cons]
    exact congrArg (f a ++ ·) ih

/-- **The requests of a plan.** -/
theorem allTxs_loadTxs {numTxs : Nat} {requests : List ExecutionRequest}
    (h : g.loadTxs numTxs = .ok requests) :
    allTxs requests = g.planRequests (perStep numTxs g.spamSteps.length) := by
  have hplan := loadTxs_ok h
  generalize perStep numTxs g.spamSteps.length = rounds at hplan ⊢
  -- round by round, and then the rounds of each step together
  have hrequests : requests.map (fun request => request.txs.map NamedTxRequest.tx) =
      (spamPlan g.spamSteps.length rounds).map fun entry =>
        g.spamSteps[entry.1]?.elim [] fun step => step.calls.map (g.roundRequest entry.2) := by
    refine hplan.map_eq ?_
    rintro entry request ⟨step, _, _, hstep, -, htxs⟩
    rw [hstep, htxs]
    rfl
  calc allTxs requests
      = (requests.map fun request => request.txs.map NamedTxRequest.tx).flatten := by
        rw [allTxs, List.map_flatMap]
        rfl
    _ = (spamPlan g.spamSteps.length rounds).flatMap fun entry =>
        g.spamSteps[entry.1]?.elim [] fun step => step.calls.map (g.roundRequest entry.2) := by
        rw [hrequests]
        rfl
    _ = (List.range g.spamSteps.length).flatMap fun k => g.spamSteps[k]?.elim [] fun step =>
          (List.range rounds).flatMap fun i => step.calls.map (g.roundRequest i) := by
        rw [spamPlan, List.flatMap_assoc]
        congr 1
        funext k
        rw [List.flatMap_map]
        cases hstep : g.spamSteps[k]? with
        | none => simp [hstep]
        | some step => simp [hstep]
    _ = g.planRequests rounds := flatMap_range_getElem? _ _

/-- The requests of a plan that are not in a bundle. -/
theorem mem_loadTxs_tx {numTxs : Nat} {requests : List ExecutionRequest}
    (h : g.loadTxs numTxs = .ok requests) {tx : TransactionRequest} :
    (∃ req, .tx req ∈ requests ∧ req.tx = tx) ↔
      ∃ call, .tx call ∈ g.spamSteps ∧ ∃ i < perStep numTxs g.spamSteps.length,
        tx = g.roundRequest i call := by
  have hplan := loadTxs_ok h
  constructor
  · rintro ⟨req, hreq, rfl⟩
    obtain ⟨entry, hentry, step, _, _, hstep, hprepared, htxs⟩ := hplan.exists_of_mem_right hreq
    obtain ⟨-, hround⟩ := mem_spamPlan.mp hentry
    cases step with
    | tx call =>
      exact ⟨call, List.mem_of_getElem? hstep, entry.2, hround, (List.cons.inj htxs).1⟩
    | bundle txs =>
      simp only [prepareStep, Except.bind_eq_ok_iff, Except.pure_eq_ok_iff] at hprepared
      obtain ⟨_, -, hbundle⟩ := hprepared
      cases hbundle
  · rintro ⟨call, hcall, i, hi, rfl⟩
    obtain ⟨k, hk, hstep⟩ := List.mem_iff_getElem.mp hcall
    have hentry : (k, i) ∈ spamPlan g.spamSteps.length (perStep numTxs g.spamSteps.length) :=
      mem_spamPlan.mpr ⟨hk, hi⟩
    obtain ⟨request, hrequest, step, _, _, hstep', hprepared, htxs⟩ :=
      hplan.exists_of_mem_left hentry
    have hsame : step = .tx call := by
      rw [List.getElem?_eq_getElem hk, hstep] at hstep'
      exact (Option.some.inj hstep').symm
    subst hsame
    simp only [prepareStep, Except.bind_eq_ok_iff, Except.pure_eq_ok_iff] at hprepared
    obtain ⟨r, -, rfl⟩ := hprepared
    exact ⟨r, hrequest, (List.cons.inj htxs).1⟩

/-- A plan has steps. -/
theorem length_spamSteps_pos {numTxs : Nat} {requests : List ExecutionRequest}
    (h : g.loadTxs numTxs = .ok requests) : 0 < g.spamSteps.length := by
  obtain ⟨generated, hload, -⟩ := Except.map_eq_ok_iff.mp h
  obtain ⟨total, _, _, htotal, -⟩ := loadSpam_ok hload
  exact (roundUp_eq_some htotal).1

/-- One request for each step is one round. -/
theorem perStep_self {numSteps : Nat} (h : 0 < numSteps) : perStep numSteps numSteps = 1 :=
  Nat.div_eq_of_lt_le (by omega) (by omega)

theorem mem_spamCalls_tx {call : FunctionCallDefinition} (h : .tx call ∈ g.spamSteps) :
    call ∈ g.spamCalls :=
  List.mem_flatMap.mpr ⟨_, h, List.mem_singleton.mpr rfl⟩

theorem planRequests_one (g : Generator) :
    g.planRequests 1 = g.spamCalls.map (g.roundRequest 0) := by
  rw [spamCalls, List.map_flatMap]
  apply List.flatMap_congr
  intro step _
  simp

end Generator

end Contender
