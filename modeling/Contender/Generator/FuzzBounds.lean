import Contender.Generator.LoadTxs

/-!
# The bounds of fuzzed values

The fuzzed values of all calls of a plan are kept in one map, by the name of the
parameter. This file shows what the map holds, and what a generated request
takes from it: a fuzzed argument lies between the bounds of the call it was
generated from as long as the other calls that fuzz a parameter of that name use
the same bounds, and an argument whose name nobody fuzzes is the call's own.
-/

namespace Contender

/-- The value lies between the bounds of the fuzz entry. -/
def FuzzParam.InBounds (fuzz : FuzzParam) (v : U256) : Prop :=
  RandSeed.lower fuzz.min ≤ v ∧ v < RandSeed.upper fuzz.max

namespace Generator

variable {g : Generator}

/-! ### What the map of fuzzed values holds -/

/-- The map holds values for exactly the keys of the entries, each drawn between
the bounds of one of them. -/
structure DrawnFrom (fuzzes : List FuzzParam) (fuzzMap : FuzzMap) : Prop where
  drawn : ∀ key values, fuzzMap.lookup key = some values →
    ∃ fuzz ∈ fuzzes, fuzz.mapKey = .ok key ∧ ∀ v ∈ values, fuzz.InBounds v
  complete : ∀ fuzz ∈ fuzzes, ∃ key ∈ fuzzMap, fuzz.mapKey = .ok key

namespace DrawnFrom

theorem empty : DrawnFrom [] ∅ := by
  refine ⟨fun key values h => ?_, fun fuzz h => absurd h List.not_mem_nil⟩
  simp at h

theorem insertFuzz {fuzzes : List FuzzParam} {fuzzMap fuzzMap' : FuzzMap} {baseSeed : U256}
    {numValues : Nat} {fuzz : FuzzParam} (hdrawn : DrawnFrom fuzzes fuzzMap)
    (h : g.insertFuzz baseSeed numValues fuzzMap fuzz = .ok fuzzMap') :
    DrawnFrom (fuzzes ++ [fuzz]) fuzzMap' := by
  simp only [Generator.insertFuzz, Except.bind_eq_ok_iff, orError_eq_ok,
    Except.pure_eq_ok_iff] at h
  obtain ⟨key, hkey, values, hvalues, rfl⟩ := h
  constructor
  · intro key' values' hlookup
    -- the new values replace those drawn for the key before
    by_cases hsame : key' = key
    · subst hsame
      rw [AList.lookup_insert, Option.some.injEq] at hlookup
      subst hlookup
      exact ⟨fuzz, by simp, hkey, fun v hv => RandSeed.mem_range_of_mem_seedValues hvalues hv⟩
    · rw [AList.lookup_insert_ne hsame] at hlookup
      obtain ⟨fuzz', hmem, hrest⟩ := hdrawn.drawn key' values' hlookup
      exact ⟨fuzz', List.mem_append_left _ hmem, hrest⟩
  · intro fuzz' hmem
    rcases List.mem_append.mp hmem with hmem | hmem
    · obtain ⟨key', hin, hkey'⟩ := hdrawn.complete fuzz' hmem
      exact ⟨key', (AList.mem_insert _).mpr (.inr hin), hkey'⟩
    · obtain rfl := List.mem_singleton.mp hmem
      exact ⟨key, (AList.mem_insert _).mpr (.inl rfl), hkey⟩

theorem createFuzzMap {numValues : Nat} {fuzzArgs : List FuzzParam} {fuzzMap : FuzzMap}
    (h : g.createFuzzMap numValues fuzzArgs = .ok fuzzMap) : DrawnFrom fuzzArgs fuzzMap := by
  simp only [Generator.createFuzzMap, Except.bind_eq_ok_iff] at h
  obtain ⟨baseSeed, -, hfold⟩ := h
  exact List.foldlM_ok_invariant (fun _ _ _ _ hdone hstep => hdone.insertFuzz hstep) empty hfold

end DrawnFrom

theorem lookup_foldl_insert {entries : List (Sigma fun _ : Text => List U256)}
    (hnodup : entries.NodupKeys) (canonical : FuzzMap) (key : Text) :
    (entries.foldl (fun map entry => map.insert entry.1 entry.2) canonical).lookup key =
      (entries.dlookup key).or (canonical.lookup key) := by
  induction entries generalizing canonical with
  | nil => rfl
  | cons entry entries ih =>
    obtain ⟨name, values⟩ := entry
    obtain ⟨hfresh, hrest⟩ := List.nodupKeys_cons.mp hnodup
    rw [List.foldl_cons, ih hrest]
    by_cases hsame : key = name
    · subst hsame
      rw [List.dlookup_eq_none.mpr hfresh, List.dlookup_cons_eq, AList.lookup_insert]
      rfl
    · rw [List.dlookup_cons_ne _ _ hsame, AList.lookup_insert_ne hsame]

/-- Extending prefers the new entries. -/
theorem lookup_extend (canonical new : FuzzMap) (key : Text) :
    (extend canonical new).lookup key = (new.lookup key).or (canonical.lookup key) :=
  lookup_foldl_insert new.nodupKeys canonical key

theorem DrawnFrom.extend {fuzzes fuzzes' : List FuzzParam} {canonical new : FuzzMap}
    (hcanonical : DrawnFrom fuzzes canonical) (hnew : DrawnFrom fuzzes' new) :
    DrawnFrom (fuzzes ++ fuzzes') (extend canonical new) := by
  constructor
  · intro key values hlookup
    rw [lookup_extend, Option.or_eq_some_iff] at hlookup
    -- the new map hides the old one
    rcases hlookup with hlookup | ⟨-, hlookup⟩
    · obtain ⟨fuzz, hmem, hrest⟩ := hnew.drawn key values hlookup
      exact ⟨fuzz, List.mem_append_right _ hmem, hrest⟩
    · obtain ⟨fuzz, hmem, hrest⟩ := hcanonical.drawn key values hlookup
      exact ⟨fuzz, List.mem_append_left _ hmem, hrest⟩
  · have hmem_extend : ∀ key, key ∈ Generator.extend canonical new ↔
        key ∈ new ∨ key ∈ canonical := by
      intro key
      rw [← AList.lookup_isSome, lookup_extend, Option.isSome_or, Bool.or_eq_true,
        AList.lookup_isSome, AList.lookup_isSome]
    intro fuzz hmem
    rcases List.mem_append.mp hmem with hmem | hmem
    · obtain ⟨key, hin, hkey⟩ := hcanonical.complete fuzz hmem
      exact ⟨key, (hmem_extend key).mpr (.inr hin), hkey⟩
    · obtain ⟨key, hin, hkey⟩ := hnew.complete fuzz hmem
      exact ⟨key, (hmem_extend key).mpr (.inl hin), hkey⟩

/-- The fuzz entries of a call. -/
def callFuzz (call : FunctionCallDefinition) : List FuzzParam := call.fuzz.getD []

/-- The fuzz entries of all calls of the plan. -/
def planFuzz (g : Generator) : List FuzzParam := g.spamCalls.flatMap callFuzz

/-- The placeholders do not depend on what is drawn. -/
theorem foldlM_findFncallPlaceholders {numTxs : Nat} {calls : List FunctionCallDefinition}
    {maps maps' : AssocMap Text Text × FuzzMap}
    (h : calls.foldlM (g.collectCall numTxs) maps = .ok maps') :
    calls.foldlM g.source.findFncallPlaceholders maps.1 = .ok maps'.1 := by
  induction calls generalizing maps with
  | nil =>
    obtain rfl := Except.ok.inj h
    rfl
  | cons call calls ih =>
    rw [List.foldlM_cons, Except.bind_eq_ok_iff] at h ⊢
    obtain ⟨next, hnext, h⟩ := h
    simp only [collectCall, Except.bind_eq_ok_iff, Except.pure_eq_ok_iff] at hnext
    obtain ⟨placeholderMap, hfound, fuzzMap, -, rfl⟩ := hnext
    exact ⟨placeholderMap, hfound, ih h⟩

theorem DrawnFrom.collectCall {numTxs : Nat} {calls : List FunctionCallDefinition}
    {call : FunctionCallDefinition} {maps maps' : AssocMap Text Text × FuzzMap}
    (hdrawn : DrawnFrom (calls.flatMap callFuzz) maps.2)
    (h : g.collectCall numTxs maps call = .ok maps') :
    DrawnFrom ((calls ++ [call]).flatMap callFuzz) maps'.2 := by
  simp only [Generator.collectCall, Except.bind_eq_ok_iff, Except.pure_eq_ok_iff] at h
  obtain ⟨placeholderMap, -, fuzzMap, hfuzz, rfl⟩ := h
  rw [List.flatMap_append, List.flatMap_singleton]
  exact hdrawn.extend (DrawnFrom.createFuzzMap hfuzz)

/-- The one map holds the values of the whole plan. -/
theorem drawnFrom_planFuzz {numTxs : Nat} {placeholderMap : AssocMap Text Text}
    {fuzzMap : FuzzMap} (h : g.collectMaps numTxs = .ok (placeholderMap, fuzzMap)) :
    DrawnFrom g.planFuzz fuzzMap := by
  have hstart : DrawnFrom (([] : List FunctionCallDefinition).flatMap callFuzz)
      (g.env, (∅ : FuzzMap)).2 := DrawnFrom.empty
  exact List.foldlM_ok_invariant
    (p := fun calls (maps : AssocMap Text Text × FuzzMap) =>
      DrawnFrom (calls.flatMap callFuzz) maps.2)
    (fun _ _ _ _ hdone hstep => hdone.collectCall hstep) hstart h

/-! ### What a request takes from the map -/

/-- A call that reads an argument, value or fee through the map reads a value
between the bounds of one of the plan's entries for the key; when they all agree,
these are the call's own bounds. -/
def AgreeOn (fuzzes : List FuzzParam) (key : Text) (fuzz : FuzzParam) : Prop :=
  ∀ fuzz' ∈ fuzzes, fuzz'.mapKey = .ok key →
    RandSeed.lower fuzz'.min = RandSeed.lower fuzz.min ∧
      RandSeed.upper fuzz'.max = RandSeed.upper fuzz.max

theorem DrawnFrom.inBounds {fuzzes : List FuzzParam} {fuzzMap : FuzzMap}
    (hdrawn : DrawnFrom fuzzes fuzzMap) {key : Text} {values : List U256} {fuzz : FuzzParam}
    {v : U256} (hlookup : fuzzMap.lookup key = some values) (hagree : AgreeOn fuzzes key fuzz)
    (hv : v ∈ values) : fuzz.InBounds v := by
  -- the values may come from another call, which agrees on the bounds
  obtain ⟨fuzz', hmem, hkey, hbounds⟩ := hdrawn.drawn key values hlookup
  obtain ⟨hlower, hupper⟩ := hagree fuzz' hmem hkey
  have := hbounds v hv
  rwa [FuzzParam.InBounds, hlower, hupper] at this

/-- A fuzzed text has no placeholders. -/
theorem notMem_fuzzText (type : Text) (v : U256) : '{' ∉ fuzzText type v := by
  unfold fuzzText
  split_ifs
  · simp [Nat.notMem_paddedHex (by decide : '{' ∉ Nat.hexDigits)]
  · exact Nat.notMem_decimal (by decide) _

theorem specialReplace_of_notMem {arg : Text} (h : '{' ∉ arg) (sender : Address) :
    g.specialReplace sender arg = arg := by
  have habsent : ∀ key, ¬placeholder key <:+: arg := by
    intro key hoccurs
    exact h (hoccurs.subset List.mem_cons_self)
  rw [specialReplace, if_neg (habsent _), if_neg (habsent _)]

/-- The argument of a call as it is without fuzzing. -/
def ownArg (g : Generator) (placeholderMap : AssocMap Text Text) (sender : Address) (arg : Text) :
    Text :=
  replacePlaceholders placeholderMap (g.specialReplace sender arg)

theorem ownArg_of_notMem {arg : Text} (h : '{' ∉ arg) (placeholderMap : AssocMap Text Text)
    (sender : Address) : g.ownArg placeholderMap sender arg = arg := by
  rw [ownArg, specialReplace_of_notMem h, replacePlaceholders_of_notMem h]

/-- The arguments `template_function_call` encodes for the `i`-th request of a
call. -/
def requestArgs (g : Generator) (placeholderMap : AssocMap Text Text) (fuzzMap : FuzzMap) (i : Nat)
    (req : FunctionCallDefinition) : Except GeneratorError (List Text) := do
  let filled ← g.fillFuzzed fuzzMap i req
  let strict ← g.makeStrictCall filled i
  return strict.args.map (replacePlaceholders placeholderMap)

theorem makeStrictCall_ok {funcdef : FunctionCallDefinition} {i : Nat}
    {strict : FunctionCallDefinitionStrict} (h : g.makeStrictCall funcdef i = .ok strict) :
    strict.args = (funcdef.args.getD []).map (g.specialReplace strict.fromAddr) ∧
      strict.signature = funcdef.signature.getD [] ∧
      funcdef.value.mapM g.strictValue = .ok strict.value ∧
      strict.maxPriorityFeePerGas = funcdef.maxPriorityFeePerGas := by
  simp only [makeStrictCall, Except.bind_eq_ok_iff, Except.pure_eq_ok_iff] at h
  obtain ⟨sender, -, auth, -, value, hvalue, sidecar, -, rfl⟩ := h
  exact ⟨rfl, rfl, hvalue, rfl⟩

end Generator

namespace Foreign

/-- Number syntax reads back the decimal rendering of a number, and case mapping does not
change digits. -/
structure ReadsDecimals (foreign : Foreign) : Prop where
  parseU256_decimal : ∀ v : U256, foreign.parseU256 (Nat.decimal v.toNat) = some v
  toLowercase_decimal : ∀ n, foreign.toLowercase (Nat.decimal n) = Nat.decimal n

theorem ReadsDecimals.parseValue_decimal {foreign : Foreign} (hreads : foreign.ReadsDecimals)
    (v : U256) : foreign.parseValue (Nat.decimal v.toNat) = .ok v := by
  have htrim : trim (Nat.decimal v.toNat) = Nat.decimal v.toNat :=
    trim_eq_self fun _ hc => isWhiteSpace_of_isDigit (Nat.isDigit_of_mem_decimal hc)
  simp only [parseValue, htrim, hreads.toLowercase_decimal, hreads.parseU256_decimal]

theorem templateFunctionCall_ok {foreign : Foreign} {placeholderMap : AssocMap Text Text}
    {strict : FunctionCallDefinitionStrict} {tx : TransactionRequest}
    (h : foreign.templateFunctionCall placeholderMap strict = .ok tx) :
    (∃ input, foreign.encodeCalldata (strict.args.map (replacePlaceholders placeholderMap))
        strict.signature = .ok input ∧ tx.input = some input) ∧
      tx.fromAddr = some strict.fromAddr ∧
      tx.value = foreign.templateValue placeholderMap strict.value ∧
      strict.maxPriorityFeePerGas.mapM (foreign.templateFee placeholderMap) =
        .ok tx.maxPriorityFeePerGas := by
  simp only [templateFunctionCall, Except.bind_eq_ok_iff, Except.pure_eq_ok_iff] at h
  obtain ⟨input, hinput, address, -, fee, hfee, rfl⟩ := h
  exact ⟨⟨input, hinput, rfl⟩, rfl, rfl, hfee⟩

end Foreign

namespace Generator

variable {g : Generator}

theorem fillFuzzed_ok {fuzzMap : FuzzMap} {i : Nat} {req filled : FunctionCallDefinition}
    (h : g.fillFuzzed fuzzMap i req = .ok filled) :
    ∃ fuzzed args value fee, g.getFuzzedArgs req fuzzMap i = .ok fuzzed ∧
      g.withProof i req fuzzed = .ok args ∧ getFuzzedTxValue req fuzzMap i = .ok value ∧
      getFuzzedMaxPriorityFeePerGas req fuzzMap i = .ok fee ∧
      filled = { req with
        args := some args
        value := value.or req.value
        maxPriorityFeePerGas := fee.or req.maxPriorityFeePerGas } := by
  simp only [fillFuzzed, Except.bind_eq_ok_iff, Except.pure_eq_ok_iff] at h
  obtain ⟨fuzzed, hfuzzed, value, hvalue, fee, hfee, args, hargs, rfl⟩ := h
  exact ⟨fuzzed, args, value, fee, hfuzzed, hargs, hvalue, hfee, rfl⟩

/-- Everything that happens on the way from a call to a request. -/
theorem prepareTx_ok {placeholderMap : AssocMap Text Text} {fuzzMap : FuzzMap} {i : Nat}
    {req : FunctionCallDefinition} {r : NamedTxRequest}
    (h : g.prepareTx placeholderMap fuzzMap i req = .ok r) :
    ∃ fuzzed args value fee sender text, g.getFuzzedArgs req fuzzMap i = .ok fuzzed ∧
      g.withProof i req fuzzed = .ok args ∧ getFuzzedTxValue req fuzzMap i = .ok value ∧
      getFuzzedMaxPriorityFeePerGas req fuzzMap i = .ok fee ∧
      g.requestArgs placeholderMap fuzzMap i req =
        .ok (args.map (g.ownArg placeholderMap sender)) ∧
      (∃ input, g.foreign.encodeCalldata (args.map (g.ownArg placeholderMap sender))
        (req.signature.getD []) = .ok input ∧ r.tx.input = some input) ∧
      r.tx.fromAddr = some sender ∧ (value.or req.value).mapM g.strictValue = .ok text ∧
      r.tx.value = g.foreign.templateValue placeholderMap text ∧
      (fee.or req.maxPriorityFeePerGas).mapM (g.foreign.templateFee placeholderMap) =
        .ok r.tx.maxPriorityFeePerGas := by
  simp only [prepareTx, Except.bind_eq_ok_iff, Except.pure_eq_ok_iff] at h
  obtain ⟨filled, hfilled, strict, hstrict, tx, htx, rfl⟩ := h
  obtain ⟨hargs, hsig, hvalue, hfee⟩ := makeStrictCall_ok hstrict
  obtain ⟨hencoded, hfrom, htxValue, htxFee⟩ := Foreign.templateFunctionCall_ok htx
  have hrequest : g.requestArgs placeholderMap fuzzMap i req =
      .ok (strict.args.map (replacePlaceholders placeholderMap)) := by
    simp only [requestArgs, Except.bind_eq_ok_iff, Except.pure_eq_ok_iff]
    exact ⟨filled, hfilled, strict, hstrict, rfl⟩
  obtain ⟨fuzzed, args, value, fee, hfuzzed, hproof, hfuzzValue, hfuzzFee, rfl⟩ :=
    fillFuzzed_ok hfilled
  have hown : strict.args.map (replacePlaceholders placeholderMap) =
      args.map (g.ownArg placeholderMap strict.fromAddr) := by
    rw [hargs, List.map_map]
    rfl
  rw [hown] at hencoded hrequest
  rw [hsig] at hencoded
  rw [hfee] at htxFee
  exact ⟨fuzzed, args, value, fee, strict.fromAddr, strict.value, hfuzzed, hproof, hfuzzValue,
    hfuzzFee, hrequest, hencoded, hfrom, hvalue, htxValue, htxFee⟩

/-- The sixth argument of a proof call is not taken from the call. -/
def IsProofArg (req : FunctionCallDefinition) (j : Nat) : Prop :=
  req.kind = some groth16Kind ∧ j = 5

theorem getElem?_withProof {i j : Nat} {req : FunctionCallDefinition} {fuzzed args : List Text}
    (h : g.withProof i req fuzzed = .ok args) (hj : ¬IsProofArg req j) : args[j]? = fuzzed[j]? := by
  unfold withProof at h
  split_ifs at h with hkind hlen
  · obtain rfl := Except.ok.inj h
    exact List.getElem?_set_ne fun heq => hj ⟨hkind, heq.symm⟩
  · rw [Except.ok.inj h]

/-- Each fuzzed argument belongs to an input of the signature and an argument of
the call. -/
theorem getFuzzedArgs_ok {req : FunctionCallDefinition} {fuzzMap : FuzzMap} {i j : Nat}
    {fuzzed : List Text} {arg : Text} (h : g.getFuzzedArgs req fuzzMap i = .ok fuzzed)
    (hj : fuzzed[j]? = some arg) :
    ∃ signature func input own, req.signature = some signature ∧
      g.foreign.parseFunction signature = .ok func ∧ func.inputs[j]? = some input ∧
      (req.args.getD [])[j]? = some own ∧ fuzzedArg fuzzMap i input own = .ok arg := by
  unfold getFuzzedArgs at h
  split at h
  · obtain rfl := Except.ok.inj h
    simp at hj
  · rename_i signature hsignature
    split at h
    · simp at h
    · rename_i func hfunc
      dsimp only at h
      split_ifs at h with hlen
      obtain ⟨⟨input, own⟩, hzip, harg⟩ := (List.mapM_eq_ok_iff.mp h).getElem?_right hj
      rw [List.getElem?_zip_eq_some] at hzip
      exact ⟨signature, func, input, own, hsignature, hfunc, hzip.1, hzip.2, harg⟩

theorem getFuzzedField_ok {wants : FuzzParam → Bool} {key : Text} {req : FunctionCallDefinition}
    {fuzzMap : FuzzMap} {i : Nat} {text : Option Text}
    (h : getFuzzedField wants key req fuzzMap i = .ok text) :
    (∃ fuzz ∈ callFuzz req, wants fuzz) ∧
        (∃ values v, fuzzMap.lookup key = some values ∧ v ∈ values ∧
          text = some (Nat.decimal v.toNat)) ∨
      (∀ fuzz ∈ callFuzz req, wants fuzz = false) ∧ text = none := by
  unfold getFuzzedField at h
  split_ifs at h with hany
  · simp only [Except.bind_eq_ok_iff, orError_eq_ok, Except.pure_eq_ok_iff] at h
    obtain ⟨values, hlookup, v, hv, rfl⟩ := h
    exact .inl ⟨List.any_eq_true.mp hany, values, v, hlookup, List.mem_of_getElem? hv, rfl⟩
  · refine .inr ⟨fun fuzz hmem => ?_, (Except.ok.inj h).symm⟩
    rw [List.any_eq_true] at hany
    exact Bool.eq_false_iff.mpr fun hwants => hany ⟨fuzz, hmem, hwants⟩

/-- What a request may carry for an argument, given the fuzz entries of the whole
plan: a value between the call's own bounds, where the plan agrees on them, and
the call's own argument, where nobody fuzzes a parameter of that name. -/
structure ArgRespects (g : Generator) (fuzzes : List FuzzParam)
    (placeholderMap : AssocMap Text Text) (sender : Address) (req : FunctionCallDefinition)
    (input own arg : Text) : Prop where
  fuzzed : ∀ type name fuzz, namedInput input = some (type, name) → fuzz ∈ callFuzz req →
    fuzz.param = some name → AgreeOn fuzzes name fuzz →
    ∃ v, fuzz.InBounds v ∧ arg = fuzzText type v
  own : (∀ type name, namedInput input = some (type, name) →
      ∀ fuzz ∈ fuzzes, fuzz.mapKey ≠ .ok name) →
    arg = g.ownArg placeholderMap sender own

theorem argRespects_fuzzedArg {fuzzes : List FuzzParam} {fuzzMap : FuzzMap}
    (hdrawn : DrawnFrom fuzzes fuzzMap) {req : FunctionCallDefinition}
    (hcall : callFuzz req ⊆ fuzzes) {i : Nat} {input own text : Text}
    (h : fuzzedArg fuzzMap i input own = .ok text) (placeholderMap : AssocMap Text Text)
    (sender : Address) :
    g.ArgRespects fuzzes placeholderMap sender req input own
      (g.ownArg placeholderMap sender text) := by
  unfold fuzzedArg at h
  split at h
  -- an unnamed input is never fuzzed
  · rename_i hunnamed
    obtain rfl := Except.ok.inj h
    refine ⟨fun type name fuzz hnamed => ?_, fun _ => rfl⟩
    rw [hunnamed] at hnamed
    cases hnamed
  · rename_i type name hnamed
    split at h
    · -- the map has no values for the name, so no entry of the plan asks for them
      rename_i hlookup
      obtain rfl := Except.ok.inj h
      refine ⟨fun type' name' fuzz hnamed' hmem hparam hagree => ?_, fun _ => rfl⟩
      obtain ⟨rfl, rfl⟩ : type = type' ∧ name = name' := by
        rw [hnamed, Option.some.injEq, Prod.mk.injEq] at hnamed'
        exact hnamed'
      obtain ⟨key, hin, hkey⟩ := hdrawn.complete fuzz (hcall hmem)
      obtain rfl := FuzzParam.mapKey_of_param hparam hkey
      rw [AList.lookup_eq_none] at hlookup
      exact absurd hin hlookup
    · rename_i values hlookup
      rw [Except.map_eq_ok_iff] at h
      obtain ⟨v, hv, rfl⟩ := h
      rw [orError_eq_ok] at hv
      -- a fuzzed text passes through the templates unchanged
      rw [ownArg_of_notMem (notMem_fuzzText type v)]
      refine ⟨fun type' name' fuzz hnamed' hmem hparam hagree => ?_, fun hnobody => ?_⟩
      · obtain ⟨rfl, rfl⟩ : type = type' ∧ name = name' := by
          rw [hnamed, Option.some.injEq, Prod.mk.injEq] at hnamed'
          exact hnamed'
        exact ⟨v, hdrawn.inBounds hlookup hagree (List.mem_of_getElem? hv), rfl⟩
      · obtain ⟨fuzz, hmem, hkey, -⟩ := hdrawn.drawn name values hlookup
        exact absurd hkey (hnobody type name hnamed fuzz hmem)

/-- The arguments, the value and the priority fee of a request generated from a
call of the plan. -/
structure RespectsFuzz (g : Generator) (placeholderMap : AssocMap Text Text)
    (req : FunctionCallDefinition) (args : List Text) (r : NamedTxRequest) : Prop where
  encoded : ∃ input, g.foreign.encodeCalldata args (req.signature.getD []) = .ok input ∧
    r.tx.input = some input
  arg : ∀ j arg, args[j]? = some arg → ¬IsProofArg req j →
    ∃ signature func input own sender, req.signature = some signature ∧
      g.foreign.parseFunction signature = .ok func ∧ func.inputs[j]? = some input ∧
      (req.args.getD [])[j]? = some own ∧ r.tx.fromAddr = some sender ∧
      g.ArgRespects g.planFuzz placeholderMap sender req input own arg
  fuzzedValue : ∀ fuzz ∈ callFuzz req, fuzz.value = some true →
    AgreeOn g.planFuzz FuzzParam.valueKey fuzz → ∃ v, fuzz.InBounds v ∧ r.tx.value = some v
  ownValue : (∀ fuzz ∈ callFuzz req, fuzz.value ≠ some true) →
    ∃ text, req.value.mapM g.strictValue = .ok text ∧
      r.tx.value = g.foreign.templateValue placeholderMap text
  fuzzedFee : ∀ fuzz ∈ callFuzz req, fuzz.maxPriorityFeePerGas = some true →
    AgreeOn g.planFuzz FuzzParam.maxPriorityFeeKey fuzz →
    ∃ v, fuzz.InBounds v ∧ r.tx.maxPriorityFeePerGas = some v.toNat
  ownFee : (∀ fuzz ∈ callFuzz req, fuzz.maxPriorityFeePerGas ≠ some true) →
    req.maxPriorityFeePerGas.mapM (g.foreign.templateFee placeholderMap) =
      .ok r.tx.maxPriorityFeePerGas

/-- A value that is fuzzed reaches the request unchanged. -/
theorem templateValue_decimal (hreads : g.foreign.ReadsDecimals)
    (placeholderMap : AssocMap Text Text) {v : U256} {text : Option Text}
    (h : (some (Nat.decimal v.toNat)).mapM g.strictValue = .ok text) :
    g.foreign.templateValue placeholderMap text = some v := by
  rcases Option.mapM_eq_ok_iff.mp h with ⟨hnone, -⟩ | ⟨a, b, ha, hb, rfl⟩
  · cases hnone
  · obtain rfl := Option.some.inj ha
    rw [strictValue, hreads.parseValue_decimal] at hb
    obtain rfl := Except.ok.inj hb
    have hplain : '{' ∉ Nat.decimal v.toNat := Nat.notMem_decimal (by decide) _
    simp only [Foreign.templateValue, Option.map_some, Option.bind_some,
      replacePlaceholders_of_notMem hplain, hreads.parseU256_decimal]

/-- A priority fee that is fuzzed reaches the request unchanged. -/
theorem templateFee_decimal (hreads : g.foreign.ReadsDecimals)
    (placeholderMap : AssocMap Text Text) {v : U256} {fee : Option Nat}
    (h : (some (Nat.decimal v.toNat)).mapM (g.foreign.templateFee placeholderMap) = .ok fee) :
    fee = some v.toNat := by
  rcases Option.mapM_eq_ok_iff.mp h with ⟨hnone, -⟩ | ⟨a, b, ha, hb, rfl⟩
  · cases hnone
  · obtain rfl := Option.some.inj ha
    have hplain : '{' ∉ Nat.decimal v.toNat := Nat.notMem_decimal (by decide) _
    simp only [Foreign.templateFee, replacePlaceholders_of_notMem hplain,
      hreads.parseValue_decimal, toU128] at hb
    split_ifs at hb
    · rw [Except.ok.inj hb]

/-- A request respects the fuzz entries of the plan. -/
theorem respectsFuzz_of_prepareTx (hreads : g.foreign.ReadsDecimals) {numTxs i : Nat}
    {placeholderMap : AssocMap Text Text} {fuzzMap : FuzzMap}
    (hmaps : g.collectMaps numTxs = .ok (placeholderMap, fuzzMap)) {req : FunctionCallDefinition}
    (hreq : req ∈ g.spamCalls) {r : NamedTxRequest}
    (h : g.prepareTx placeholderMap fuzzMap i req = .ok r) :
    ∃ args, g.requestArgs placeholderMap fuzzMap i req = .ok args ∧
      g.RespectsFuzz placeholderMap req args r := by
  have hdrawn := drawnFrom_planFuzz hmaps
  have hcall : callFuzz req ⊆ g.planFuzz := fun fuzz hmem =>
    List.mem_flatMap.mpr ⟨req, hreq, hmem⟩
  obtain ⟨fuzzed, args, value, fee, sender, text, hfuzzed, hproof, hvalue, hfee, hrequest,
    hencoded, hfrom, hstrict, htxValue, htxFee⟩ := prepareTx_ok h
  refine ⟨_, hrequest, hencoded, fun j arg hj hplain => ?_, fun fuzz hmem hwants hagree => ?_,
    fun hnone => ?_, fun fuzz hmem hwants hagree => ?_, fun hnone => ?_⟩
  · rw [List.getElem?_map, Option.map_eq_some_iff] at hj
    obtain ⟨before, hbefore, rfl⟩ := hj
    rw [getElem?_withProof hproof hplain] at hbefore
    obtain ⟨signature, func, input, own, hsignature, hfunc, hinput, hown, hfuzz⟩ :=
      getFuzzedArgs_ok hfuzzed hbefore
    exact ⟨signature, func, input, own, sender, hsignature, hfunc, hinput, hown, hfrom,
      argRespects_fuzzedArg hdrawn hcall hfuzz placeholderMap sender⟩
  · rcases getFuzzedField_ok hvalue with ⟨-, values, v, hlookup, hv, rfl⟩ | ⟨hnone, -⟩
    · refine ⟨v, hdrawn.inBounds hlookup hagree hv, ?_⟩
      rw [htxValue, templateValue_decimal hreads placeholderMap hstrict]
    · exact absurd hwants (by simpa using hnone fuzz hmem)
  · rcases getFuzzedField_ok hvalue with ⟨⟨fuzz, hmem, hwants⟩, -⟩ | ⟨-, rfl⟩
    · exact absurd (by simpa using hwants) (hnone fuzz hmem)
    · exact ⟨text, hstrict, htxValue⟩
  · rcases getFuzzedField_ok hfee with ⟨-, values, v, hlookup, hv, rfl⟩ | ⟨hnone, -⟩
    · exact ⟨v, hdrawn.inBounds hlookup hagree hv, templateFee_decimal hreads placeholderMap htxFee⟩
    · exact absurd hwants (by simpa using hnone fuzz hmem)
  · rcases getFuzzedField_ok hfee with ⟨⟨fuzz, hmem, hwants⟩, -⟩ | ⟨-, rfl⟩
    · exact absurd (by simpa using hwants) (hnone fuzz hmem)
    · exact htxFee

theorem prepareStep_ok {placeholderMap : AssocMap Text Text} {fuzzMap : FuzzMap} {i : Nat}
    {step : SpamRequest} {request : ExecutionRequest}
    (h : g.prepareStep placeholderMap fuzzMap i step = .ok request) :
    List.Forall₂ (fun req r => g.prepareTx placeholderMap fuzzMap i req = .ok r) step.calls
      request.txs := by
  cases step with
  | tx req =>
    simp only [prepareStep, Except.bind_eq_ok_iff, Except.pure_eq_ok_iff] at h
    obtain ⟨r, hr, rfl⟩ := h
    exact .cons hr .nil
  | bundle txs =>
    simp only [prepareStep, Except.bind_eq_ok_iff, Except.pure_eq_ok_iff] at h
    obtain ⟨rs, hrs, rfl⟩ := h
    exact List.mapM_eq_ok_iff.mp hrs

/-- Every generated request respects the fuzz entries of its call, as far as the
other calls of the plan leave the names to it. -/
theorem loadSpam_respectsFuzz (hreads : g.foreign.ReadsDecimals) {numTxs : Nat}
    {generated : List Generated} (h : g.loadSpam numTxs = .ok generated) :
    ∃ total placeholderMap fuzzMap, roundUp numTxs g.spamSteps.length = some total ∧
      g.collectMaps total = .ok (placeholderMap, fuzzMap) ∧
      ∀ e ∈ generated, ∃ step, g.spamSteps[e.step]? = some step ∧
        List.Forall₂ (fun req r => ∃ args,
          g.requestArgs placeholderMap fuzzMap e.round req = .ok args ∧
            g.RespectsFuzz placeholderMap req args r) step.calls e.request.txs := by
  simp only [loadSpam, Except.bind_eq_ok_iff, orError_eq_ok] at h
  obtain ⟨total, htotal, ⟨placeholderMap, fuzzMap⟩, hmaps, hloop⟩ := h
  refine ⟨total, placeholderMap, fuzzMap, htotal, hmaps, fun e he => ?_⟩
  -- each request comes from one round of one step
  obtain ⟨⟨k, i⟩, -, hentry⟩ := (List.mapM_eq_ok_iff.mp hloop).exists_of_mem_right he
  simp only [Except.bind_eq_ok_iff, Except.pure_eq_ok_iff, orError_eq_ok] at hentry
  obtain ⟨step, hstep, request, hrequest, rfl⟩ := hentry
  refine ⟨step, hstep, ?_⟩
  have hcalls : ∀ req ∈ step.calls, req ∈ g.spamCalls := fun req hreq =>
    List.mem_flatMap.mpr ⟨step, List.mem_of_getElem? hstep, hreq⟩
  have hprepared := prepareStep_ok hrequest
  rw [List.forall₂_iff_get] at hprepared ⊢
  refine ⟨hprepared.1, fun j h₁ h₂ => ?_⟩
  exact respectsFuzz_of_prepareTx hreads hmaps (hcalls _ (List.get_mem _ _)) (hprepared.2 j h₁ h₂)

/-! ### Calls that fuzz a parameter of the same name -/

namespace SharedName

/-- `parse::<U256>` on decimal numbers. -/
def parseDecimal (text : Text) : Option U256 :=
  if text ≠ [] ∧ text.all Char.isDigit ∧ Nat.ofDigitChars 10 text 0 < 2 ^ 256 then
    some (BitVec.ofNat 256 (Nat.ofDigitChars 10 text 0))
  else none

def sender : Text := "0x000000000000000000000000000000000000dEaD".toList

def setSignature : Text := "set(uint256 x)".toList

def proofSignature : Text :=
  "verifyProof(uint256 a,uint256 b,uint256 c,uint256 d,uint256 e,uint256[8] proof)".toList

/-- The numbers that fill an argument: one in decimal, or several in hexadecimal. -/
def argWords (arg : Text) : List Nat :=
  match parseDecimal arg with
  | some value => [value.toNat]
  | none =>
    ((arg.splitOnP fun c => c ∉ Nat.hexDigits).filter fun digits => digits.length = 64).map
      fun digits => digits.foldl (fun n c => 16 * n + Nat.hexDigits.idxOf c) 0

/-- The libraries on the inputs of the plans below: the Keccak hashes of the zero
seed, of the seed of parameter `x` and of its first three values, the selectors
of the two functions, and the first curve points. -/
def foreign : Foreign where
  keccak256 bytes :=
    let base : U256 := 0x290decd9548b62a8d60345a988386fc84ba6bc95484008f6362f93160ef3e563
    let seed : U256 := 0x21ace73d2486166e1285f017796c08d8fd3d49322e9095fa24c6247031fd0d43
    if bytes = leBytes 0 then base
    else if bytes = beBytes base ++ [120] then seed
    else if bytes = leBytes seed then
      0x0f240c67957957db90568f0ef780b1f6ff52a9e6acac1ea5dbc18917d98f5265
    else if bytes = leBytes (seed + 1) then
      0xfae9668e2ad72dcb2b631373b369549b7be3825b7a6c0edf51c5f3d4ca553ef0
    else 0xd28db4905c806731c6487183fd5e2e6ef03faa62315977d87a2aa66819ea77f9
  toLowercase := List.map Char.toLower
  isNumeric := Char.isDigit
  parseAddress text := if text = sender then some 0xdead else none
  addressToString _ := sender
  parseU256 := parseDecimal
  parseUnits _ _ := .error []
  parseFunction signature :=
    if signature = setSignature then .ok ⟨["uint256 x".toList]⟩
    else .ok ⟨["uint256 a".toList, "uint256 b".toList, "uint256 c".toList, "uint256 d".toList,
      "uint256 e".toList, "uint256[8] proof".toList]⟩
  encodeInput func args :=
    let selector : Bytes := if func.inputs.length = 1 then [0x60, 0xfe, 0x47, 0xb1]
      else [0x3b, 0xc7, 0x78, 0xe3]
    .ok (selector ++ (args.flatMap argWords).flatMap fun n => beBytes (BitVec.ofNat 256 n))
  fromHex _ := none
  buildSidecar _ := none
  signFails _ _ := none
  g1Point i :=
    if i = 0 then (1, 2)
    else (0x0426967d24da411a24d5534814e9cffd5cf7f29d78e98a80ed591f31b7ac681a,
      0x0b67b4449502c8c6ae26ca3858efd2c17a782a55cb9a2c23551ffb020e68a479)
  g2Point _ := (0x1800DEEF121F1E76426A00665E5C4479674322D4F75EDADD46DEBD5CD992F6ED,
    0x198E9393920D483A7260BFB731FB5D25F1AA493335A9E71297E485B7AEF312C2,
    0x12C85EA5DB8C6DEB4AAB71808DCB408FE3D1E7690C43D37B4CE6CC0166FA7DAA,
    0x090689D0585FF075EC9E99AD690C3395BC4B313370B38EF355ACDADCD122975B)

theorem toLower_of_isDigit {c : Char} (h : c.isDigit) : c.toLower = c := by
  have hlower : ¬(c.val ≥ 'A'.val ∧ c.val ≤ 'Z'.val) := by
    simp only [Char.isDigit, Bool.and_eq_true, decide_eq_true_eq, UInt32.le_iff_toNat_le,
      ge_iff_le] at h ⊢
    simp at h ⊢
    omega
  exact dif_neg hlower

theorem readsDecimals : foreign.ReadsDecimals := by
  refine ⟨fun v => ?_, fun n => ?_⟩
  · have hread : Nat.ofDigitChars 10 (Nat.decimal v.toNat) 0 = v.toNat :=
      Nat.ofDigitChars_ten_toDigits
    have hvalid : Nat.decimal v.toNat ≠ [] ∧ (Nat.decimal v.toNat).all Char.isDigit ∧
        Nat.ofDigitChars 10 (Nat.decimal v.toNat) 0 < 2 ^ 256 :=
      ⟨Nat.toDigits_ne_nil, List.all_eq_true.mpr fun c hc => Nat.isDigit_of_mem_decimal hc,
        by rw [hread]; exact v.isLt⟩
    change parseDecimal (Nat.decimal v.toNat) = some v
    rw [parseDecimal, if_pos hvalid, hread, BitVec.ofNat_toNat, BitVec.setWidth_eq]
  · change (Nat.decimal n).map Char.toLower = Nat.decimal n
    calc (Nat.decimal n).map Char.toLower
        = (Nat.decimal n).map id :=
          List.map_congr_left fun c hc => toLower_of_isDigit (Nat.isDigit_of_mem_decimal hc)
      _ = Nat.decimal n := List.map_id _

/-- A call of `set` that fuzzes its parameter. -/
def setCall (fuzz : FuzzParam) : FunctionCallDefinition where
  toAddr := sender
  fromAddr := some sender
  signature := some setSignature
  args := some [['1']]
  fuzz := some [fuzz]

def smallFuzz : FuzzParam := { param := some ['x'], min := some 0, max := some 10 }

def largeFuzz : FuzzParam := { param := some ['x'], min := some 100, max := some 110 }

/-- A call whose last argument is replaced by a proof. -/
def proofCall : FunctionCallDefinition where
  toAddr := sender
  fromAddr := some sender
  signature := some proofSignature
  args := some [['1'], ['2'], ['3'], ['4'], ['5'], "[1,2,3,4,5,6,7,8]".toList]
  kind := some groth16Kind

def plan (calls : List FunctionCallDefinition) : Generator where
  foreign := foreign
  env := ∅
  spamSteps := calls.map .tx
  fuzzSeeder := ⟨0⟩
  agents := ∅
  nonces := ∅
  setcodeSigner := ⟨1, 1⟩
  chainId := 1
  source := { getNamedTx := fun _ => .ok none, scenarioLabel := none }

def threeSteps : Generator := plan [setCall smallFuzz, setCall largeFuzz, proofCall]

def oneStep : Generator := plan [setCall smallFuzz]

/-- The values drawn for `x` by the second call, which hide those of the first. -/
def sharedValues : FuzzMap := AList.insert ['x'] [107, 106, 109] ∅

theorem collectMaps_threeSteps : threeSteps.collectMaps 3 = .ok (∅, sharedValues) := by
  have hentries : (threeSteps.collectMaps 3).map (fun maps => (maps.1.entries, maps.2.entries)) =
      .ok ([], sharedValues.entries) := by decide +kernel
  obtain ⟨⟨placeholderMap, fuzzMap⟩, hmaps, heq⟩ := Except.map_eq_ok_iff.mp hentries
  obtain ⟨hplaceholders, hvalues⟩ := Prod.mk.inj heq
  have hfuzzMap : fuzzMap = sharedValues := AList.ext hvalues
  have hplaceholderMap : placeholderMap = ∅ := AList.ext hplaceholders
  rw [hmaps, hfuzzMap, hplaceholderMap]

/-- The first call gets a value between the bounds of the second, and the last
argument of the third is not its own. -/
theorem not_respected :
    threeSteps.collectMaps 3 = .ok (∅, sharedValues) ∧
      (threeSteps.loadSpam 3).map (fun generated => generated[0]?.map fun e =>
        e.request.txs.map (·.tx.input)) =
          .ok (some [some ([0x60, 0xfe, 0x47, 0xb1] ++ beBytes 107)]) ∧
      threeSteps.requestArgs ∅ sharedValues 0 (setCall smallFuzz) = .ok ["107".toList] ∧
      (¬∃ v, smallFuzz.InBounds v ∧ "107".toList = fuzzText "uint256".toList v) ∧
      (threeSteps.requestArgs ∅ sharedValues 0 proofCall).map (·[5]?) ≠
        .ok (some (threeSteps.ownArg ∅ 0xdead "[1,2,3,4,5,6,7,8]".toList)) := by
  refine ⟨collectMaps_threeSteps, by decide +kernel, by decide +kernel, ?_, by decide +kernel⟩
  rintro ⟨v, ⟨-, hlt⟩, htext⟩
  have hsmall : v.toNat < 10 := hlt
  have hnone : ∀ n < 10, "107".toList ≠ Nat.decimal n := by decide +kernel
  exact hnone v.toNat hsmall htext

/-- The request of a plan with one call: its argument is between the bounds. -/
def oneRequest : Generated where
  step := 0
  round := 0
  request := .tx {
    tx := {
      fromAddr := some 0xdead
      toKind := some (.call 0xdead)
      input := some ([0x60, 0xfe, 0x47, 0xb1] ++ beBytes 7) } }

theorem loadSpam_oneStep : oneStep.loadSpam 1 = .ok [oneRequest] := by decide +kernel

theorem respected_of_one_call :
    foreign.ReadsDecimals ∧ oneStep.loadSpam 1 = .ok [oneRequest] ∧
      ∃ total placeholderMap fuzzMap, roundUp 1 1 = some total ∧
        oneStep.collectMaps total = .ok (placeholderMap, fuzzMap) ∧
        ∀ e ∈ [oneRequest], ∃ step, oneStep.spamSteps[e.step]? = some step ∧
          List.Forall₂ (fun req r => ∃ args,
            oneStep.requestArgs placeholderMap fuzzMap e.round req = .ok args ∧
              oneStep.RespectsFuzz placeholderMap req args r) step.calls e.request.txs :=
  ⟨readsDecimals, loadSpam_oneStep, loadSpam_respectsFuzz readsDecimals loadSpam_oneStep⟩

end SharedName

end Generator

end Contender
