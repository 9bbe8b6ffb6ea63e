import Contender.Generator.CreatePlan
import Contender.Generator.PlaceholderGroups
import Contender.Generator.SetupNonces

/-!
# The special placeholders

`{_sender}` and `{_setCodeSender}` are not looked up, so templating leaves them alone.
In a call `special_replace` replaces them before, one or the other. Among the arguments
of a constructor only one that is `{_sender}` and nothing else is replaced.
-/

namespace Contender

/-- An address in hexadecimal has no opening brace. -/
def Foreign.PlainAddresses (foreign : Foreign) : Prop :=
  ∀ address, '{' ∉ foreign.addressToString address

/-- The keys of the environment have no braces, and none of them is special. -/
def PlainKeys (env : AssocMap Text Text) : Prop :=
  ∀ key ∈ env, BraceFree key ∧ key ≠ senderKey ∧ key ≠ setcodeKey

/-- The values that the environment has for the placeholders of a text bring no opening
brace. -/
def PlainValues (env : AssocMap Text Text) (given : Text) : Prop :=
  ∀ key value, placeholder key <:+: given → env.lookup key = some value → '{' ∉ value

namespace Generator

section Texts

variable (g : Generator) (placeholderMap : AssocMap Text Text) (sender : Address)

/-- The special placeholders with the addresses they stand for. -/
def specialEntries : List (Text × Text) :=
  [(placeholder senderKey, g.foreign.addressToString sender),
    (placeholder setcodeKey, g.foreign.addressToString g.setcodeSigner.address)]

/-- `written` is the text of a definition with every special placeholder replaced by its
address, and templated, and it contains none of them. -/
structure SpecialsReplaced (given written : Text) : Prop where
  replaced : ∃ replaced, List.EachReplaced (g.specialEntries sender) given replaced ∧
    written = replacePlaceholders placeholderMap replaced
  sender : ¬placeholder senderKey <:+: written
  setcode : ¬placeholder setcodeKey <:+: written

/-- The arguments that are encoded for a call, and its address, have the special
placeholders of the definition replaced. -/
structure CallReplaced (call : FunctionCallDefinition) (strict : FunctionCallDefinitionStrict) :
    Prop where
  args : List.Forall₂ (g.SpecialsReplaced placeholderMap strict.fromAddr) (call.args.getD [])
    (strict.args.map (replacePlaceholders placeholderMap))
  toAddr : g.SpecialsReplaced placeholderMap strict.fromAddr call.toAddr
    (replacePlaceholders placeholderMap strict.toAddr)

/-- The arguments that are encoded for a constructor have the special placeholders
replaced. -/
def ConstructorReplaced (strict : CreateDefinitionStrict) : Prop :=
  strict.signature ≠ none →
    List.Forall₂ (g.SpecialsReplaced placeholderMap strict.fromAddr) strict.args
      (strict.args.map (g.foreign.constructorArg placeholderMap strict.fromAddr))

end Texts

/-- Where the special placeholders of a text have been replaced, the values that templating puts in
do not spell one out. Values without an opening brace never do (`spellsNone_of_plainValues`). -/
def SpellsNone (g : Generator) (placeholderMap : AssocMap Text Text) (sender : Address)
    (given : Text) : Prop :=
  ∀ special ∈ [placeholder senderKey, placeholder setcodeKey],
    ¬special <:+: replacePlaceholders placeholderMap (given.replaceEach (g.specialEntries sender))

instance (g : Generator) (placeholderMap : AssocMap Text Text) (sender : Address) (given : Text) :
    Decidable (g.SpellsNone placeholderMap sender given) :=
  inferInstanceAs (Decidable (∀ special ∈ _, _))

/-- The text has at most one of the special placeholders. -/
def OneSpecial (given : Text) : Prop :=
  ¬(placeholder senderKey <:+: given ∧ placeholder setcodeKey <:+: given)

/-- The text has no special placeholder, or is `{_sender}`. -/
def SenderOnly (given : Text) : Prop :=
  given = placeholder senderKey ∨
    (¬placeholder senderKey <:+: given ∧ ¬placeholder setcodeKey <:+: given)

/-! ### One text -/

section OneText

variable {g : Generator} {placeholderMap : AssocMap Text Text} {sender : Address}
  {given written : Text} {keys : Text → Prop}

/-- The keys of a text that has been scanned for the map. -/
def KnownKey (placeholderMap : AssocMap Text Text) (key : Text) : Prop :=
  key = senderKey ∨ key = setcodeKey ∨ key ∈ placeholderMap

theorem braceFree_senderKey : BraceFree senderKey := by decide

theorem braceFree_setcodeKey : BraceFree setcodeKey := by decide

theorem apart_specialEntries (g : Generator) (sender : Address) :
    List.Apart (g.specialEntries sender) :=
  apart_placeholders braceFree_senderKey braceFree_setcodeKey (by decide) _ _

/-- With at most one of them in the text, the special placeholders are replaced before
templating. -/
theorem eachReplaced_specialReplace (h : OneSpecial given) :
    List.EachReplaced (g.specialEntries sender) given (g.specialReplace sender given) := by
  have hapart := apart_specialEntries g sender
  have heach := hapart.eachReplaced given
  by_cases hsetcode : placeholder setcodeKey <:+: given
  · have hsender : ¬placeholder senderKey <:+: given := fun hin => h ⟨hin, hsetcode⟩
    rw [hapart.replaceEach_eq_replaceAll (List.mem_cons_of_mem _ List.mem_cons_self)] at heach
    · rwa [specialReplace, if_neg hsender, if_pos hsetcode]
    · simpa [specialEntries] using fun _ => hsender
  · rw [hapart.replaceEach_eq_replaceAll List.mem_cons_self] at heach
    · by_cases hsender : placeholder senderKey <:+: given
      · rwa [specialReplace, if_pos hsender]
      · rw [List.replaceAll_of_not_within hsender] at heach
        rwa [specialReplace, if_neg hsender, if_neg hsetcode]
    · simpa [specialEntries] using fun _ => hsetcode

theorem replaceEach_eq_specialReplace (h : OneSpecial given) :
    given.replaceEach (g.specialEntries sender) = g.specialReplace sender given :=
  ((eachReplaced_specialReplace h).eq_replaceEach (apart_specialEntries g sender)).symm

theorem spellsNone_iff : g.SpellsNone placeholderMap sender given ↔
    ¬placeholder senderKey <:+:
        replacePlaceholders placeholderMap (given.replaceEach (g.specialEntries sender)) ∧
      ¬placeholder setcodeKey <:+:
        replacePlaceholders placeholderMap (given.replaceEach (g.specialEntries sender)) := by
  rw [SpellsNone, List.forall_mem_cons, List.forall_mem_singleton]

/-- The placeholders that are left are those of the map. -/
theorem grouped_specialReplace (haddr : g.foreign.PlainAddresses)
    (hknown : Grouped (KnownKey placeholderMap) given) (h : OneSpecial given) :
    Grouped (fun k => k ∈ placeholderMap ∧ placeholder k <:+: given)
      (g.specialReplace sender given) := by
  have hoccurs : Grouped (fun k => KnownKey placeholderMap k ∧ placeholder k <:+: given) given :=
    hknown.mono fun _ hkey hin => ⟨hkey, hin⟩
  by_cases hsender : placeholder senderKey <:+: given
  -- the other one is not in the text, so the keys that are left are in the map
  · rw [specialReplace, if_pos hsender]
    refine (hoccurs.replaceAll braceFree_senderKey fun _ => haddr sender).mono ?_
    rintro key ⟨⟨hkey, hin⟩, hne⟩ -
    refine ⟨(hkey.resolve_left hne).resolve_left ?_, hin⟩
    rintro rfl
    exact h ⟨hsender, hin⟩
  · have hne : ∀ key, placeholder key <:+: given → key ≠ senderKey := by
      rintro key hin rfl
      exact hsender hin
    rw [specialReplace, if_neg hsender]
    split_ifs with hsetcode
    · refine (hoccurs.replaceAll braceFree_setcodeKey fun _ => haddr _).mono ?_
      rintro key ⟨⟨hkey, hin⟩, hother⟩ -
      exact ⟨(hkey.resolve_left (hne key hin)).resolve_left hother, hin⟩
    · refine hoccurs.mono ?_
      rintro key ⟨hkey, hin⟩ -
      refine ⟨(hkey.resolve_left (hne key hin)).resolve_left ?_, hin⟩
      rintro rfl
      exact hsetcode hin

/-- Templating a text whose keys are all in the map. -/
theorem notMem_replacePlaceholders (hkeys : PlainKeys placeholderMap)
    (hvalues : PlainValues placeholderMap given)
    (h : Grouped (fun k => k ∈ placeholderMap ∧ placeholder k <:+: given) written) :
    '{' ∉ replacePlaceholders placeholderMap written := by
  have hgrouped := h.replacePlaceholders (fun key hkey => (hkeys key hkey).1)
    fun key value hlookup hkey => hvalues key value hkey.2 hlookup
  exact (hgrouped.mono fun _ hkey _ => hkey.2 hkey.1.1).notMem

theorem not_infix_of_notMem (h : '{' ∉ given) (key : Text) : ¬placeholder key <:+: given :=
  fun hin => h (hin.subset List.mem_cons_self)

/-- Templating keeps a special placeholder. -/
theorem infix_replacePlaceholders (hkeys : PlainKeys placeholderMap) {key : Text}
    (hkey : key = senderKey ∨ key = setcodeKey) (h : placeholder key <:+: given) :
    placeholder key <:+: replacePlaceholders placeholderMap given := by
  have hbrace : BraceFree key := by rcases hkey with rfl | rfl <;> decide
  have hentries : ∀ entry ∈ placeholderMap.entries, BraceFree entry.1 ∧ entry.1 ≠ key := by
    intro entry hentry
    obtain ⟨hfree, hsender, hsetcode⟩ :=
      hkeys entry.1 (AList.mem_keys.mpr (List.mem_map_of_mem hentry))
    exact ⟨hfree, by rcases hkey with rfl | rfl <;> assumption⟩
  unfold replacePlaceholders
  -- no entry takes a piece of it, as two placeholders do not overlap
  generalize placeholderMap.entries = entries at hentries
  induction entries generalizing given with
  | nil => exact h
  | cons entry entries ih =>
    obtain ⟨hfree, hne⟩ := hentries entry List.mem_cons_self
    refine ih ?_ fun e he => hentries e (List.mem_cons_of_mem _ he)
    exact (apart_placeholders hfree hbrace hne entry.2 []).infix_replaceAll h

theorem oneSpecial_of_specialsReplaced (hkeys : PlainKeys placeholderMap)
    (h : g.SpecialsReplaced placeholderMap sender given
      (replacePlaceholders placeholderMap (g.specialReplace sender given))) : OneSpecial given := by
  rintro ⟨hsender, hsetcode⟩
  -- `{_sender}` was replaced, and the other one has stayed
  refine h.setcode (infix_replacePlaceholders hkeys (.inr rfl) ?_)
  rw [specialReplace, if_pos hsender]
  exact (apart_specialEntries g sender).infix_replaceAll hsetcode

/-- The texts of a call, which are replaced by one of the addresses. -/
theorem specialsReplaced_call (hone : OneSpecial given)
    (hnone : g.SpellsNone placeholderMap sender given) :
    g.SpecialsReplaced placeholderMap sender given
      (replacePlaceholders placeholderMap (g.specialReplace sender given)) := by
  rw [spellsNone_iff, replaceEach_eq_specialReplace hone] at hnone
  exact ⟨⟨_, eachReplaced_specialReplace hone, rfl⟩, hnone.1, hnone.2⟩

theorem specialsReplaced_call_iff (hkeys : PlainKeys placeholderMap) :
    g.SpecialsReplaced placeholderMap sender given
        (replacePlaceholders placeholderMap (g.specialReplace sender given)) ↔
      OneSpecial given ∧ g.SpellsNone placeholderMap sender given := by
  refine ⟨fun h => ?_, fun h => specialsReplaced_call h.1 h.2⟩
  have hone := oneSpecial_of_specialsReplaced hkeys h
  refine ⟨hone, spellsNone_iff.mpr ?_⟩
  rw [replaceEach_eq_specialReplace hone]
  exact ⟨h.sender, h.setcode⟩

theorem senderOnly_of_specialsReplaced (hkeys : PlainKeys placeholderMap)
    (h : g.SpecialsReplaced placeholderMap sender given
      (g.foreign.constructorArg placeholderMap sender given)) : SenderOnly given := by
  by_cases hself : given = placeholder senderKey
  · exact .inl hself
  -- any other argument is templated as it is
  · rw [Foreign.constructorArg, if_neg hself] at h
    exact .inr ⟨fun hin => h.sender (infix_replacePlaceholders hkeys (.inl rfl) hin),
      fun hin => h.setcode (infix_replacePlaceholders hkeys (.inr rfl) hin)⟩

theorem oneSpecial_of_senderOnly (h : SenderOnly given) : OneSpecial given := by
  rcases h with rfl | ⟨hsender, -⟩
  · exact fun hin => absurd hin.2 (by decide)
  · exact fun hin => hsender hin.1

/-- Such an argument of a constructor gets what it would get in a call. -/
theorem constructorArg_eq (haddr : g.foreign.PlainAddresses) (h : SenderOnly given) :
    g.foreign.constructorArg placeholderMap sender given =
      replacePlaceholders placeholderMap (g.specialReplace sender given) := by
  rcases h with rfl | ⟨hsender, hsetcode⟩
  · have hall : (placeholder senderKey).replaceAll (placeholder senderKey)
        (g.foreign.addressToString sender) = g.foreign.addressToString sender := by
      simpa [List.replaceAll, List.replaceFrom] using
        List.replaceAll_append_self (placeholder_ne_nil senderKey)
          (g.foreign.addressToString sender) []
    rw [Foreign.constructorArg, if_pos rfl, specialReplace, if_pos (List.infix_refl _), hall,
      replacePlaceholders_of_notMem (haddr sender)]
  · have hne : given ≠ placeholder senderKey := by
      rintro rfl
      exact hsender (List.infix_refl _)
    rw [Foreign.constructorArg, if_neg hne, specialReplace, if_neg hsender, if_neg hsetcode]

/-- The arguments of a constructor, where only `{_sender}` alone is replaced. -/
theorem specialsReplaced_constructor (haddr : g.foreign.PlainAddresses) (honly : SenderOnly given)
    (hnone : g.SpellsNone placeholderMap sender given) :
    g.SpecialsReplaced placeholderMap sender given
      (g.foreign.constructorArg placeholderMap sender given) := by
  rw [constructorArg_eq haddr honly]
  exact specialsReplaced_call (oneSpecial_of_senderOnly honly) hnone

theorem specialsReplaced_constructor_iff (haddr : g.foreign.PlainAddresses)
    (hkeys : PlainKeys placeholderMap) :
    g.SpecialsReplaced placeholderMap sender given
        (g.foreign.constructorArg placeholderMap sender given) ↔
      SenderOnly given ∧ g.SpellsNone placeholderMap sender given := by
  refine ⟨fun h => ?_, fun h => specialsReplaced_constructor haddr h.1 h.2⟩
  have honly := senderOnly_of_specialsReplaced hkeys h
  rw [constructorArg_eq haddr honly, specialsReplaced_call_iff hkeys] at h
  exact ⟨honly, h.2⟩

end OneText

/-! ### The map -/

/-- What the map of a plan has besides the environment: the addresses of contracts. -/
def FilledFrom (env placeholderMap : AssocMap Text Text) : Prop :=
  ∀ key value, placeholderMap.lookup key = some value → env.lookup key = some value ∨
    (BraceFree key ∧ key ≠ senderKey ∧ key ≠ setcodeKey ∧ '{' ∉ value)

section Map

variable {env placeholderMap filled : AssocMap Text Text} {source : PlaceholderSource}

theorem FilledFrom.plainKeys (h : FilledFrom env placeholderMap) (hkeys : PlainKeys env) :
    PlainKeys placeholderMap := by
  intro key hkey
  obtain ⟨value, hvalue⟩ := AList.mem_iff_lookup.mp hkey
  rcases h key value hvalue with henv | ⟨hbrace, hsender, hsetcode, -⟩
  · exact hkeys key (AList.mem_iff_lookup.mpr ⟨value, henv⟩)
  · exact ⟨hbrace, hsender, hsetcode⟩

theorem FilledFrom.plainValues {given : Text} (h : FilledFrom env placeholderMap)
    (hvalues : PlainValues env given) : PlainValues placeholderMap given := by
  intro key value hin hvalue
  rcases h key value hvalue with henv | ⟨-, -, -, hplain⟩
  · exact hvalues key value hin henv
  · exact hplain

theorem notMem_deployed {key value : Text} (h : source.deployed key = some value) :
    '{' ∉ value := by
  unfold PlaceholderSource.deployed at h
  split at h
  · rename_i named _
    obtain rfl := Option.some.inj h
    cases named.address with
    | none => simp
    | some address => exact Nat.notMem_paddedHex (by decide) 40 address.toNat
  · cases h

theorem FilledFrom.fills {texts : List Text} (h : FilledFrom env placeholderMap)
    (hfills : source.Fills texts placeholderMap filled) : FilledFrom env filled := by
  intro key value hvalue
  by_cases hold : key ∈ placeholderMap
  · exact h key value ((hfills.kept key hold).symm.trans hvalue)
  · obtain ⟨hbrace, hsender, hsetcode, -, hdeployed⟩ :=
      hfills.added key (AList.mem_iff_lookup.mpr ⟨value, hvalue⟩) hold
    exact .inr ⟨hbrace, hsender, hsetcode, notMem_deployed (hdeployed.symm.trans hvalue)⟩

/-- The values of an environment that bring no opening brace spell none out. -/
theorem spellsNone_of_plainValues {g : Generator} {sender : Address} {given : Text}
    (haddr : g.foreign.PlainAddresses) (h : FilledFrom env placeholderMap) (hkeys : PlainKeys env)
    (hvalues : PlainValues env given) (hknown : Grouped (KnownKey placeholderMap) given)
    (hone : OneSpecial given) : g.SpellsNone placeholderMap sender given := by
  have hplain : '{' ∉ replacePlaceholders placeholderMap (g.specialReplace sender given) :=
    notMem_replacePlaceholders (h.plainKeys hkeys) (h.plainValues hvalues)
      (grouped_specialReplace haddr hknown hone)
  rw [spellsNone_iff, replaceEach_eq_specialReplace hone]
  exact ⟨not_infix_of_notMem hplain _, not_infix_of_notMem hplain _⟩

end Map

/-! ### What is accepted -/

/-- `load_txs` has found the placeholders of a call and made it strict, in the setup plan
or, with its fuzzed values filled in, in the spam plan (`acceptsCall_of_loadSpam`). The map
is the one the call is templated with. -/
inductive AcceptsCall (g : Generator) : FunctionCallDefinition → AssocMap Text Text →
    FunctionCallDefinitionStrict → Prop
  | setup {env : SetupEnv} {k idx : Nat} {s : SetupState} {step : FunctionCallDefinition}
      {filled : AssocMap Text Text} {strict : FunctionCallDefinitionStrict}
      (hbefore : ((g.setupSteps.zipIdx.take k).forM fun p => g.setupStep env p.2 p.1).run {
        placeholderMap := g.env, nextNonce := g.nonces, chains := .empty, txs := [] } = .ok ⟨⟩ s)
      (hstep : g.setupSteps[k]? = some step)
      (hfilled : (g.withDatabase (env.database k none)).source.findFncallPlaceholders
        s.placeholderMap step = .ok filled)
      (hstrict : (g.withDatabase (env.database k (some idx))).makeStrictCall step idx =
        .ok strict) : AcceptsCall g step filled strict
  | spam {numTxs i : Nat} {placeholderMap : AssocMap Text Text} {fuzzMap : FuzzMap}
      {call filled : FunctionCallDefinition} {strict : FunctionCallDefinitionStrict}
      (hmaps : g.collectMaps numTxs = .ok (placeholderMap, fuzzMap)) (hcall : call ∈ g.spamCalls)
      (hfilled : g.fillFuzzed fuzzMap i call = .ok filled)
      (hstrict : g.makeStrictCall filled i = .ok strict) :
      AcceptsCall g filled placeholderMap strict

/-- `load_txs` has found the placeholders of a contract creation and made it strict. -/
inductive AcceptsCreate (g : Generator) : AssocMap Text Text → CreateDefinitionStrict → Prop
  | create {σ : Type} {env : CreateEnv σ} {steps : List CreateDefinition} {database : σ} {k : Nat}
      {s : CreateState σ} {step : CreateDefinition} {filled : AssocMap Text Text}
      {strict : CreateDefinitionStrict} (hcomes : g.ComesTo env steps database k s step filled)
      (hstrict : g.makeStrictCreate step 0 = .ok strict) : AcceptsCreate g filled strict

section Accepted

variable {g : Generator}

open EStateM SetupM

theorem keeps_ofExcept {ε α : Type} (wrap : ε → SetupError) (x : Except ε α) :
    Keeps SetupState.placeholderMap (ofExcept wrap x) := by
  cases x with
  | ok a => exact Keeps.pure a
  | error e => exact Keeps.throw (wrap e)

theorem keeps_takeNonce (env : SetupEnv) (sender : Address) :
    Keeps SetupState.placeholderMap (takeNonce env sender) := by
  have hcount : Keeps SetupState.placeholderMap (do
      let nonce ← ofGenerator (orError .panic ((← get).nextNonce.lookup sender))
      let next ← ofGenerator (orError .panic (addU64 nonce 1))
      modify fun s => { s with nextNonce := s.nextNonce.insert sender next }
      return nonce : SetupM Nat) := by
    refine Keeps.get.bind fun _ => (keeps_ofExcept _ _).bind fun _ =>
      (keeps_ofExcept _ _).bind fun _ => Keeps.bind ?_ fun _ => Keeps.pure _
    exact Keeps.update fun _ => rfl
  unfold takeNonce
  refine Keeps.get.bind fun s => ?_
  split_ifs
  · exact hcount
  · refine (keeps_ofExcept _ _).bind fun _ => Keeps.bind ?_ fun _ => hcount
    exact Keeps.update fun _ => rfl

theorem keeps_setupTx (env : SetupEnv) (k : Nat) (step : FunctionCallDefinition) (idx : Nat) :
    Keeps SetupState.placeholderMap (g.setupTx env k step idx) := by
  unfold setupTx
  refine (keeps_ofExcept _ _).bind fun _ => Keeps.get.bind fun _ =>
    (keeps_ofExcept _ _).bind fun _ => (keeps_ofExcept _ _).bind fun _ =>
      (keeps_takeNonce env _).bind fun _ => (keeps_ofExcept _ _).bind fun started => ?_
  cases started with
  | true =>
    refine Keeps.bind ?_ fun _ => ?_
    · exact Keeps.update fun _ => rfl
    · exact Keeps.update fun _ => rfl
  | false => exact Keeps.update fun _ => rfl

/-- A setup step leaves the map that its requests were templated with. -/
theorem placeholderMap_of_setupStep {env : SetupEnv} {k : Nat} {step : FunctionCallDefinition}
    {s t : SetupState} (h : g.setupStep env k step s = .ok ⟨⟩ t) :
    (g.withDatabase (env.database k none)).source.findFncallPlaceholders s.placeholderMap step =
      .ok t.placeholderMap := by
  simp only [Generator.setupStep, bind_eq_ok, get_eq_ok, modify_eq_ok, ofGenerator_eq_ok] at h
  obtain ⟨_, _, ⟨rfl, rfl⟩, filled, _, ⟨hfilled, rfl⟩, _, _, rfl, indices, _, ⟨-, rfl⟩, hloop⟩ := h
  have hkept : t.placeholderMap = filled := by
    refine forM_ok_invariant (I := fun u => u.placeholderMap = filled) ?_ rfl hloop
    intro idx _ u v hu hidx
    exact ((keeps_setupTx env k step idx).of_ok hidx).trans hu
  rw [hkept, hfilled]

theorem mem_of_mem_intercalate {c : Char} {sep : Text} {texts : List Text}
    (h : c ∈ List.intercalate sep texts) : c ∈ sep ∨ ∃ text ∈ texts, c ∈ text := by
  induction texts with
  | nil => simp at h
  | cons text texts ih =>
    cases texts with
    | nil => exact .inr ⟨text, List.mem_cons_self, by simpa using h⟩
    | cons next texts =>
      simp only [List.intercalate_cons_cons, List.mem_append] at h
      rcases h with (h | h) | h
      · exact .inr ⟨text, List.mem_cons_self, h⟩
      · exact .inl h
      · exact (ih h).imp_right fun ⟨t, ht, hc⟩ => ⟨t, List.mem_cons_of_mem _ ht, hc⟩

/-- A proof has no placeholders. -/
theorem notMem_groth16Proof (g : Generator) (i : Nat) : '{' ∉ g.groth16Proof i := by
  unfold groth16Proof
  intro h
  simp only [List.mem_cons, List.mem_append, Char.reduceEq, List.not_mem_nil, or_false,
    false_or] at h
  rcases mem_of_mem_intercalate h with hsep | ⟨text, htext, hin⟩
  · exact absurd hsep (by decide)
  · obtain ⟨v, -, rfl⟩ := List.mem_map.mp htext
    simp [Nat.notMem_paddedHex (by decide : '{' ∉ Nat.hexDigits)] at hin

/-- What stands in the arguments of a call after fuzzing: its own arguments, and texts
without placeholders. -/
theorem mem_args_of_fillFuzzed {fuzzMap : FuzzMap} {i : Nat} {call filled : FunctionCallDefinition}
    (h : g.fillFuzzed fuzzMap i call = .ok filled) {arg : Text} (harg : arg ∈ filled.args.getD []) :
    arg ∈ call.args.getD [] ∨ '{' ∉ arg := by
  obtain ⟨fuzzed, args, value, fee, hfuzzed, hproof, -, -, rfl⟩ := fillFuzzed_ok h
  have hown : ∀ text ∈ fuzzed, text ∈ call.args.getD [] ∨ '{' ∉ text := by
    intro text htext
    obtain ⟨j, hj⟩ := List.getElem?_of_mem htext
    obtain ⟨signature, func, input, own, -, -, -, hargs, htaken⟩ := getFuzzedArgs_ok hfuzzed hj
    unfold fuzzedArg at htaken
    split at htaken
    · exact .inl (Except.ok.inj htaken ▸ List.mem_of_getElem? hargs)
    · split at htaken
      · exact .inl (Except.ok.inj htaken ▸ List.mem_of_getElem? hargs)
      · obtain ⟨v, -, rfl⟩ := Except.map_eq_ok_iff.mp htaken
        exact .inr (notMem_fuzzText _ v)
  unfold withProof at hproof
  split_ifs at hproof
  · obtain rfl := Except.ok.inj hproof
    rcases List.mem_or_eq_of_mem_set harg with hmem | rfl
    · exact hown arg hmem
    · exact .inr (notMem_groth16Proof g i)
  · obtain rfl := Except.ok.inj hproof
    exact hown arg harg

/-- What the strict form of a call has in place of its texts. -/
theorem makeStrictCall_texts {call : FunctionCallDefinition} {idx : Nat}
    {strict : FunctionCallDefinitionStrict} (h : g.makeStrictCall call idx = .ok strict) :
    strict.args = (call.args.getD []).map (g.specialReplace strict.fromAddr) ∧
      strict.toAddr = g.specialReplace strict.fromAddr call.toAddr := by
  simp only [makeStrictCall, Except.bind_eq_ok_iff, Except.pure_eq_ok_iff] at h
  obtain ⟨sender, -, auth, -, value, -, sidecar, -, rfl⟩ := h
  exact ⟨rfl, rfl⟩

/-- What is known of a call that is accepted: where its map comes from, the keys of its
texts, and its strict form. -/
structure Prepared (g : Generator) (call : FunctionCallDefinition)
    (placeholderMap : AssocMap Text Text) (strict : FunctionCallDefinitionStrict) : Prop where
  filled : FilledFrom g.env placeholderMap
  known : ∀ given ∈ call.args.getD [] ++ [call.toAddr], Grouped (KnownKey placeholderMap) given
  args : strict.args = (call.args.getD []).map (g.specialReplace strict.fromAddr)
  toAddr : strict.toAddr = g.specialReplace strict.fromAddr call.toAddr

theorem filledFrom_env (g : Generator) : FilledFrom g.env g.env := fun _ _ h => .inl h

theorem AcceptsCall.prepared {call : FunctionCallDefinition} {placeholderMap : AssocMap Text Text}
    {strict : FunctionCallDefinitionStrict} (h : g.AcceptsCall call placeholderMap strict) :
    g.Prepared call placeholderMap strict := by
  cases h with
  | @setup env k idx s step filled strict hbefore hstep hfilled hstrict =>
    have hold : FilledFrom g.env s.placeholderMap := by
      refine forM_ok_invariant (I := fun u => FilledFrom g.env u.placeholderMap) ?_
        (filledFrom_env g) hbefore
      intro p _ u v hu hp
      exact hu.fills (PlaceholderSource.fills_of_foldlM (placeholderMap_of_setupStep hp))
    obtain ⟨hargs, hto⟩ := makeStrictCall_texts hstrict
    refine ⟨hold.fills (PlaceholderSource.fills_of_foldlM hfilled), fun given hgiven => ?_, hargs,
      hto⟩
    refine PlaceholderSource.grouped_of_foldlM hfilled given ?_
    rcases List.mem_append.mp hgiven with hgiven | hgiven
    · simp [FunctionCallDefinition.templates, hgiven]
    · simp [FunctionCallDefinition.templates, List.mem_singleton.mp hgiven]
  | @spam numTxs i placeholderMap fuzzMap original call strict hmaps hcall hfilled hstrict =>
    have hscan : (g.spamCalls.flatMap FunctionCallDefinition.templates).foldlM
        g.source.findPlaceholderValues g.env = .ok placeholderMap := by
      rw [List.foldlM_flatMap]
      exact foldlM_findFncallPlaceholders hmaps
    obtain ⟨hargs, hto⟩ := makeStrictCall_texts hstrict
    refine ⟨(filledFrom_env g).fills (PlaceholderSource.fills_of_foldlM hscan),
      fun given hgiven => ?_, hargs, hto⟩
    have hknown : ∀ text ∈ original.templates, Grouped (KnownKey placeholderMap) text :=
      fun text htext => PlaceholderSource.grouped_of_foldlM hscan text
        (List.mem_flatMap.mpr ⟨original, hcall, htext⟩)
    rcases List.mem_append.mp hgiven with hgiven | hgiven
    · rcases mem_args_of_fillFuzzed hfilled hgiven with hown | hplain
      · exact hknown given (by simp [FunctionCallDefinition.templates, hown])
      · exact .of_notMem hplain
    · have hown : call.toAddr = original.toAddr := by
        obtain ⟨fuzzed, args, value, fee, -, -, -, -, rfl⟩ := fillFuzzed_ok hfilled
        rfl
      have hsame : given = original.toAddr := (List.mem_singleton.mp hgiven).trans hown
      exact hknown given (by simp [FunctionCallDefinition.templates, hsame])

/-- Every request of the spam plan is made of a call that is accepted. -/
theorem acceptsCall_of_loadSpam {numTxs : Nat} {generated : List Generated}
    (h : g.loadSpam numTxs = .ok generated) : ∀ e ∈ generated, ∀ r ∈ e.request.txs,
      ∃ call placeholderMap strict, g.AcceptsCall call placeholderMap strict ∧
        g.foreign.templateFunctionCall placeholderMap strict = .ok r.tx := by
  intro e he r hr
  simp only [loadSpam, Except.bind_eq_ok_iff, orError_eq_ok] at h
  obtain ⟨total, -, ⟨placeholderMap, fuzzMap⟩, hmaps, hloop⟩ := h
  obtain ⟨⟨k, i⟩, -, hentry⟩ := (List.mapM_eq_ok_iff.mp hloop).exists_of_mem_right he
  simp only [Except.bind_eq_ok_iff, Except.pure_eq_ok_iff, orError_eq_ok] at hentry
  obtain ⟨step, hstep, request, hrequest, rfl⟩ := hentry
  obtain ⟨req, hreq, hprepared⟩ := (prepareStep_ok hrequest).exists_of_mem_right hr
  simp only [prepareTx, Except.bind_eq_ok_iff, Except.pure_eq_ok_iff] at hprepared
  obtain ⟨filled, hfilled, strict, hstrict, tx, htx, rfl⟩ := hprepared
  have hcall : req ∈ g.spamCalls := List.mem_flatMap.mpr ⟨step, List.mem_of_getElem? hstep, hreq⟩
  exact ⟨filled, placeholderMap, strict, .spam hmaps hcall hfilled hstrict, htx⟩

theorem AcceptsCreate.prepared {placeholderMap : AssocMap Text Text}
    {strict : CreateDefinitionStrict} (h : g.AcceptsCreate placeholderMap strict) :
    FilledFrom g.env placeholderMap ∧
      ∀ given ∈ strict.args, Grouped (KnownKey placeholderMap) given := by
  obtain ⟨hcomes, hstrict⟩ := h
  rename_i σ env steps database k s step
  have hold : FilledFrom g.env s.placeholderMap := by
    refine List.foldlM_ok_of_forall_mem (p := fun u => FilledFrom g.env u.placeholderMap) ?_
      (filledFrom_env g) hcomes.before
    intro _ _ u v hu hstep
    exact hu.fills (PlaceholderSource.fills_of_foldlM (createStep_ok hstep))
  refine ⟨hold.fills hcomes.fills, fun given hgiven => ?_⟩
  refine PlaceholderSource.grouped_of_foldlM hcomes.filled given ?_
  simp only [makeStrictCreate, Except.bind_eq_ok_iff, Except.pure_eq_ok_iff] at hstrict
  obtain ⟨sender, -, rfl⟩ := hstrict
  simp [CreateDefinition.templates, hgiven]

/-- The texts of an accepted call, one by one. -/
theorem AcceptsCall.callReplaced_iff {call : FunctionCallDefinition}
    {placeholderMap : AssocMap Text Text} {strict : FunctionCallDefinitionStrict}
    (h : g.AcceptsCall call placeholderMap strict) :
    g.CallReplaced placeholderMap call strict ↔ ∀ given ∈ call.args.getD [] ++ [call.toAddr],
      g.SpecialsReplaced placeholderMap strict.fromAddr given
        (replacePlaceholders placeholderMap (g.specialReplace strict.fromAddr given)) := by
  obtain ⟨-, -, hargs, hto⟩ := h.prepared
  have hall : List.Forall₂ (g.SpecialsReplaced placeholderMap strict.fromAddr)
      (call.args.getD []) (strict.args.map (replacePlaceholders placeholderMap)) ↔
      ∀ given ∈ call.args.getD [], g.SpecialsReplaced placeholderMap strict.fromAddr given
        (replacePlaceholders placeholderMap (g.specialReplace strict.fromAddr given)) := by
    rw [hargs, List.map_map, List.forall₂_map_right_iff, List.forall₂_same]
    rfl
  rw [List.forall_mem_append, List.forall_mem_singleton, ← hto, ← hall]
  exact ⟨fun h => ⟨h.args, h.toAddr⟩, fun h => ⟨h.1, h.2⟩⟩

end Accepted

namespace SenderNote

def setcodeAddress : Text := "0x0000000000000000000000000000000000000001".toList

/-- The encoding of one string: selector, offset, length, and the bytes padded to words. -/
def encodeString (text : Text) : Bytes :=
  let bytes := utf8 text
  [0x1b, 0x35, 0x2c, 0x43] ++ beBytes 32 ++ beBytes (BitVec.ofNat 256 bytes.length) ++ bytes ++
    List.replicate ((32 - bytes.length % 32) % 32) 0

/-- The libraries, for `note(string)` and a constructor of a string. -/
def foreign : Foreign :=
  { SharedName.foreign with
    addressToString := fun address => if address = 0xdead then SharedName.sender else setcodeAddress
    parseFunction := fun _ => .ok ⟨["string".toList]⟩
    encodeInput := fun _ args => .ok (encodeString (args.headD []))
    fromHex := RedeployedToken.readHex }

theorem plainAddresses : foreign.PlainAddresses := by
  intro address
  change '{' ∉ if address = 0xdead then SharedName.sender else setcodeAddress
  split_ifs <;> decide

def note (text : Text) : FunctionCallDefinition where
  toAddr := SharedName.sender
  fromAddr := some SharedName.sender
  signature := some "note(string)".toList
  args := some [text]

def plan (env : AssocMap Text Text) (text : Text) : Generator :=
  { SharedName.plan [note text] with env := env, foreign := foreign }

def strict (text : Text) : FunctionCallDefinitionStrict where
  toAddr := SharedName.sender
  fromAddr := 0xdead
  signature := "note(string)".toList
  args := [text]
  value := none
  fuzz := []
  kind := none
  gasLimit := none
  maxPriorityFeePerGas := none
  sidecar := none
  authorization := none

def constructor (text : Text) : CreateDefinition where
  contract := { bytecode := "6000".toList, name := "note".toList }
  signature := some "(string)".toList
  args := some [text]
  fromAddr := some SharedName.sender

def strictConstructor (text : Text) : CreateDefinitionStrict where
  bytecode := "6000".toList
  name := "note".toList
  fromAddr := 0xdead
  signature := some "(string)".toList
  args := [text]

variable {env : AssocMap Text Text}

theorem fillFuzzed_note (text : Text) :
    (plan env text).fillFuzzed ∅ 0 (note text) = .ok (note text) :=
  rfl

/-- The sender's address has no placeholders. -/
theorem fromAddress_sender {funcdef : FunctionCallDefinition} (hpool : funcdef.fromPool = none)
    (hfrom : funcdef.fromAddr = some SharedName.sender) (text : Text) :
    (plan env text).fromAddress funcdef 0 = .ok 0xdead := by
  rw [fromAddress, hpool, hfrom]
  change orError _ (foreign.parseAddress (replacePlaceholders env SharedName.sender)) = _
  rw [replacePlaceholders_of_notMem (by decide)]
  rfl

theorem makeStrictCall_note (text : Text) : (plan env text).makeStrictCall (note text) 0 =
    .ok (strict ((plan env text).specialReplace 0xdead text)) := by
  have hsender : (plan env text).fromAddress (note text) 0 = .ok 0xdead :=
    fromAddress_sender rfl rfl text
  have hto : (plan env text).specialReplace 0xdead SharedName.sender = SharedName.sender :=
    specialReplace_of_notMem (by decide) _
  rw [makeStrictCall, hsender]
  change Except.ok { strict ((plan env text).specialReplace 0xdead text) with
    toAddr := (plan env text).specialReplace 0xdead SharedName.sender } = _
  rw [hto]
  rfl

theorem makeStrictCreate_constructor (text : Text) :
    (plan env text).makeStrictCreate (constructor text) 0 = .ok (strictConstructor text) := by
  rw [makeStrictCreate, fromAddress_sender rfl rfl text]
  rfl

theorem acceptsCall {text : Text}
    (hmaps : ((plan env text).collectMaps 1).map (fun maps => (maps.1.entries, maps.2.entries)) =
      .ok (env.entries, [])) : (plan env text).AcceptsCall (note text) env
        (strict ((plan env text).specialReplace 0xdead text)) := by
  obtain ⟨⟨placeholderMap, fuzzMap⟩, hmaps, heq⟩ := Except.map_eq_ok_iff.mp hmaps
  obtain ⟨hplaceholders, hvalues⟩ := Prod.mk.inj heq
  obtain rfl : placeholderMap = env := AList.ext hplaceholders
  obtain rfl : fuzzMap = ∅ := AList.ext hvalues
  exact .spam hmaps List.mem_cons_self (fillFuzzed_note text) (makeStrictCall_note text)

theorem acceptsCreate {text : Text}
    (hfilled : ((plan env text).source.findCreatePlaceholders env (constructor text)).map
      AList.entries = .ok env.entries) :
    (plan env text).AcceptsCreate env (strictConstructor text) := by
  let createEnv : CreateEnv Unit :=
    { getNamedTx := fun _ => (plan env text).source.getNamedTx
      transactionCount := fun _ => .ok 0
      onCreateStep := fun database _ => .ok database }
  obtain ⟨filled, hfilled, hentries⟩ := Except.map_eq_ok_iff.mp hfilled
  obtain rfl : filled = env := AList.ext hentries
  have hcomes : (plan filled text).ComesTo createEnv [constructor text] () 0
      ((plan filled text).createInit ()) (constructor text) filled := ⟨rfl, rfl, hfilled⟩
  exact .create hcomes (makeStrictCreate_constructor text)

def both : Text := "{_sender},{_setCodeSender}".toList

def bothWritten : Text :=
  "0x000000000000000000000000000000000000dEaD,{_setCodeSender}".toList

theorem acceptsCall_both : (plan ∅ both).AcceptsCall (note both) ∅ (strict bothWritten) := by
  have hmaps : ((plan ∅ both).collectMaps 1).map (fun maps => (maps.1.entries, maps.2.entries)) =
      .ok ([], []) := by decide +kernel
  have hwritten : (plan ∅ both).specialReplace 0xdead both = bothWritten := by decide +kernel
  exact hwritten ▸ acceptsCall hmaps

theorem acceptsCreate_setcode : (plan ∅ (placeholder setcodeKey)).AcceptsCreate ∅
    (strictConstructor (placeholder setcodeKey)) := by
  refine acceptsCreate ?_
  decide +kernel

theorem encoded_both :
    (foreign.templateFunctionCall ∅ (strict bothWritten)).map TransactionRequest.input =
      .ok (some (encodeString bothWritten)) := by decide +kernel

/-- A value with braces of its own. -/
def braces : AssocMap Text Text := AList.insert "data".toList "{1}".toList ∅

/-- The sender, and that value. -/
def senderData : Text := "{_sender},{data}".toList

def senderDataWritten : Text := "0x000000000000000000000000000000000000dEaD,{data}".toList

theorem acceptsCall_senderData :
    (plan braces senderData).AcceptsCall (note senderData) braces (strict senderDataWritten) := by
  have hmaps : ((plan braces senderData).collectMaps 1).map
      (fun maps => (maps.1.entries, maps.2.entries)) = .ok (braces.entries, []) := by
    decide +kernel
  have hwritten : (plan braces senderData).specialReplace 0xdead senderData =
      senderDataWritten := by decide +kernel
  exact hwritten ▸ acceptsCall hmaps

theorem acceptsCreate_sender : (plan ∅ (placeholder senderKey)).AcceptsCreate ∅
    (strictConstructor (placeholder senderKey)) := by
  refine acceptsCreate ?_
  decide +kernel

end SenderNote

end Generator

end Contender
