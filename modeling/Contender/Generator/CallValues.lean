import Contender.Generator.FuzzBounds

/-!
# The value of a call

The value of a call is read twice. `make_strict_call` reads it with `parse_value`,
which takes plain numbers and numbers with a unit, and leaves a text with a
placeholder as it is. `template_function_call` fills the placeholders in and reads
the result as a plain number; what is none is dropped, and the request goes out
without a value. The priority fee of a call, which is read beside it, is read with
`parse_value` after the placeholders are filled in, and a text that is no amount is
an error.
-/

namespace Contender

/-! ### Number syntax -/

/-- How the libraries read numbers and units: neither contains an opening brace, and a
plain number is the same number without the blanks around it and in lower case. -/
structure Foreign.ReadsAmounts (foreign : Foreign) : Prop extends foreign.ReadsDecimals where
  parseU256_brace : ∀ input v, foreign.parseU256 input = some v → '{' ∉ input
  parseUnits_brace : ∀ num unit v, foreign.parseUnits num unit = .ok v → '{' ∉ unit
  parseU256_trimmed : ∀ input v, foreign.parseU256 input = some v →
    foreign.parseU256 (foreign.toLowercase (trim input)) = some v
  toLowercase_brace : ∀ input, '{' ∈ input → '{' ∈ foreign.toLowercase input
  isNumeric_brace : foreign.isNumeric '{' = false

namespace Foreign

variable {foreign : Foreign}

theorem mem_trim_brace {input : Text} (h : '{' ∈ input) : '{' ∈ trim input :=
  (mem_trim_or h).resolve_left (by decide)

namespace ReadsAmounts

variable (hreads : foreign.ReadsAmounts)

include hreads

/-- A text with a placeholder is no amount. -/
theorem notMem_of_parseValue {input : Text} {v : U256} (h : foreign.parseValue input = .ok v) :
    '{' ∉ input := by
  intro hmem
  have hlower : '{' ∈ foreign.toLowercase (trim input) :=
    hreads.toLowercase_brace _ (mem_trim_brace hmem)
  unfold parseValue at h
  dsimp only at h
  generalize foreign.toLowercase (trim input) = text at h hlower
  split at h
  · rename_i value hvalue
    exact hreads.parseU256_brace text value hvalue hlower
  · split at h
    · cases h
    · rename_i split hsplit
      -- the brace is no part of the number, so it belongs to the unit
      obtain ⟨hlen, hfound, hbefore⟩ := List.findIdx?_eq_some_iff_getElem.mp hsplit
      have hnumber : '{' ∉ text.take split := by
        intro hin
        obtain ⟨i, hi, hget⟩ := List.mem_iff_getElem.mp hin
        rw [List.getElem_take] at hget
        have hlt : i < split := by
          rw [List.length_take] at hi
          omega
        have := hbefore i hlt
        rw [hget, hreads.isNumeric_brace] at this
        exact this (by decide)
      have hunit : '{' ∈ text.drop split := by
        rw [← List.take_append_drop split text] at hlower
        exact (List.mem_append.mp hlower).resolve_left hnumber
      split at h
      · rename_i value hvalue
        exact hreads.parseUnits_brace _ _ value hvalue (mem_trim_brace hunit)
      · cases h

/-- A plain number is an amount. -/
theorem parseValue_of_parseU256 {input : Text} {v : U256} (h : foreign.parseU256 input = some v) :
    foreign.parseValue input = .ok v := by
  simp only [parseValue, hreads.parseU256_trimmed input v h]

end ReadsAmounts

end Foreign

namespace Generator

variable {g : Generator}

/-! ### From the definition to the request -/

/-- `make_strict_call` and then `template_function_call`. -/
def templatedCall (g : Generator) (placeholderMap : AssocMap Text Text)
    (call : FunctionCallDefinition) (idx : Nat) : Except GeneratorError TransactionRequest := do
  let strict ← g.makeStrictCall call idx
  g.foreign.templateFunctionCall placeholderMap strict

/-- The request has the amount that the text stands for, once its placeholders are
filled in. -/
def KeepsValue (g : Generator) (placeholderMap : AssocMap Text Text) (value : Text)
    (tx : TransactionRequest) : Prop :=
  ∃ v, tx.value = some v ∧
    g.foreign.parseValue (replacePlaceholders placeholderMap value) = .ok v

theorem strictValue_of_amount {value : Text} {v : U256} (h : g.foreign.parseValue value = .ok v) :
    g.strictValue value = .ok (Nat.decimal v.toNat) := by
  rw [strictValue, h]

/-- A text that is no amount stays as it is, or is an error. -/
theorem strictValue_of_noAmount {value text : Text} {e : GeneratorError}
    (hnone : g.foreign.parseValue value = .error e) (h : g.strictValue value = .ok text) :
    text = value := by
  rw [strictValue, hnone] at h
  dsimp only at h
  split_ifs at h <;> exact (Except.ok.inj h).symm

/-- The value of the request, when there is one to be read. -/
theorem value_of_templatedCall {placeholderMap : AssocMap Text Text}
    {call : FunctionCallDefinition} {idx : Nat} {value : Text} {tx : TransactionRequest}
    (hvalue : call.value = some value) (h : g.templatedCall placeholderMap call idx = .ok tx) :
    ∃ text, g.strictValue value = .ok text ∧
      tx.value = g.foreign.parseU256 (replacePlaceholders placeholderMap text) := by
  simp only [templatedCall, Except.bind_eq_ok_iff] at h
  obtain ⟨strict, hstrict, htx⟩ := h
  obtain ⟨-, -, hstrictValue, -⟩ := makeStrictCall_ok hstrict
  obtain ⟨-, -, htxValue, -⟩ := Foreign.templateFunctionCall_ok htx
  rw [hvalue] at hstrictValue
  obtain ⟨text, htext, hsome⟩ := Except.map_eq_ok_iff.mp hstrictValue
  refine ⟨text, htext, ?_⟩
  rw [htxValue, ← hsome]
  rfl

/-- **Values of calls.** When the path returns a request, the request has the amount that
the value stands for exactly when the value is an amount as it is given, or is a plain
number once its placeholders are filled in. -/
theorem keepsValue_iff (hreads : g.foreign.ReadsAmounts) {placeholderMap : AssocMap Text Text}
    {call : FunctionCallDefinition} {idx : Nat} {value : Text} {tx : TransactionRequest}
    (hvalue : call.value = some value) (h : g.templatedCall placeholderMap call idx = .ok tx) :
    g.KeepsValue placeholderMap value tx ↔
      (∃ v, g.foreign.parseValue value = .ok v) ∨
        ∃ v, g.foreign.parseU256 (replacePlaceholders placeholderMap value) = some v := by
  obtain ⟨text, htext, htxValue⟩ := value_of_templatedCall hvalue h
  cases hamount : g.foreign.parseValue value with
  | ok v =>
    have hplain := replacePlaceholders_of_notMem (hreads.notMem_of_parseValue hamount)
      placeholderMap
    have hdecimal : '{' ∉ Nat.decimal v.toNat := Nat.notMem_decimal (by decide) _
    obtain rfl : Nat.decimal v.toNat = text :=
      Except.ok.inj ((strictValue_of_amount hamount).symm.trans htext)
    refine iff_of_true ⟨v, ?_, ?_⟩ (.inl ⟨v, rfl⟩)
    · rw [htxValue, replacePlaceholders_of_notMem hdecimal, hreads.parseU256_decimal]
    · rw [hplain, hamount]
  | error e =>
    obtain rfl := strictValue_of_noAmount hamount htext
    constructor
    · rintro ⟨v, hv, -⟩
      exact .inr ⟨v, htxValue ▸ hv⟩
    · rintro (⟨v, hv⟩ | ⟨v, hv⟩)
      · cases hv
      · exact ⟨v, htxValue.trans hv, hreads.parseValue_of_parseU256 hv⟩

/-! ### One ether -/

namespace OneEther

/-- The libraries, for plain transfers: numbers are decimal, and a number of ether is a
plain number. -/
def foreign : Foreign :=
  { SharedName.foreign with
    parseUnits := fun num unit =>
      if unit = "eth".toList then
        ((SharedName.parseDecimal num).map (10 ^ 18 * ·)).elim (.error []) .ok
      else .error "unknown unit".toList }

theorem allDigits_of_parseDecimal {text : Text} {v : U256}
    (h : SharedName.parseDecimal text = some v) : ∀ c ∈ text, c.isDigit := by
  unfold SharedName.parseDecimal at h
  split_ifs at h with hvalid
  exact List.all_eq_true.mp hvalid.2.1

theorem readsAmounts : foreign.ReadsAmounts where
  toReadsDecimals := ⟨SharedName.readsDecimals.parseU256_decimal,
    SharedName.readsDecimals.toLowercase_decimal⟩
  parseU256_brace input v h hmem := absurd (allDigits_of_parseDecimal h '{' hmem) (by decide)
  parseUnits_brace num unit v h := by
    change (if unit = "eth".toList then _ else _) = Except.ok v at h
    split_ifs at h with hunit
    rw [hunit]
    decide
  parseU256_trimmed input v h := by
    have hdigits := allDigits_of_parseDecimal h
    have htrim : trim input = input :=
      trim_eq_self fun c hc => isWhiteSpace_of_isDigit (hdigits c hc)
    have hlower : foreign.toLowercase input = input := by
      change input.map Char.toLower = input
      calc input.map Char.toLower
          = input.map id :=
            List.map_congr_left fun c hc => SharedName.toLower_of_isDigit (hdigits c hc)
        _ = input := List.map_id input
    rw [htrim, hlower]
    exact h
  toLowercase_brace input hmem := List.mem_map.mpr ⟨'{', hmem, by decide⟩
  isNumeric_brace := by decide

/-- A transfer of an amount. -/
def transfer (value : Text) : FunctionCallDefinition where
  toAddr := SharedName.sender
  fromAddr := some SharedName.sender
  value := some value

def generator : Generator := { SharedName.plan [] with foreign := foreign }

/-- The environment sets the amount. -/
def env : AssocMap Text Text := AList.insert "amount".toList "1 eth".toList ∅

/-- The request of a transfer. -/
def request (value : Option U256) : TransactionRequest where
  fromAddr := some 0xdead
  toKind := some (.call 0xdead)
  input := some []
  value := value

/-- A placeholder that stands for one ether leaves the request without a value. -/
theorem not_keepsValue_placeholder :
    generator.templatedCall env (transfer "{amount}".toList) 0 = .ok (request none) ∧
      generator.foreign.parseValue (replacePlaceholders env "{amount}".toList) = .ok (10 ^ 18) ∧
      ¬generator.KeepsValue env "{amount}".toList (request none) := by
  refine ⟨by decide +kernel, by decide +kernel, ?_⟩
  rintro ⟨v, hv, -⟩
  cases hv

/-- One ether as it is given is kept. -/
theorem keepsValue_given :
    generator.templatedCall env (transfer "1 eth".toList) 0 = .ok (request (some (10 ^ 18))) ∧
      generator.KeepsValue env "1 eth".toList (request (some (10 ^ 18))) := by
  have hpath : generator.templatedCall env (transfer "1 eth".toList) 0 =
      .ok (request (some (10 ^ 18))) := by
    decide +kernel
  have hreads : generator.foreign.ReadsAmounts := readsAmounts
  exact ⟨hpath, (keepsValue_iff hreads rfl hpath).mpr (.inl ⟨10 ^ 18, by decide +kernel⟩)⟩

end OneEther

end Generator

end Contender
