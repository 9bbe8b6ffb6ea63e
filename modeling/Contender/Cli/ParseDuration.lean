import Contender.Data.Trimming
import Contender.Primitives

/-!
# Durations on the command line

A duration is a number with an optional unit. The scanner keeps the digits and the unit in two
buffers. A number that does not fit 64 bits is an error; its product with the unit is a checked
multiplication.

## Main results

* `parseDuration_iff` — the text is read exactly when the product with the unit, where there is
  one, is a duration
-/

namespace Contender

/-- A span of time, as `std::time::Duration` stores it. -/
structure Duration where
  secs : ℕ
  nanos : ℕ
  secs_lt : secs < 2 ^ 64
  nanos_lt : nanos < 10 ^ 9
  deriving DecidableEq, Repr

namespace Duration

def asNanos (d : Duration) : ℕ := d.secs * 10 ^ 9 + d.nanos

theorem asNanos_injective {d e : Duration} (h : d.asNanos = e.asNanos) : d = e := by
  obtain ⟨s, n, hs, hn⟩ := d
  obtain ⟨s', n', hs', hn'⟩ := e
  simp only [asNanos] at h
  obtain rfl : s = s' := by omega
  obtain rfl : n = n' := by omega
  rfl

def fromSecs (secs : UInt64) : Duration := ⟨secs.toNat, 0, secs.toNat_lt, by decide⟩

def fromMillis (millis : UInt64) : Duration :=
  ⟨millis.toNat / 1000, millis.toNat % 1000 * 10 ^ 6,
    (Nat.div_le_self _ _).trans_lt millis.toNat_lt, by omega⟩

/-- `Duration::from_secs(value * factor)` under overflow checks. -/
def fromSecsTimes (value : UInt64) (factor : ℕ) : Option Duration :=
  if h : value.toNat * factor < 2 ^ 64 then some ⟨value.toNat * factor, 0, h, by decide⟩ else none

end Duration

inductive ParseDurationError
  | unexpectedDigit (input : Text)
  | noFloats (input : Text)
  | invalidNumber (num : Text)
  | invalidUnits (unit : Text)
  deriving DecidableEq, Repr

inductive DurationUnit
  | millis
  | secs
  | mins
  | hours
  | days
  deriving DecidableEq, Repr

namespace DurationUnit

/-- The supported spellings of a unit. -/
def spellings : DurationUnit → List Text
  | .millis => ["ms", "msec", "msecs", "millisecond", "milliseconds"].map String.toList
  | .secs => ["s", "sec", "secs", "second", "seconds"].map String.toList
  | .mins => ["m", "min", "mins", "minute", "minutes"].map String.toList
  | .hours => ["h", "hr", "hrs", "hour", "hours"].map String.toList
  | .days => ["d", "day", "days"].map String.toList

/-- The duration of `value` units; `none` is an overflow. -/
def times : DurationUnit → UInt64 → Option Duration
  | .millis, value => some (.fromMillis value)
  | .secs, value => some (.fromSecs value)
  | .mins, value => Duration.fromSecsTimes value 60
  | .hours, value => Duration.fromSecsTimes value 3600
  | .days, value => Duration.fromSecsTimes value 86400

/-- The unit that a trimmed text spells. Without a unit the number counts seconds. -/
def ofText (unit : Text) : Option DurationUnit :=
  if unit = [] then some .secs
  else if millis.spellings.contains unit then some .millis
  else if secs.spellings.contains unit then some .secs
  else if mins.spellings.contains unit then some .mins
  else if hours.spellings.contains unit then some .hours
  else if days.spellings.contains unit then some .days
  else none

end DurationUnit

/-- The loop over the characters, with the buffers of the digits and of the unit. -/
def scanDuration (input : Text) : Text → Text → Text → Except ParseDurationError (Text × Text)
  | num, unit, [] => .ok (num, unit)
  | num, unit, c :: rest =>
    -- whitespace is skipped before the first digit only
    if num = [] ∧ c.isWhiteSpace then scanDuration input num unit rest
    else if c.isDigit then
      if unit = [] then scanDuration input (num ++ [c]) unit rest
      else .error (.unexpectedDigit input)
    else if c = '.' then .error (.noFloats input)
    else scanDuration input num (unit ++ [c]) rest

/-- `str::parse::<u64>` of a text of digits. -/
def parseU64 (digits : Text) : Option UInt64 :=
  if digits = [] then none
  else if h : Nat.ofDigitChars 10 digits 0 < 2 ^ 64 then some (.ofNatLT _ h) else none

variable (toLowercase : Text → Text)

/-- `parse_duration`; `none` is a panic. -/
def parseDuration (input : Text) : Option (Except ParseDurationError Duration) :=
  match scanDuration input [] [] (toLowercase (trim input)) with
  | .error e => some (.error e)
  | .ok (num, unit) =>
    match parseU64 num with
    | none => some (.error (.invalidNumber num))
    | some value =>
      match DurationUnit.ofText (trim unit) with
      | none => some (.error (.invalidUnits (trim unit)))
      | some unit => (unit.times value).map .ok

/-! ### What the parser is for -/

/-- The nanoseconds of a unit. -/
def DurationUnit.asNanos : DurationUnit → ℕ
  | .millis => 10 ^ 6
  | .secs => 10 ^ 9
  | .mins => 60 * 10 ^ 9
  | .hours => 3600 * 10 ^ 9
  | .days => 86400 * 10 ^ 9

/-- The grammar of durations: digits, whitespace and a unit, which may be left out. -/
structure DurationText (text : Text) (n : ℕ) (unit : DurationUnit) : Prop where
  reads : ∃ digits space name, text = digits ++ space ++ name ∧ digits ≠ [] ∧
    (∀ c ∈ digits, c.isDigit) ∧ (∀ c ∈ space, c.isWhiteSpace) ∧
    Nat.ofDigitChars 10 digits 0 = n ∧ (name = [] ∧ unit = .secs ∨ name ∈ unit.spellings)

/-- The result is the duration that a text stands for, and an error where it stands for none. -/
structure ReadsDuration (text : Text) (result : Option (Except ParseDurationError Duration)) :
    Prop where
  ok : ∀ d, result = some (.ok d) ↔
    ∃ n unit, DurationText text n unit ∧ n < 2 ^ 64 ∧ d.asNanos = n * unit.asNanos
  err : (¬ ∃ n unit d, DurationText text n unit ∧ n < 2 ^ 64 ∧
    Duration.asNanos d = n * unit.asNanos) → ∃ e, result = some (.error e)

/-! ### Durations and units -/

namespace Duration

theorem asNanos_fromMillis (millis : UInt64) :
    (fromMillis millis).asNanos = millis.toNat * 10 ^ 6 := by
  simp only [asNanos, fromMillis]
  omega

theorem asNanos_fromSecs (secs : UInt64) : (fromSecs secs).asNanos = secs.toNat * 10 ^ 9 := by
  simp only [asNanos, fromSecs, Nat.add_zero]

/-- A checked product with the factor of a unit is the only duration of so many units. -/
theorem fromSecsTimes_eq_some {value : UInt64} {factor : ℕ} {d : Duration} :
    fromSecsTimes value factor = some d ↔ d.asNanos = value.toNat * (factor * 10 ^ 9) := by
  rw [← Nat.mul_assoc]
  unfold fromSecsTimes
  split_ifs with h
  · rw [Option.some.injEq]
    constructor
    · rintro rfl
      simp only [asNanos, Nat.add_zero]
    · intro hd
      refine asNanos_injective ?_
      simp only [asNanos, Nat.add_zero] at hd ⊢
      exact hd.symm
  · refine iff_of_false nofun fun hd => h ?_
    have hsecs := d.secs_lt
    have hnanos := d.nanos_lt
    simp only [asNanos] at hd
    omega

end Duration

namespace DurationUnit

theorem times_eq_some {unit : DurationUnit} {value : UInt64} {d : Duration} :
    unit.times value = some d ↔ d.asNanos = value.toNat * unit.asNanos := by
  cases unit with
  | millis =>
    rw [times, Option.some.injEq, asNanos, ← Duration.asNanos_fromMillis]
    exact ⟨fun h => h ▸ rfl, fun h => (Duration.asNanos_injective h).symm⟩
  | secs =>
    rw [times, Option.some.injEq, asNanos, ← Duration.asNanos_fromSecs]
    exact ⟨fun h => h ▸ rfl, fun h => (Duration.asNanos_injective h).symm⟩
  | mins => exact Duration.fromSecsTimes_eq_some
  | hours => exact Duration.fromSecsTimes_eq_some
  | days => exact Duration.fromSecsTimes_eq_some

/-- The characters of a unit are no digits, no dots and no whitespace. -/
def IsUnitChar (c : Char) : Prop := c.isDigit = false ∧ c ≠ '.' ∧ c.isWhiteSpace = false

instance (c : Char) : Decidable (IsUnitChar c) := inferInstanceAs (Decidable (_ ∧ _))

theorem isUnitChar_of_mem_spellings (unit : DurationUnit) :
    ∀ name ∈ unit.spellings, ∀ c ∈ name, IsUnitChar c := by
  have hall : (unit.spellings.all fun name => name.all fun c => decide (IsUnitChar c)) = true := by
    cases unit <;> decide +kernel
  intro name hname c hc
  exact of_decide_eq_true (List.all_eq_true.mp (List.all_eq_true.mp hall name hname) c hc)

theorem ofText_of_mem_spellings (unit : DurationUnit) :
    ∀ name ∈ unit.spellings, ofText name = some unit := by
  cases unit <;> decide +kernel

/-- The units of the grammar are those that the parser knows. -/
theorem ofText_eq_some {name : Text} {unit : DurationUnit} :
    ofText name = some unit ↔ name = [] ∧ unit = .secs ∨ name ∈ unit.spellings := by
  constructor
  · intro h
    unfold ofText at h
    split_ifs at h with hnil
    · exact .inl ⟨hnil, (Option.some.inj h).symm⟩
    all_goals
      obtain rfl := Option.some.inj h
      exact .inr (List.contains_iff_mem.mp ‹_›)
  · rintro (⟨rfl, rfl⟩ | h)
    · rfl
    · exact ofText_of_mem_spellings unit name h

theorem isUnitChar_of_ofText {name : Text} {unit : DurationUnit} (h : ofText name = some unit) :
    ∀ c ∈ name, IsUnitChar c := by
  rcases ofText_eq_some.mp h with ⟨rfl, -⟩ | h
  · nofun
  · exact isUnitChar_of_mem_spellings unit name h

end DurationUnit

theorem parseU64_eq_some {digits : Text} {value : UInt64} :
    parseU64 digits = some value ↔
      digits ≠ [] ∧ Nat.ofDigitChars 10 digits 0 = value.toNat := by
  unfold parseU64
  split_ifs with hnil hfits
  · exact iff_of_false nofun fun h => h.1 hnil
  · rw [Option.some.injEq]
    constructor
    · rintro rfl
      exact ⟨hnil, UInt64.toNat_ofNatLT.symm⟩
    · rintro ⟨-, h⟩
      exact UInt64.toNat_inj.mp (UInt64.toNat_ofNatLT.trans h)
  · refine iff_of_false nofun fun h => hfits ?_
    rw [h.2]
    exact value.toNat_lt

/-! ### The scanner -/

variable {input num unit rest num' unit' : Text}

/-- What the scanner has read when it comes to the end: skipped whitespace, digits, and
characters of the unit. Once a unit has begun there are no digits any more. -/
theorem scanDuration_eq_ok (h : scanDuration input num unit rest = .ok (num', unit')) :
    ∃ lead digits tail, rest = lead ++ digits ++ tail ∧ (∀ c ∈ lead, c.isWhiteSpace) ∧
      (num ≠ [] → lead = []) ∧ (∀ c ∈ digits, c.isDigit) ∧ (unit ≠ [] → digits = []) ∧
      num' = num ++ digits ∧
      (num' ≠ [] → unit' = unit ++ tail ∧ ∀ c ∈ tail, c.isDigit = false ∧ c ≠ '.') := by
  induction rest generalizing num unit with
  | nil =>
    obtain ⟨rfl, rfl⟩ := Prod.mk.inj (Except.ok.inj h)
    exact ⟨[], [], [], rfl, nofun, fun _ => rfl, nofun, fun _ => rfl, by simp,
      fun _ => ⟨by simp, nofun⟩⟩
  | cons c rest ih =>
    unfold scanDuration at h
    split_ifs at h with hspace hdigit hunit hdot
    · -- the character is skipped
      obtain ⟨lead, digits, tail, rfl, hlead, -, hdigits, hbegun, hnum, hunit⟩ := ih h
      refine ⟨c :: lead, digits, tail, rfl, ?_, fun hne => (hne hspace.1).elim, hdigits, hbegun,
        hnum, hunit⟩
      exact List.forall_mem_cons.mpr ⟨hspace.2, hlead⟩
    · -- the first digit ends the skipping
      obtain ⟨lead, digits, tail, rfl, -, hlead, hdigits, -, hnum, hrest⟩ := ih h
      obtain rfl := hlead (by simp)
      refine ⟨[], c :: digits, tail, rfl, nofun, fun _ => rfl, ?_, fun hne => (hne hunit).elim,
        by rw [hnum, List.append_assoc]; rfl, hrest⟩
      exact List.forall_mem_cons.mpr ⟨hdigit, hdigits⟩
    · -- the unit has begun, and no digit may follow
      obtain ⟨lead, digits, tail, rfl, -, hlead, -, hbegun, hnum, hrest⟩ := ih h
      obtain rfl := hbegun (by simp)
      rw [List.append_nil] at hnum
      subst hnum
      refine ⟨[], [], c :: (lead ++ [] ++ tail), rfl, nofun, fun _ => rfl, nofun, fun _ => rfl,
        (List.append_nil _).symm, fun hne => ?_⟩
      obtain ⟨rfl, htail⟩ := hrest hne
      obtain rfl := hlead hne
      refine ⟨by simp, List.forall_mem_cons.mpr ⟨⟨by simpa using hdigit, hdot⟩, htail⟩⟩

theorem scanDuration_whitespace {lead : Text} (hlead : ∀ c ∈ lead, c.isWhiteSpace) :
    scanDuration input [] unit (lead ++ rest) = scanDuration input [] unit rest := by
  induction lead with
  | nil => rfl
  | cons c lead ih =>
    obtain ⟨hc, hlead⟩ := List.forall_mem_cons.mp hlead
    rw [List.cons_append, scanDuration, if_pos ⟨rfl, hc⟩]
    exact ih hlead

theorem scanDuration_digits {digits : Text} (hdigits : ∀ c ∈ digits, c.isDigit) :
    scanDuration input num [] (digits ++ rest) =
      scanDuration input (num ++ digits) [] rest := by
  induction digits generalizing num with
  | nil => rw [List.nil_append, List.append_nil]
  | cons c digits ih =>
    obtain ⟨hc, hdigits⟩ := List.forall_mem_cons.mp hdigits
    have hspace : ¬(num = [] ∧ c.isWhiteSpace) := by
      rw [isWhiteSpace_of_isDigit hc]
      exact fun h => Bool.false_ne_true h.2
    rw [List.cons_append, scanDuration, if_neg hspace, if_pos hc, if_pos rfl, ih hdigits,
      List.append_assoc]
    rfl

theorem scanDuration_tail (hnum : num ≠ [])
    (hrest : ∀ c ∈ rest, c.isDigit = false ∧ c ≠ '.') :
    scanDuration input num unit rest = .ok (num, unit ++ rest) := by
  induction rest generalizing unit with
  | nil => rw [List.append_nil, scanDuration]
  | cons c rest ih =>
    obtain ⟨hc, hrest⟩ := List.forall_mem_cons.mp hrest
    rw [scanDuration, if_neg fun h => hnum h.1, if_neg (by rw [hc.1]; decide), if_neg hc.2,
      ih hrest, List.append_assoc]
    rfl

theorem ne_digit_of_isWhiteSpace {c : Char} (h : c.isWhiteSpace) :
    c.isDigit = false ∧ c ≠ '.' := by
  constructor
  · by_contra hdigit
    rw [isWhiteSpace_of_isDigit (by simpa using hdigit)] at h
    cases h
  · rintro rfl
    exact absurd h (by decide)

/-- The scanner finds a number and a known unit exactly in the durations of the grammar. -/
theorem durationText_trim_iff {text : Text} {value : UInt64} {unit : DurationUnit}
    (input : Text) : DurationText (trim text) value.toNat unit ↔
      ∃ num name, scanDuration input [] [] text = .ok (num, name) ∧ parseU64 num = some value ∧
        DurationUnit.ofText (trim name) = some unit := by
  constructor
  · rintro ⟨digits, space, name, htext, hne, hdigits, hspace, hvalue, hname⟩
    have hunit := DurationUnit.ofText_eq_some.mpr hname
    have hchars := DurationUnit.isUnitChar_of_ofText hunit
    obtain ⟨lead, trail, hpad, hlead, htrail⟩ :=
      List.exists_trimBoth_padding Char.isWhiteSpace text
    have hsplit : text = lead ++ (digits ++ (space ++ name ++ trail)) := by
      calc text = lead ++ trim text ++ trail := hpad
        _ = lead ++ (digits ++ (space ++ name ++ trail)) := by
          rw [htext]
          simp only [List.append_assoc]
    -- what follows the digits all goes to the buffer of the unit
    have htail : ∀ c ∈ space ++ name ++ trail, c.isDigit = false ∧ c ≠ '.' := by
      intro c hc
      rcases List.mem_append.mp hc with hc | hc
      · rcases List.mem_append.mp hc with hc | hc
        · exact ne_digit_of_isWhiteSpace (hspace c hc)
        · exact ⟨(hchars c hc).1, (hchars c hc).2.1⟩
      · exact ne_digit_of_isWhiteSpace (htrail c hc)
    have htrim : trim (space ++ name ++ trail) = name :=
      List.trimBoth_append_append (List.trimmed_of_forall fun c hc => (hchars c hc).2.2)
        hspace htrail
    refine ⟨digits, space ++ name ++ trail, ?_, parseU64_eq_some.mpr ⟨hne, hvalue⟩,
      by rw [htrim, hunit]⟩
    rw [hsplit, scanDuration_whitespace hlead, scanDuration_digits hdigits,
      scanDuration_tail (by simpa using hne) htail]
    rfl
  · rintro ⟨digits, tail, hscan, hnum, hunit⟩
    obtain ⟨hne, hvalue⟩ := parseU64_eq_some.mp hnum
    obtain ⟨lead, _, _, rfl, hlead, -, hdigits, -, rfl, htail⟩ :=
      scanDuration_eq_ok hscan
    obtain ⟨rfl, -⟩ := htail hne
    have hdigitsTrimmed : List.Trimmed Char.isWhiteSpace digits :=
      List.trimmed_of_forall fun c hc => isWhiteSpace_of_isDigit (hdigits c hc)
    have hchars := DurationUnit.isUnitChar_of_ofText hunit
    obtain ⟨space, trail, hpad, hspace, htrail⟩ :=
      List.exists_trimBoth_padding Char.isWhiteSpace tail
    -- without a unit the whitespace behind the digits is trimmed with the rest
    by_cases hnil : trim tail = []
    · have hspaces : ∀ c ∈ tail, c.isWhiteSpace := List.trimBoth_eq_nil_iff.mp hnil
      have htrim : trim (lead ++ digits ++ tail) = digits :=
        List.trimBoth_append_append hdigitsTrimmed hlead hspaces
      rw [hnil] at hunit
      exact ⟨digits, [], [], by rw [htrim]; simp, hne, hdigits, nofun, hvalue,
        DurationUnit.ofText_eq_some.mp hunit⟩
    · have htrim : trim (lead ++ digits ++ tail) = digits ++ space ++ trim tail := by
        have hname : List.Trimmed Char.isWhiteSpace (trim tail) :=
          List.trimmed_of_forall fun c hc => (hchars c hc).2.2
        have hsplit : lead ++ digits ++ tail =
            lead ++ (digits ++ space ++ trim tail) ++ trail := by
          calc lead ++ digits ++ tail = lead ++ digits ++ (space ++ trim tail ++ trail) :=
                congrArg _ hpad
            _ = lead ++ (digits ++ space ++ trim tail) ++ trail := by
              simp only [List.append_assoc]
        rw [hsplit]
        exact List.trimBoth_append_append (hdigitsTrimmed.append hname hne hnil) hlead htrail
      exact ⟨digits, space, trim tail, htrim, hne, hdigits, hspace, hvalue,
        DurationUnit.ofText_eq_some.mp hunit⟩

/-! ### The whole parser -/

variable {toLowercase : Text → Text}

/-- What the parser answers: an error, or the product of a number with a unit. -/
theorem parseDuration_cases (toLowercase : Text → Text) (input : Text) :
    ((∃ e, parseDuration toLowercase input = some (.error e)) ∧
        ¬ ∃ n unit, DurationText (trim (toLowercase (trim input))) n unit ∧ n < 2 ^ 64) ∨
      ∃ value unit, DurationText (trim (toLowercase (trim input))) (UInt64.toNat value) unit ∧
        parseDuration toLowercase input = (unit.times value).map .ok := by
  by_cases hread : ∃ n unit, DurationText (trim (toLowercase (trim input))) n unit ∧ n < 2 ^ 64
  · obtain ⟨n, unit, htext, hn⟩ := hread
    have hvalue : (UInt64.ofNatLT n hn).toNat = n := UInt64.toNat_ofNatLT
    rw [← hvalue] at htext
    obtain ⟨num, name, hscan, hnum, hunit⟩ := (durationText_trim_iff input).mp htext
    refine .inr ⟨_, unit, htext, ?_⟩
    simp only [parseDuration, hscan, hnum, hunit]
  · refine .inl ⟨?_, hread⟩
    unfold parseDuration
    cases hscan : scanDuration input [] [] (toLowercase (trim input)) with
    | error e => exact ⟨e, rfl⟩
    | ok buffers =>
      obtain ⟨num, name⟩ := buffers
      cases hnum : parseU64 num with
      | none => exact ⟨.invalidNumber num, by simp only [hnum]⟩
      | some value =>
        cases hunit : DurationUnit.ofText (trim name) with
        | none => exact ⟨.invalidUnits (trim name), by simp only [hnum, hunit]⟩
        | some unit =>
          have htext := (durationText_trim_iff input).mpr ⟨num, name, hscan, hnum, hunit⟩
          exact (hread ⟨_, unit, htext, value.toNat_lt⟩).elim

/-- A text has one reading at most. -/
theorem DurationText.unique {text : Text} {n m : ℕ} {unit unit' : DurationUnit}
    (h : DurationText (trim text) n unit) (h' : DurationText (trim text) m unit')
    (hn : n < 2 ^ 64) (hm : m < 2 ^ 64) : n = m ∧ unit = unit' := by
  have hvalue : (UInt64.ofNatLT n hn).toNat = n := UInt64.toNat_ofNatLT
  have hvalue' : (UInt64.ofNatLT m hm).toNat = m := UInt64.toNat_ofNatLT
  rw [← hvalue] at h
  rw [← hvalue'] at h'
  obtain ⟨num, name, hscan, hnum, hunit⟩ := (durationText_trim_iff []).mp h
  obtain ⟨num', name', hscan', hnum', hunit'⟩ := (durationText_trim_iff []).mp h'
  obtain ⟨rfl, rfl⟩ := Prod.mk.inj (Except.ok.inj (hscan.symm.trans hscan'))
  have hsame := Option.some.inj (hnum.symm.trans hnum')
  refine ⟨?_, Option.some.inj (hunit.symm.trans hunit')⟩
  rw [← hvalue, ← hvalue', hsame]

/-- The text is read exactly when, should it be a number below 2⁶⁴ with a unit, their product is
a duration. -/
theorem parseDuration_iff (toLowercase : Text → Text) (input : Text) :
    ReadsDuration (trim (toLowercase (trim input))) (parseDuration toLowercase input) ↔
      ∀ n unit, DurationText (trim (toLowercase (trim input))) n unit → n < 2 ^ 64 →
        ∃ d : Duration, d.asNanos = n * unit.asNanos := by
  rcases parseDuration_cases toLowercase input with ⟨⟨e, he⟩, hnone⟩ | ⟨value, unit, htext, hrun⟩
  · refine iff_of_true ⟨fun d => ?_, fun _ => ⟨e, he⟩⟩ fun n unit htext hn =>
      (hnone ⟨n, unit, htext, hn⟩).elim
    rw [he]
    exact iff_of_false nofun fun ⟨n, unit, htext, hn, _⟩ => hnone ⟨n, unit, htext, hn⟩
  · constructor
    · intro h n unit' htext' hn
      obtain ⟨rfl, rfl⟩ := htext.unique htext' value.toNat_lt hn
      -- the product overflows, where an error is promised
      by_contra hlarge
      have htimes : unit.times value = none := by
        by_contra hsome
        obtain ⟨d, hd⟩ := Option.ne_none_iff_exists'.mp hsome
        exact hlarge ⟨d, DurationUnit.times_eq_some.mp hd⟩
      obtain ⟨e, he⟩ := h.err fun ⟨m, unit', d, htext', hm, hd⟩ => by
        obtain ⟨rfl, rfl⟩ := htext.unique htext' value.toNat_lt hm
        exact hlarge ⟨d, hd⟩
      rw [hrun, htimes] at he
      cases he
    · intro h
      obtain ⟨d, hd⟩ := h _ unit htext value.toNat_lt
      have hresult : parseDuration toLowercase input = some (.ok d) := by
        rw [hrun, DurationUnit.times_eq_some.mpr hd]
        rfl
      rw [hresult]
      refine ⟨fun d' => ?_, fun hnone =>
        (hnone ⟨_, unit, d, htext, value.toNat_lt, hd⟩).elim⟩
      constructor
      · intro heq
        obtain rfl := Except.ok.inj (Option.some.inj heq)
        exact ⟨_, unit, htext, value.toNat_lt, hd⟩
      · rintro ⟨n, unit', htext', hn, hd'⟩
        obtain ⟨rfl, rfl⟩ := htext.unique htext' value.toNat_lt hn
        rw [Duration.asNanos_injective (hd.trans hd'.symm)]

/-- 400 quadrillion days overflow the seconds of a duration. -/
theorem parseDuration_counterexample :
    ¬ ReadsDuration
      (trim ((trim "400000000000000000d".toList).map Char.toLower))
      (parseDuration (List.map Char.toLower) "400000000000000000d".toList) := by
  have hpanic : parseDuration (List.map Char.toLower) "400000000000000000d".toList = none := by
    decide +kernel
  rw [hpanic]
  intro h
  obtain ⟨e, he⟩ := h.err fun ⟨n, unit, d, htext, hn, hd⟩ => by
    cases (h.ok d).mpr ⟨n, unit, htext, hn, hd⟩
  cases he

end Contender
