import Mathlib.Algebra.Group.Nat.Defs
import Mathlib.Data.List.Forall2
import Mathlib.Data.List.TakeWhile
import Contender.Data.Text

/-!
# Literals in SQL text

A row may be inserted by a statement whose values are spelled out in its text: numbers in
decimal, `NULL`, and strings between quotes, where a quote inside a string is doubled. The
statement is read up to its first NUL character.

A text put between quotes as it is need not come back. It does exactly when it has no
quote in it: otherwise the literal ends at another place, or loses a quote.

## Main results

* `reads_quoted`, `reads_decimal`, `reads_null` — what the spellings of values read as
* `honest_quoted` — a quoted text only reads as itself when it can be quoted safely
* `values_tuple_iff` — a list of spelled values reads as these values exactly when each of
  them does
-/

namespace Sql

/-- A value of a column. A number that does not fit 64 bits is a floating point number. -/
inductive Value
  | null
  | integer (n : Nat)
  | real (n : Nat)
  | text (t : List Char)
  deriving DecidableEq, Repr

/-- A value that an `INTEGER` column keeps as it is. -/
def Value.isNumber : Value → Bool
  | .text _ => false
  | _ => true

/-- A value that a `TEXT` column keeps as it is. -/
def Value.isText : Value → Bool
  | .null | .text _ => true
  | _ => false

@[simp] theorem Value.isNumber_integer (n : Nat) : (Value.integer n).isNumber := rfl

@[simp] theorem Value.isText_text (t : List Char) : (Value.text t).isText := rfl

abbrev quote : Char := '\x27'

/-- What a statement is read from: the text before its first NUL character. -/
def readable (text : List Char) : List Char := text.takeWhile (· ≠ '\x00')

def skipSpace (text : List Char) : List Char := text.dropWhile Char.isAsciiWhitespace

/-- A string literal, read after its opening quote, and the text after it. -/
def stringBody : List Char → Option (List Char × List Char)
  | [] => none
  | c :: rest =>
    if c = quote then
      match rest with
      | d :: more =>
        if d = quote then (stringBody more).map fun p => (quote :: p.1, p.2)
        else some ([], d :: more)
      | [] => some ([], [])
    else (stringBody rest).map fun p => (c :: p.1, p.2)

/-- The number a run of digits spells. -/
def number (digits : List Char) : Value :=
  let n := Nat.ofDigitChars 10 digits 0
  if n < 2 ^ 63 then .integer n else .real n

/-- A literal and the text after it. -/
def literal (text : List Char) : Option (Value × List Char) :=
  match skipSpace text with
  | [] => none
  | c :: rest =>
    if c = quote then (stringBody rest).map fun p => (.text p.1, p.2)
    else if c.isDigit then
      some (number ((c :: rest).takeWhile Char.isDigit), (c :: rest).dropWhile Char.isDigit)
    else if "NULL".toList <+: c :: rest then some (.null, (c :: rest).drop 4)
    else none

/-- A number of literals between commas, up to the closing parenthesis. -/
def values : Nat → List Char → Option (List Value × List Char)
  | 0, _ => none
  | n + 1, text =>
    (literal text).bind fun p =>
      match skipSpace p.2 with
      | c :: rest =>
        if c = ',' then (values n rest).map fun q => (p.1 :: q.1, q.2)
        else if c = ')' ∧ n = 0 then some ([p.1], rest)
        else none
      | [] => none

/-- The values of a statement that inserts one row. The head is the text up to the opening
parenthesis of the values. -/
def insertedValues (head : List Char) (columns : Nat) (statement : List Char) :
    Option (List Value) :=
  if head <+: readable statement then
    (values columns ((readable statement).drop head.length)).bind fun p =>
      if p.2 = [';'] then some p.1 else none
  else none

/-- The literals of a query, each after the given text. -/
def comparedValues : List (List Char) → List Char → Option (List Value)
  | [], text => if text = [] then some [] else none
  | head :: heads, text =>
    if head <+: text then
      (literal (text.drop head.length)).bind fun p =>
        (comparedValues heads p.2).map fun vs => p.1 :: vs
    else none

/-- Spelled values between commas, and the closing parenthesis. -/
def tuple : List (List Char) → List Char
  | [] => [')']
  | [field] => field ++ [')']
  | field :: next :: fields => field ++ ", ".toList ++ tuple (next :: fields)

def quoted (t : List Char) : List Char := quote :: (t ++ [quote])

/-! ## String literals -/

/-- A text with its quotes doubled. -/
def escape (t : List Char) : List Char :=
  t.flatMap fun c => if c = quote then [quote, quote] else [c]

@[simp] theorem escape_nil : escape [] = [] := rfl

theorem escape_cons (c : Char) (t : List Char) :
    escape (c :: t) = (if c = quote then [quote, quote] else [c]) ++ escape t := rfl

theorem escape_of_notMem {t : List Char} (h : quote ∉ t) : escape t = t := by
  induction t with
  | nil => rfl
  | cons c t ih =>
    have hc : c ≠ quote := fun hc => h (hc ▸ List.mem_cons_self)
    rw [escape_cons, if_neg hc, ih fun ht => h (List.mem_cons_of_mem c ht)]
    rfl

theorem stringBody_cons_of_ne {c : Char} (hc : c ≠ quote) (rest : List Char) :
    stringBody (c :: rest) = (stringBody rest).map fun p => (c :: p.1, p.2) := by
  rw [stringBody.eq_def]
  simp [hc]

theorem stringBody_escape {rest : List Char} (hrest : rest.head? ≠ some quote) (t : List Char) :
    stringBody (escape t ++ quote :: rest) = some (t, rest) := by
  induction t with
  | nil =>
    cases rest with
    | nil => rfl
    | cons d more =>
      have hd : d ≠ quote := by simpa using hrest
      simp [stringBody, hd]
  | cons c t ih =>
    by_cases hc : c = quote
    · subst hc
      simp [escape_cons, stringBody, ih]
    · simp [escape_cons, hc, stringBody_cons_of_ne, ih]

/-- What a string literal stands for, with its quotes doubled, ends at a quote that is not
doubled. -/
theorem stringBody_sound {text t rest : List Char} (h : stringBody text = some (t, rest)) :
    text = escape t ++ quote :: rest ∧ rest.head? ≠ some quote := by
  induction text using stringBody.induct generalizing t with
  | case1 => simp [stringBody] at h
  | case2 more ih =>
    -- two quotes are one quote of the text
    simp only [stringBody, if_true, Option.map_eq_some_iff, Prod.mk.injEq] at h
    obtain ⟨⟨t', rest'⟩, hbody, rfl, rfl⟩ := h
    obtain ⟨rfl, hrest⟩ := ih hbody
    exact ⟨by simp [escape_cons], hrest⟩
  | case3 d more hd =>
    -- a quote before another character closes the literal
    simp only [stringBody, if_true, if_neg hd, Option.some.injEq, Prod.mk.injEq] at h
    obtain ⟨rfl, rfl⟩ := h
    exact ⟨rfl, by simpa using hd⟩
  | case4 =>
    simp only [stringBody, if_true, Option.some.injEq, Prod.mk.injEq] at h
    obtain ⟨rfl, rfl⟩ := h
    exact ⟨rfl, by simp⟩
  | case5 c more hc ih =>
    -- any other character stands for itself
    rw [stringBody_cons_of_ne hc, Option.map_eq_some_iff] at h
    obtain ⟨⟨t', rest'⟩, hbody, hpair⟩ := h
    obtain ⟨rfl, rfl⟩ := Prod.mk.inj hpair
    obtain ⟨rfl, hrest⟩ := ih hbody
    exact ⟨by simp [escape_cons, hc], hrest⟩

/-- A string literal has to be closed. -/
theorem stringBody_of_notMem {text : List Char} (h : quote ∉ text) : stringBody text = none := by
  cases hbody : stringBody text with
  | none => rfl
  | some p =>
    obtain ⟨t, rest⟩ := p
    rw [(stringBody_sound hbody).1] at h
    exact absurd (List.mem_append_right _ List.mem_cons_self) h

/-- Quotes that a text begins with but its spelling does not are made up for by what
follows. -/
private theorem head?_eq_quote {t rest rest' : List Char} {m : Nat}
    (h : t ++ quote :: rest = List.replicate (m + 1) quote ++ (escape t ++ quote :: rest')) :
    rest.head? = some quote := by
  induction t generalizing m with
  | nil =>
    cases m with
    | zero =>
      obtain rfl : rest = quote :: rest' := by simpa [List.replicate] using h
      rfl
    | succ m =>
      have hrest : rest = List.replicate (m + 1) quote ++ quote :: rest' := by
        simpa [List.replicate] using h
      rw [hrest, List.replicate_succ]
      rfl
  | cons c t ih =>
    rw [List.replicate_succ, List.cons_append, List.cons_append, List.cons.injEq] at h
    obtain ⟨rfl, h⟩ := h
    -- the quote has a double in the spelling, which is one more at the front
    refine ih (m := m + 1) ?_
    rw [h, escape_cons, if_pos rfl, List.replicate_succ', List.replicate_succ']
    simp

/-- A quoted text is the spelling of itself only if it has no quote in it. -/
theorem notMem_of_append_eq {t rest rest' : List Char} (hrest : rest.head? ≠ some quote)
    (h : t ++ quote :: rest = escape t ++ quote :: rest') : quote ∉ t := by
  induction t with
  | nil => exact List.not_mem_nil
  | cons c t ih =>
    by_cases hc : c = quote
    -- after the first quote the spelling is ahead by one
    · subst hc
      have hnext : t ++ quote :: rest =
          List.replicate (0 + 1) quote ++ (escape t ++ quote :: rest') := by
        simpa [escape_cons] using h
      exact absurd (head?_eq_quote hnext) hrest
    · have hnext : t ++ quote :: rest = escape t ++ quote :: rest' := by
        simpa [escape_cons, hc] using h
      rw [List.mem_cons, not_or]
      exact ⟨fun heq => hc heq.symm, ih hnext⟩

/-! ## Spelled values -/

/-- The text goes on after a value. -/
def Stops (rest : List Char) : Prop := ∃ c more, rest = c :: more ∧ (c = ',' ∨ c = ')')

/-- The spelling reads as the value, whatever follows. -/
def Reads (field : List Char) (v : Value) : Prop :=
  ∀ rest, Stops rest → literal (field ++ rest) = some (v, rest)

/-- The spelling reads as the value always or never. -/
def Honest (field : List Char) (v : Value) : Prop :=
  ∀ rest rest', Stops rest → literal (field ++ rest) = some (v, rest') → Reads field v

theorem Reads.honest {field : List Char} {v : Value} (h : Reads field v) : Honest field v :=
  fun _ _ _ _ => h

theorem skipSpace_cons {c : Char} (hc : c.isAsciiWhitespace = false) (rest : List Char) :
    skipSpace (c :: rest) = c :: rest := by
  simp [skipSpace, hc]

theorem literal_quote_cons (rest : List Char) :
    literal (quote :: rest) = (stringBody rest).map fun p => (.text p.1, p.2) := by
  rw [literal, skipSpace_cons (by decide)]
  simp

theorem Stops.head?_ne_quote {rest : List Char} (h : Stops rest) : rest.head? ≠ some quote := by
  obtain ⟨c, more, rfl, rfl | rfl⟩ := h
  · simp [quote]
  · simp [quote]

theorem literal_quoted {t rest : List Char} (h : quote ∉ t) (hrest : rest.head? ≠ some quote) :
    literal (quoted t ++ rest) = some (.text t, rest) := by
  have hbody := stringBody_escape hrest t
  rw [escape_of_notMem h] at hbody
  simp [quoted, literal_quote_cons, hbody]

theorem reads_quoted {t : List Char} (h : quote ∉ t) : Reads (quoted t) (.text t) :=
  fun _ hrest => literal_quoted h hrest.head?_ne_quote

theorem notMem_of_reads_quoted {t rest rest' : List Char} (hrest : Stops rest)
    (h : literal (quoted t ++ rest) = some (.text t, rest')) : quote ∉ t := by
  have hbody : stringBody (t ++ quote :: rest) = some (t, rest') := by
    simpa [quoted, literal_quote_cons] using h
  exact notMem_of_append_eq hrest.head?_ne_quote (stringBody_sound hbody).1

/-- A quoted text reads as itself only where every text after it lets it. -/
theorem honest_quoted (t : List Char) : Honest (quoted t) (.text t) :=
  fun _ _ hrest h => reads_quoted (notMem_of_reads_quoted hrest h)

theorem reads_null : Reads "NULL".toList .null := by
  intro rest _
  have hnull : "NULL".toList = ['N', 'U', 'L', 'L'] := by decide
  have hn : 'N' ≠ quote ∧ 'N'.isDigit = false := by decide
  rw [literal, hnull, List.cons_append, skipSpace_cons (by decide)]
  simp [hn]

theorem Stops.isDigit_head {rest : List Char} (h : Stops rest) :
    rest.takeWhile Char.isDigit = [] ∧ rest.dropWhile Char.isDigit = rest := by
  obtain ⟨c, more, rfl, rfl | rfl⟩ := h
  · simp [List.takeWhile, List.dropWhile, (by decide : ','.isDigit = false)]
  · simp [List.takeWhile, List.dropWhile, (by decide : ')'.isDigit = false)]

theorem reads_decimal {n : Nat} (h : n < 2 ^ 63) : Reads n.decimal (.integer n) := by
  intro rest hrest
  have hdigits : ∀ c ∈ n.decimal, c.isDigit := fun c hc => Nat.isDigit_of_mem_decimal hc
  have hnumber : number n.decimal = .integer n := by
    have hvalue : Nat.ofDigitChars 10 n.decimal 0 = n := by
      simp [Nat.decimal, Nat.ofDigitChars_toDigits]
    rw [number, hvalue, if_pos h]
  cases hdecimal : n.decimal with
  | nil => exact absurd hdecimal Nat.toDigits_ne_nil
  | cons c digits =>
    rw [hdecimal] at hdigits hnumber
    have hc := hdigits c List.mem_cons_self
    -- a digit is neither a space nor a quote, so the literal is a number
    have hspace : c.isAsciiWhitespace = false := by
      by_contra hspace
      simp only [Char.isAsciiWhitespace, Bool.not_eq_false, Bool.or_eq_true,
        decide_eq_true_eq] at hspace
      rcases hspace with (((rfl | rfl) | rfl) | rfl) | rfl <;> exact absurd hc (by decide)
    have hquote : c ≠ quote := by
      rintro rfl
      revert hc
      decide
    rw [literal, List.cons_append, skipSpace_cons hspace]
    simp only [if_neg hquote, hc, if_true]
    rw [← List.cons_append, List.takeWhile_append_of_pos hdigits,
      List.dropWhile_append_of_pos hdigits, hrest.isDigit_head.1, hrest.isDigit_head.2,
      List.append_nil, hnumber]

/-! ## Lists of spelled values -/

theorem Stops.skipSpace {rest : List Char} (h : Stops rest) : skipSpace rest = rest := by
  obtain ⟨c, more, rfl, rfl | rfl⟩ := h
  · exact skipSpace_cons (by decide) _
  · exact skipSpace_cons (by decide) _

theorem literal_space_cons (text : List Char) : literal (' ' :: text) = literal text := rfl

theorem values_space_cons (n : Nat) (text : List Char) :
    values n (' ' :: text) = values n text := by
  cases n with
  | zero => rfl
  | succ n => rw [values, values, literal_space_cons]

theorem values_comma {field more : List Char} {v : Value} (h : Reads field v) (n : Nat) :
    values (n + 1) (field ++ ", ".toList ++ more) =
      (values n more).map fun q => (v :: q.1, q.2) := by
  have htext : field ++ ", ".toList ++ more = field ++ ',' :: ' ' :: more := by simp
  have hstops : Stops (',' :: ' ' :: more) := ⟨_, _, rfl, Or.inl rfl⟩
  rw [htext, values, h _ hstops]
  simp [hstops.skipSpace, values_space_cons]

theorem values_paren {field tail : List Char} {v : Value} (h : Reads field v) :
    values 1 (field ++ ')' :: tail) = some ([v], tail) := by
  have hstops : Stops (')' :: tail) := ⟨_, _, rfl, Or.inr rfl⟩
  simp [values, h _ hstops, hstops.skipSpace]

/-- The first value comes from the first literal. -/
theorem exists_literal_of_values {n : Nat} {text tail : List Char} {v : Value} {vs : List Value}
    (h : values (n + 1) text = some (v :: vs, tail)) : ∃ rest, literal text = some (v, rest) := by
  obtain ⟨⟨v', rest⟩, hliteral, hrest⟩ := Option.bind_eq_some_iff.mp h
  obtain rfl : v' = v := by
    split at hrest
    · split_ifs at hrest
      · obtain ⟨q, -, hq⟩ := Option.map_eq_some_iff.mp hrest
        exact (List.cons.inj (Prod.mk.inj hq).1).1
      · exact (List.cons.inj (Prod.mk.inj (Option.some.inj hrest)).1).1
    · cases hrest
  exact ⟨rest, hliteral⟩

/-- **Lists of values.** Spelled values read as the given ones exactly when each of them
does. -/
theorem values_tuple_iff {fields : List (List Char)} {vs : List Value} {tail tail' : List Char}
    (hne : fields ≠ []) (h : List.Forall₂ Honest fields vs) :
    values fields.length (tuple fields ++ tail) = some (vs, tail') ↔
      List.Forall₂ Reads fields vs ∧ tail = tail' := by
  induction h with
  | nil => exact absurd rfl hne
  | @cons field v fields vs hfield hfields ih =>
    cases hfields with
    | nil =>
      rw [List.length_singleton, tuple, List.append_assoc, List.singleton_append]
      constructor
      · intro hvalues
        obtain ⟨rest, hliteral⟩ := exists_literal_of_values hvalues
        have hreads := hfield _ _ ⟨_, _, rfl, Or.inr rfl⟩ hliteral
        rw [values_paren hreads] at hvalues
        exact ⟨.cons hreads .nil, (Prod.mk.inj (Option.some.inj hvalues)).2⟩
      · rintro ⟨hreads, rfl⟩
        exact values_paren (List.forall₂_cons.mp hreads).1
    | @cons next v' fields vs hnext hfields =>
      rw [List.length_cons, tuple, List.append_assoc]
      constructor
      · intro hvalues
        obtain ⟨rest, hliteral⟩ := exists_literal_of_values hvalues
        have hstops : Stops (", ".toList ++ (tuple (next :: fields) ++ tail)) :=
          ⟨_, _, rfl, Or.inl rfl⟩
        rw [List.append_assoc] at hliteral
        have hreads := hfield _ _ hstops hliteral
        rw [values_comma hreads, Option.map_eq_some_iff] at hvalues
        obtain ⟨⟨vs', tail''⟩, hmore, hpair⟩ := hvalues
        simp only [Prod.mk.injEq, List.cons.injEq, true_and] at hpair
        obtain ⟨rfl, rfl⟩ := hpair
        obtain ⟨hrest, htail⟩ := (ih (by simp)).mp hmore
        exact ⟨.cons hreads hrest, htail⟩
      · rintro ⟨hreads, htail⟩
        obtain ⟨hfirst, hrest⟩ := List.forall₂_cons.mp hreads
        rw [values_comma hfirst, (ih (by simp)).mpr ⟨hrest, htail⟩]
        rfl

/-! ## What a value is made of -/

theorem mem_escape {c : Char} {t : List Char} (h : c ∈ t) : c ∈ escape t := by
  refine List.mem_flatMap.mpr ⟨c, h, ?_⟩
  split_ifs with hc
  · rw [hc]
    exact List.mem_cons_self
  · exact List.mem_cons_self

theorem literal_subset {text rest : List Char} {v : Value}
    (h : literal text = some (v, rest)) :
    rest ⊆ text ∧ ∀ t, v = .text t → t ⊆ text := by
  have hsub : skipSpace text ⊆ text := (List.dropWhile_suffix _).subset
  unfold literal at h
  split at h
  · cases h
  · rename_i c more hskip
    rw [hskip] at hsub
    split_ifs at h with hquote hdigit hnull
    · obtain ⟨⟨t', rest'⟩, hbody, hpair⟩ := Option.map_eq_some_iff.mp h
      obtain ⟨rfl, rfl⟩ := Prod.mk.inj hpair
      have hmore := (stringBody_sound hbody).1
      subst hmore
      refine ⟨fun a ha => hsub ?_, ?_⟩
      · simp [ha]
      · rintro t ht a ha
        obtain rfl : t' = t := Value.text.inj ht
        exact hsub (List.mem_cons_of_mem _ (List.mem_append_left _ (mem_escape ha)))
    · obtain ⟨rfl, rfl⟩ := Prod.mk.inj (Option.some.inj h)
      refine ⟨List.Subset.trans (List.dropWhile_suffix _).subset hsub, fun t ht => ?_⟩
      simp only [number] at ht
      split_ifs at ht
    · obtain ⟨rfl, rfl⟩ := Prod.mk.inj (Option.some.inj h)
      exact ⟨List.Subset.trans (List.drop_subset _ _) hsub, fun t ht => by cases ht⟩

/-- The texts among the values consist of characters of the statement. -/
theorem values_subset {n : Nat} {text rest t : List Char} {vs : List Value}
    (h : values n text = some (vs, rest)) (ht : .text t ∈ vs) : t ⊆ text := by
  induction n generalizing text vs with
  | zero => cases h
  | succ n ih =>
    obtain ⟨⟨v, more⟩, hliteral, hmore⟩ := Option.bind_eq_some_iff.mp h
    obtain ⟨hsub, hfirst⟩ := literal_subset hliteral
    have hskip : skipSpace more ⊆ text := List.Subset.trans (List.dropWhile_suffix _).subset hsub
    split at hmore
    · rename_i c rest' heq
      rw [heq] at hskip
      split_ifs at hmore
      · obtain ⟨⟨vs', rest''⟩, hvalues, hpair⟩ := Option.map_eq_some_iff.mp hmore
        obtain ⟨rfl, rfl⟩ := Prod.mk.inj hpair
        rcases List.mem_cons.mp ht with hv | hvs
        · exact hfirst t hv.symm
        · exact List.Subset.trans (ih hvalues hvs) fun a ha => hskip (List.mem_cons_of_mem _ ha)
      · obtain ⟨rfl, rfl⟩ := Prod.mk.inj (Option.some.inj hmore)
        exact hfirst t (List.mem_singleton.mp ht).symm
    · cases hmore

/-! ## Inserted rows -/

abbrev nul : Char := '\x00'

/-- How a value is spelled: `NULL`, a number in decimal, or a text between quotes, as it
is. -/
inductive Spells : List Char → Value → Prop
  | null : Spells "NULL".toList .null
  | decimal {n : Nat} (h : n < 2 ^ 63) : Spells n.decimal (.integer n)
  | quoted (t : List Char) : Spells (quoted t) (.text t)

/-- A value that survives its spelling: a text has no quote and no NUL character in it. -/
def Value.Safe : Value → Prop
  | .text t => quote ∉ t ∧ nul ∉ t
  | _ => True

instance : ∀ v, Decidable (Value.Safe v)
  | .text t => inferInstanceAs (Decidable (quote ∉ t ∧ nul ∉ t))
  | .null => isTrue trivial
  | .integer _ => isTrue trivial
  | .real _ => isTrue trivial

theorem Spells.honest {field : List Char} {v : Value} (h : Spells field v) : Honest field v := by
  cases h with
  | null => exact reads_null.honest
  | decimal h => exact (reads_decimal h).honest
  | quoted t => exact honest_quoted t

theorem Spells.reads_iff {field : List Char} {v : Value} (h : Spells field v) :
    Reads field v ↔ ∀ t, v = .text t → quote ∉ t := by
  cases h with
  | null => exact iff_of_true reads_null fun t ht => by cases ht
  | decimal h => exact iff_of_true (reads_decimal h) fun t ht => by cases ht
  | quoted t =>
    simp only [Value.text.injEq, forall_eq']
    refine ⟨fun hreads => ?_, reads_quoted⟩
    have hstops : Stops [')'] := ⟨_, _, rfl, Or.inr rfl⟩
    exact notMem_of_reads_quoted hstops (hreads _ hstops)

/-- A NUL character in a spelling comes from a text. -/
theorem Spells.nul_mem {field : List Char} {v : Value} (h : Spells field v)
    (hnul : nul ∈ field) : ∃ t, v = .text t ∧ nul ∈ t := by
  cases h with
  | null => exact absurd hnul (by decide)
  | decimal h => exact absurd hnul (Nat.notMem_decimal (by decide) _)
  | quoted t =>
    refine ⟨t, rfl, ?_⟩
    simpa [Sql.quoted, (by decide : nul ≠ quote)] using hnul

theorem forall₂_reads_iff {fields : List (List Char)} {vs : List Value}
    (h : List.Forall₂ Spells fields vs) :
    List.Forall₂ Reads fields vs ↔ ∀ v ∈ vs, ∀ t, v = .text t → quote ∉ t := by
  induction h with
  | nil => simp
  | cons hspells _ ih => rw [List.forall₂_cons, List.forall_mem_cons, hspells.reads_iff, ih]

theorem nul_notMem_fields {fields : List (List Char)} {vs : List Value}
    (h : List.Forall₂ Spells fields vs) (hnul : ∀ v ∈ vs, ∀ t, v = .text t → nul ∉ t) :
    ∀ field ∈ fields, nul ∉ field := by
  induction h with
  | nil => simp
  | cons hspells _ ih =>
    obtain ⟨hfirst, hrest⟩ := List.forall_mem_cons.mp hnul
    refine List.forall_mem_cons.mpr ⟨fun hmem => ?_, ih hrest⟩
    obtain ⟨t, ht, hin⟩ := hspells.nul_mem hmem
    exact hfirst t ht hin

theorem readable_append {xs : List Char} (h : nul ∉ xs) (ys : List Char) :
    readable (xs ++ ys) = xs ++ readable ys :=
  List.takeWhile_append_of_pos fun c hc => by
    simpa using fun hnul : c = nul => h (hnul ▸ hc)

theorem readable_of_notMem {text : List Char} (h : nul ∉ text) : readable text = text := by
  simpa [readable] using readable_append h []

theorem nul_notMem_readable (text : List Char) : nul ∉ readable text := by
  intro h
  simpa using List.mem_takeWhile_imp h

theorem tuple_cons {fields : List (List Char)} (hne : fields ≠ []) (field : List Char) :
    tuple (field :: fields) = field ++ ", ".toList ++ tuple fields := by
  cases fields with
  | nil => exact absurd rfl hne
  | cons next fields => rfl

theorem nul_notMem_tuple {fields : List (List Char)} (h : ∀ field ∈ fields, nul ∉ field) :
    nul ∉ tuple fields := by
  induction fields with
  | nil => decide
  | cons field fields ih =>
    obtain ⟨hfield, hfields⟩ := List.forall_mem_cons.mp h
    cases fields with
    | nil => simpa [tuple, nul] using hfield
    | cons next fields =>
      rw [tuple_cons (by simp)]
      simpa [nul] using ⟨hfield, ih hfields⟩

theorem insertedValues_eq {head : List Char} (hhead : nul ∉ head) (columns : Nat)
    (text : List Char) :
    insertedValues head columns (head ++ text) =
      (values columns (readable text)).bind fun p => if p.2 = [';'] then some p.1 else none := by
  rw [insertedValues, readable_append hhead]
  simp

theorem insertedValues_eq_some {head : List Char} (hhead : nul ∉ head) {columns : Nat}
    {text : List Char} {vs : List Value} :
    insertedValues head columns (head ++ text) = some vs ↔
      values columns (readable text) = some (vs, [';']) := by
  rw [insertedValues_eq hhead, Option.bind_eq_some_iff]
  constructor
  · rintro ⟨⟨vs', tail⟩, hvalues, hpair⟩
    split_ifs at hpair with htail
    obtain rfl := Option.some.inj hpair
    rw [hvalues, ← htail]
  · intro hvalues
    exact ⟨_, hvalues, by simp⟩

/-- **Inserted rows.** A statement that spells its values out inserts exactly these values
when they survive their spelling, and not otherwise. -/
theorem insertedValues_iff {head : List Char} (hhead : nul ∉ head) {fields : List (List Char)}
    {vs : List Value} (hne : fields ≠ []) (h : List.Forall₂ Spells fields vs) :
    insertedValues head fields.length (head ++ (tuple fields ++ [';'])) = some vs ↔
      ∀ v ∈ vs, v.Safe := by
  have hhonest : List.Forall₂ Honest fields vs := h.imp fun _ _ => Spells.honest
  -- without NUL characters the whole statement is read
  have hread : (∀ v ∈ vs, ∀ t, v = .text t → nul ∉ t) →
      readable (tuple fields ++ [';']) = tuple fields ++ [';'] := by
    intro hnul
    refine readable_of_notMem ?_
    rw [List.mem_append, not_or]
    exact ⟨nul_notMem_tuple (nul_notMem_fields h hnul), by decide⟩
  rw [insertedValues_eq_some hhead]
  constructor
  · intro hvalues
    have hnul : ∀ v ∈ vs, ∀ t, v = .text t → nul ∉ t := by
      rintro v hv t rfl hmem
      exact nul_notMem_readable _ (values_subset hvalues hv hmem)
    rw [hread hnul, values_tuple_iff hne hhonest] at hvalues
    have hquote := (forall₂_reads_iff h).mp hvalues.1
    intro v hv
    cases v with
    | text t => exact ⟨hquote _ hv t rfl, hnul _ hv t rfl⟩
    | _ => trivial
  · intro hsafe
    have hsafe : ∀ v ∈ vs, ∀ t, v = .text t → quote ∉ t ∧ nul ∉ t := by
      rintro v hv t rfl
      exact hsafe _ hv
    rw [hread fun v hv t ht => (hsafe v hv t ht).2, values_tuple_iff hne hhonest]
    exact ⟨(forall₂_reads_iff h).mpr fun v hv t ht => (hsafe v hv t ht).1, rfl⟩

theorem isPrefix_of_values {lead fields : List (List Char)} {vs vs' : List Value}
    {columns : Nat} {tail tail' : List Char} (hne : fields ≠ [])
    (h : List.Forall₂ Spells lead vs) (hsafe : ∀ v ∈ vs, v.Safe)
    (hvalues : values columns (readable (tuple (lead ++ fields) ++ tail)) = some (vs', tail')) :
    vs <+: vs' := by
  induction h generalizing columns vs' with
  | nil => exact List.nil_prefix
  | @cons field v lead vs hspells _ ih =>
    obtain ⟨hv, hvs⟩ := List.forall_mem_cons.mp hsafe
    have htext : ∀ t, v = .text t → quote ∉ t ∧ nul ∉ t := by
      rintro t rfl
      exact hv
    have hnul : nul ∉ field ++ ", ".toList := by
      rw [List.mem_append, not_or]
      refine ⟨fun hmem => ?_, by decide⟩
      obtain ⟨t, ht, hin⟩ := hspells.nul_mem hmem
      exact (htext t ht).2 hin
    have hreads : Reads field v := hspells.reads_iff.mpr fun t ht => (htext t ht).1
    cases columns with
    | zero => cases hvalues
    | succ columns =>
      rw [List.cons_append, tuple_cons (by simp [hne]), List.append_assoc _ (tuple _),
        readable_append hnul, values_comma hreads, Option.map_eq_some_iff] at hvalues
      obtain ⟨⟨vs'', tail''⟩, hmore, hpair⟩ := hvalues
      obtain ⟨rfl, rfl⟩ := Prod.mk.inj hpair
      exact List.cons_prefix_cons.mpr ⟨rfl, ih hvs hmore⟩

/-- The values before the first unsafe one are inserted, whatever follows them. -/
theorem isPrefix_of_insertedValues {head : List Char} (hhead : nul ∉ head)
    {lead fields : List (List Char)} {vs vs' : List Value} {columns : Nat} (hne : fields ≠ [])
    (h : List.Forall₂ Spells lead vs) (hsafe : ∀ v ∈ vs, v.Safe)
    (hinserted : insertedValues head columns (head ++ (tuple (lead ++ fields) ++ [';'])) =
      some vs') : vs <+: vs' :=
  isPrefix_of_values hne h hsafe ((insertedValues_eq_some hhead).mp hinserted)

end Sql
