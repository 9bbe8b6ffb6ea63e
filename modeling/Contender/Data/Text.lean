import Mathlib.Data.List.Infix

/-!
# Texts as lists of characters

Replacing and splitting in a text, and the usual renderings of a number. The
functions on lists follow the standard operations on strings: replacement goes
from left to right and never overlaps, and splitting at whitespace drops the
empty parts.
-/

namespace List

variable {α : Type*} [DecidableEq α]

/-- Replace the occurrences of a non-empty pattern, where the next `skip` elements
belong to an occurrence that has been replaced already. -/
def replaceFrom (pat new : List α) : Nat → List α → List α
  | _, [] => []
  | skip + 1, _ :: rest => replaceFrom pat new skip rest
  | 0, a :: rest =>
    if pat <+: a :: rest then new ++ replaceFrom pat new (pat.length - 1) rest
    else a :: replaceFrom pat new 0 rest

/-- Replace every occurrence of a non-empty pattern, from left to right. -/
def replaceAll (l pat new : List α) : List α := replaceFrom pat new 0 l

/-- A pattern whose first element does not occur leaves the list as it is. -/
theorem replaceAll_of_notMem {a : α} {l : List α} (h : a ∉ l) (pat new : List α) :
    l.replaceAll (a :: pat) new = l := by
  induction l with
  | nil => rfl
  | cons b rest ih =>
    have hba : ¬a :: pat <+: b :: rest := by
      intro hstart
      exact h (hstart.subset List.mem_cons_self)
    have hrest : a ∉ rest := fun hmem => h (List.mem_cons_of_mem b hmem)
    change replaceFrom (a :: pat) new 0 (b :: rest) = b :: rest
    rw [replaceFrom, if_neg hba]
    exact congrArg (b :: ·) (ih hrest)

end List

namespace Char

/-- `char::is_ascii_whitespace`. -/
def isAsciiWhitespace (c : Char) : Bool :=
  c = ' ' || c = '\t' || c = '\n' || c = '\x0C' || c = '\r'

/-- `char::is_whitespace`: the Unicode property `White_Space`. -/
def isWhiteSpace (c : Char) : Bool :=
  let n := c.toNat
  (9 ≤ n && n ≤ 13) || n = 0x20 || n = 0x85 || n = 0xA0 || n = 0x1680 ||
    (0x2000 ≤ n && n ≤ 0x200A) || n = 0x2028 || n = 0x2029 || n = 0x202F || n = 0x205F || n = 0x3000

/-- The parts of a text between ASCII whitespace. -/
def splitAsciiWhitespace (l : List Char) : List (List Char) :=
  (l.splitOnP isAsciiWhitespace).filter (· ≠ [])

end Char

namespace Nat

/-- The decimal rendering of a number. -/
def decimal (n : Nat) : List Char := toDigits 10 n

/-- The hexadecimal rendering of a number, padded with zeros to a width. -/
def paddedHex (width n : Nat) : List Char :=
  List.replicate (width - (toDigits 16 n).length) '0' ++ toDigits 16 n

theorem isDigit_of_mem_decimal {n : Nat} {c : Char} (h : c ∈ n.decimal) : c.isDigit :=
  isDigit_of_mem_toDigits (by omega) (by omega) h

theorem notMem_decimal {c : Char} (hc : c.isDigit = false) (n : Nat) : c ∉ n.decimal := by
  intro h
  have := isDigit_of_mem_decimal h
  rw [hc] at this
  exact absurd this (by decide)

theorem decimal_injective {m n : Nat} (h : m.decimal = n.decimal) : m = n := by
  have hvalue := congrArg (Nat.ofDigitChars 10 · 0) h
  simpa [decimal, ofDigitChars_toDigits] using hvalue

/-- The characters a hexadecimal rendering may use. -/
def hexDigits : List Char := "0123456789abcdef".toList

theorem digitChar_mem_hexDigits {n : Nat} (h : n < 16) : digitChar n ∈ hexDigits := by
  have hall : ∀ n < 16, digitChar n ∈ hexDigits := by decide
  exact hall n h

theorem mem_hexDigits_of_mem_toDigits {n : Nat} {c : Char} (h : c ∈ toDigits 16 n) :
    c ∈ hexDigits := by
  induction n using Nat.strong_induction_on with
  | _ n ih =>
    rw [toDigits_eq_if (by omega)] at h
    split_ifs at h with hn
    · rw [List.mem_singleton] at h
      exact h ▸ digitChar_mem_hexDigits hn
    · rcases List.mem_append.mp h with h | h
      · exact ih (n / 16) (by omega) h
      · rw [List.mem_singleton] at h
        exact h ▸ digitChar_mem_hexDigits (Nat.mod_lt n (by omega))

theorem notMem_paddedHex {c : Char} (hc : c ∉ hexDigits) (width n : Nat) :
    c ∉ paddedHex width n := by
  intro h
  rcases List.mem_append.mp h with h | h
  · rw [List.eq_of_mem_replicate h] at hc
    exact hc (by decide)
  · exact hc (mem_hexDigits_of_mem_toDigits h)

end Nat
