import Contender.Data.Text
import Mathlib.Data.BitVec
import Mathlib.Data.List.TakeWhile

/-!
# Machine values

Hashes and addresses are the fixed-width words of the chain. Counters and
timestamps are natural numbers; the places where the program narrows one of them
to a machine width go through the functions below, which answer `none` where the
conversion fails.
-/

namespace Contender

/-- A 32-byte transaction hash. -/
abbrev TxHash := BitVec 256

/-- A 20-byte account address. -/
abbrev Address := BitVec 160

/-- A 256-bit number; its arithmetic wraps around. -/
abbrev U256 := BitVec 256

/-- Text, as its sequence of Unicode scalar values. -/
abbrev Text := List Char

/-- A byte string. -/
abbrev Bytes := List UInt8

/-- `str::trim`. -/
def trim (text : Text) : Text :=
  ((text.dropWhile Char.isWhiteSpace).reverse.dropWhile Char.isWhiteSpace).reverse

theorem isWhiteSpace_of_isDigit {c : Char} (h : c.isDigit) : c.isWhiteSpace = false := by
  have hrange : 48 ≤ c.toNat ∧ c.toNat ≤ 57 := by
    simp only [Char.isDigit, Bool.and_eq_true, decide_eq_true_eq] at h
    exact h
  unfold Char.isWhiteSpace
  simp only [Bool.or_eq_false_iff, Bool.and_eq_false_iff, decide_eq_false_iff_not]
  omega

theorem mem_trim_or {text : Text} {c : Char} (h : c ∈ text) :
    c.isWhiteSpace ∨ c ∈ trim text := by
  rw [← List.takeWhile_append_dropWhile (p := Char.isWhiteSpace) (l := text)] at h
  rcases List.mem_append.mp h with h | h
  · exact Or.inl (List.mem_takeWhile_imp h)
  · have hreverse := List.mem_reverse.mpr h
    rw [← List.takeWhile_append_dropWhile (p := Char.isWhiteSpace)
      (l := (text.dropWhile Char.isWhiteSpace).reverse)] at hreverse
    rcases List.mem_append.mp hreverse with h | h
    · exact Or.inl (List.mem_takeWhile_imp h)
    · exact Or.inr (List.mem_reverse.mpr h)

theorem dropWhile_eq_self {text : Text} (h : ∀ c ∈ text, c.isWhiteSpace = false) :
    text.dropWhile Char.isWhiteSpace = text := by
  cases text with
  | nil => rfl
  | cons c text => rw [List.dropWhile_cons, h c List.mem_cons_self, if_neg (by decide)]

theorem trim_eq_self {text : Text} (h : ∀ c ∈ text, c.isWhiteSpace = false) : trim text = text := by
  unfold trim
  rw [dropWhile_eq_self h, dropWhile_eq_self fun c hc => h c (List.mem_reverse.mp hc),
    List.reverse_reverse]

/-- `hex::encode`. -/
def hexEncode (bytes : Bytes) : Text := bytes.flatMap fun byte => Nat.paddedHex 2 byte.toNat

/-- A leading `0x` is left out. -/
def stripHexPrefix : Text → Text
  | '0' :: 'x' :: rest => rest
  | text => text

/-- `u64::try_from`. -/
def toU64 (n : Nat) : Option Nat := if n < 2 ^ 64 then some n else none

/-- `u64` multiplication under overflow checks. -/
def mulU64 (m n : Nat) : Option Nat := toU64 (m * n)

/-- `u64` addition under overflow checks. -/
def addU64 (m n : Nat) : Option Nat := toU64 (m + n)

/-- `u64` subtraction under overflow checks. -/
def subU64 (m n : Nat) : Option Nat := if n ≤ m then some (m - n) else none

theorem addU64_eq_some {m n r : Nat} : addU64 m n = some r ↔ r = m + n ∧ m + n < 2 ^ 64 := by
  unfold addU64 toU64
  split_ifs with h
  · simp only [Option.some.injEq]
    exact ⟨fun heq => ⟨heq.symm, h⟩, fun heq => heq.1.symm⟩
  · simp only [false_iff, not_and]
    exact fun _ => h

theorem mulU64_eq_some {m n r : Nat} : mulU64 m n = some r ↔ r = m * n ∧ m * n < 2 ^ 64 := by
  unfold mulU64 toU64
  split_ifs with h
  · simp only [Option.some.injEq]
    exact ⟨fun heq => ⟨heq.symm, h⟩, fun heq => heq.1.symm⟩
  · simp only [false_iff, not_and]
    exact fun _ => h

/-- `u64::saturating_add`. -/
def satAddU64 (m n : Nat) : Nat := min (m + n) (2 ^ 64 - 1)

/-- `u128::try_from`. -/
def toU128 (n : Nat) : Option Nat := if n < 2 ^ 128 then some n else none

/-- `i32` addition under overflow checks. -/
def addI32 (i j : Int) : Option Int :=
  if -2 ^ 31 ≤ i + j ∧ i + j < 2 ^ 31 then some (i + j) else none

/-- `i128` addition under overflow checks. -/
def addI128 (i j : Int) : Option Int :=
  if -2 ^ 127 ≤ i + j ∧ i + j < 2 ^ 127 then some (i + j) else none

/-- `u128 as i128`: reinterpretation of the bits. -/
def asI128 (n : Nat) : Int := (n : Int).bmod (2 ^ 128)

end Contender
