import Contender.Data.Text
import Contender.Data.Traverse
import Mathlib.Data.Nat.Digits.Defs

/-!
# Hexadecimal numbers and bytes

Hexadecimal texts are read in either case. A text of an even number of digits spells
bytes, two digits each, and the same number as they do.
-/

namespace Char

/-- The value of a hexadecimal digit, in either case. -/
def hexValue? (c : Char) : Option Nat :=
  if '0' ≤ c ∧ c ≤ '9' then some (c.toNat - '0'.toNat)
  else if 'a' ≤ c ∧ c ≤ 'f' then some (c.toNat - 'a'.toNat + 10)
  else if 'A' ≤ c ∧ c ≤ 'F' then some (c.toNat - 'A'.toNat + 10)
  else none

/-- A hexadecimal digit, in either case. -/
def IsHexDigit (c : Char) : Prop := c.hexValue?.isSome

instance (c : Char) : Decidable c.IsHexDigit := inferInstanceAs (Decidable (_ = true))

theorem hexValue?_digitChar {n : Nat} (h : n < 16) : (Nat.digitChar n).hexValue? = some n := by
  have hall : ∀ n < 16, (Nat.digitChar n).hexValue? = some n := by decide
  exact hall n h

theorem hexValue?_lt {c : Char} {n : Nat} (h : c.hexValue? = some n) : n < 16 := by
  unfold hexValue? at h
  split_ifs at h with hdigit hlower hupper
  · obtain rfl := Option.some.inj h
    have : c.toNat ≤ '9'.toNat := hdigit.2
    simp only [Char.reduceToNat] at this ⊢
    omega
  · obtain rfl := Option.some.inj h
    have : c.toNat ≤ 'f'.toNat := hlower.2
    simp only [Char.reduceToNat] at this ⊢
    omega
  · obtain rfl := Option.some.inj h
    have : c.toNat ≤ 'F'.toNat := hupper.2
    simp only [Char.reduceToNat] at this ⊢
    omega

theorem hexValue?_eq_zero {c : Char} (h : c.hexValue? = some 0) : c = '0' := by
  unfold hexValue? at h
  split_ifs at h with hdigit
  · have hle : c.toNat - '0'.toNat = 0 := Option.some.inj h
    have hge : '0'.toNat ≤ c.toNat := hdigit.1
    exact Char.toNat_inj.mp (by omega)
  · simp at h
  · simp at h

end Char

namespace List

/-- The number that a hexadecimal text spells, most significant digit first. -/
def hexNumber? (text : List Char) : Option Nat :=
  (text.mapM Char.hexValue?).map fun values => Nat.ofDigits 16 values.reverse

theorem hexNumber?_cons {c : Char} {text : List Char} :
    (c :: text).hexNumber? =
      c.hexValue?.bind fun v => text.hexNumber?.map fun n => n + 16 ^ text.length * v := by
  unfold hexNumber?
  rw [mapM_cons]
  cases c.hexValue? with
  | none => rfl
  | some v =>
    cases hvalues : text.mapM Char.hexValue? with
    | none => rfl
    | some values =>
      have hlength := (mapM_eq_some_iff.mp hvalues).length_eq
      simp only [Option.bind_eq_bind, Option.bind_some, Option.pure_def, Option.map_some,
        Nat.ofDigits_reverse_cons, hlength]

theorem hexNumber?_append {xs ys : List Char} {m n : Nat} (hx : xs.hexNumber? = some m)
    (hy : ys.hexNumber? = some n) : (xs ++ ys).hexNumber? = some (n + 16 ^ ys.length * m) := by
  induction xs generalizing m with
  | nil =>
    obtain rfl : 0 = m := Option.some.inj hx
    simpa using hy
  | cons c xs ih =>
    rw [hexNumber?_cons, Option.bind_eq_some_iff] at hx
    obtain ⟨v, hv, hrest⟩ := hx
    obtain ⟨k, hk, rfl⟩ := Option.map_eq_some_iff.mp hrest
    rw [cons_append, hexNumber?_cons, hv, Option.bind_some, ih hk, Option.map_some, length_append,
      Nat.pow_add, Option.some.injEq]
    ring

theorem isSome_hexNumber? {text : List Char} :
    text.hexNumber?.isSome ↔ ∀ c ∈ text, c.IsHexDigit := by
  unfold hexNumber?
  rw [Option.isSome_map, mapM_isSome]
  rfl

theorem hexNumber?_lt {text : List Char} {n : Nat} (h : text.hexNumber? = some n) :
    n < 16 ^ text.length := by
  obtain ⟨values, hvalues, rfl⟩ := Option.map_eq_some_iff.mp h
  have hall := mapM_eq_some_iff.mp hvalues
  have hlt := Nat.ofDigits_lt_base_pow_length (b := 16) (l := values.reverse) (by decide)
    fun v hv => by
      obtain ⟨c, -, hc⟩ := hall.exists_of_mem_right (mem_reverse.mp hv)
      exact Char.hexValue?_lt hc
  rwa [length_reverse, ← hall.length_eq] at hlt

/-- Only zeros spell zero. -/
theorem hexNumber?_eq_zero {text : List Char} :
    text.hexNumber? = some 0 ↔ ∀ c ∈ text, c = '0' := by
  induction text with
  | nil => simp [hexNumber?]
  | cons c text ih =>
    rw [hexNumber?_cons, forall_mem_cons, ← ih]
    constructor
    · intro h
      obtain ⟨v, hv, hrest⟩ := Option.bind_eq_some_iff.mp h
      obtain ⟨n, hn, hzero⟩ := Option.map_eq_some_iff.mp hrest
      obtain ⟨rfl, hmul⟩ := Nat.add_eq_zero_iff.mp hzero
      have hpow : 16 ^ text.length ≠ 0 := (Nat.pow_pos (by decide)).ne'
      obtain rfl : v = 0 := (Nat.mul_eq_zero.mp hmul).resolve_left hpow
      exact ⟨Char.hexValue?_eq_zero hv, hn⟩
    · rintro ⟨rfl, h⟩
      rw [h]
      rfl

end List

namespace Nat

theorem hexNumber?_toDigits (n : Nat) : (toDigits 16 n).hexNumber? = some n := by
  induction n using Nat.strong_induction_on with
  | _ n ih =>
    rw [toDigits_eq_if (by omega)]
    split_ifs with hn
    · simp [Char.hexValue?_digitChar hn, List.hexNumber?]
    · have hlast : [digitChar (n % 16)].hexNumber? = some (n % 16) := by
        simp [Char.hexValue?_digitChar (Nat.mod_lt n (by omega)), List.hexNumber?]
      rw [List.hexNumber?_append (ih (n / 16) (by omega)) hlast, Option.some.injEq,
        List.length_singleton]
      omega

/-- A padded rendering spells the number. -/
theorem hexNumber?_paddedHex (width n : Nat) : (paddedHex width n).hexNumber? = some n := by
  have hzeros : (List.replicate (width - (toDigits 16 n).length) '0').hexNumber? = some 0 :=
    List.hexNumber?_eq_zero.mpr fun c hc => List.eq_of_mem_replicate hc
  unfold paddedHex
  rw [List.hexNumber?_append hzeros (hexNumber?_toDigits n), Nat.mul_zero, Nat.add_zero]

theorem length_paddedHex {width n : Nat} (hwidth : 0 < width) (h : n < 16 ^ width) :
    (paddedHex width n).length = width := by
  have hle := (length_toDigits_le_iff (b := 16) (by decide) hwidth).mpr h
  simp [paddedHex, hle]

end Nat
