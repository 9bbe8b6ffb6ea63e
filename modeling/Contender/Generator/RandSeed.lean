import Contender.Primitives

/-!
# Seeds and the values drawn from them

`RandSeed` is a 32-byte seed, read as a big-endian number. The `i`-th value drawn
from it is the Keccak hash of the number `seed + i`, brought into the requested
range. Addition wraps around at `2 ^ 256`.
-/

namespace Contender

/-- The number a byte string spells, most significant byte first. -/
def fromBeBytes (bytes : Bytes) : Nat :=
  bytes.foldl (fun n byte => 256 * n + byte.toNat) 0

/-- The 32 bytes of a number, least significant byte first. -/
def leBytes (x : U256) : Bytes :=
  (List.range 32).map fun i => UInt8.ofNat (x.toNat / 256 ^ i)

/-- The 32 bytes of a number, most significant byte first. -/
def beBytes (x : U256) : Bytes := (leBytes x).reverse

/-- `str::as_bytes`. -/
def utf8 (text : Text) : Bytes := text.flatMap String.utf8EncodeChar

/-- `U256::from_be_slice`: a number that does not fit panics. -/
def u256FromBeSlice (bytes : Bytes) : Option U256 :=
  if fromBeBytes bytes < 2 ^ 256 then some (BitVec.ofNat 256 (fromBeBytes bytes)) else none

theorem toNat_mod_eq_of_digits {x y : Nat} {k : Nat}
    (h : ∀ i < k, x / 256 ^ i % 256 = y / 256 ^ i % 256) : x % 256 ^ k = y % 256 ^ k := by
  induction k with
  | zero => simp [Nat.mod_one]
  | succ k ih =>
    rw [Nat.mod_pow_succ, Nat.mod_pow_succ, ih fun i hi => h i (by omega), h k (by omega)]

theorem leBytes_injective : Function.Injective leBytes := by
  intro x y h
  -- equal byte lists agree on every digit to base 256
  have hdigits : ∀ i < 32, x.toNat / 256 ^ i % 256 = y.toNat / 256 ^ i % 256 := by
    intro i hi
    have hbyte := List.map_inj_left.mp h i (List.mem_range.mpr hi)
    have := congrArg UInt8.toNat hbyte
    rwa [UInt8.toNat_ofNat', UInt8.toNat_ofNat'] at this
  have hmod := toNat_mod_eq_of_digits hdigits
  apply BitVec.eq_of_toNat_eq
  have hx := x.isLt
  have hy := y.isLt
  have hpow : 256 ^ 32 = 2 ^ 256 := by decide
  rwa [hpow, Nat.mod_eq_of_lt hx, Nat.mod_eq_of_lt hy] at hmod

/-- A seed, by the number it stands for. -/
structure RandSeed where
  asU256 : U256
  deriving DecidableEq, Repr

namespace RandSeed

/-- `fill_bytes`: a short seed is padded on the right with `0x01`, of a long one
the first 32 bytes count. -/
def fillBytes (seed : Bytes) : Bytes :=
  if seed.length < 32 then seed ++ List.replicate (32 - seed.length) 1 else seed.take 32

def seedFromBytes (seed : Bytes) : RandSeed :=
  ⟨BitVec.ofNat 256 (fromBeBytes (fillBytes seed))⟩

/-- The lower end of a range: an absent bound is zero. -/
def lower (min : Option U256) : U256 := min.getD 0

/-- The upper end of a range: an absent bound is the largest number. -/
def upper (max : Option U256) : U256 := max.getD (BitVec.allOnes 256)

/-- The `i`-th value drawn from a seed, between two bounds. -/
def seedValue (keccak256 : Bytes → U256) (seed : RandSeed) (min max : Option U256) (i : Nat) :
    U256 :=
  keccak256 (leBytes (seed.asU256 + BitVec.ofNat 256 i)) % (upper max - lower min) + lower min

/-- The first `amount` values. An empty range fails the assertion. -/
def seedValues (keccak256 : Bytes → U256) (seed : RandSeed) (amount : Nat)
    (min max : Option U256) : Option (List U256) :=
  if lower min < upper max then
    some ((List.range amount).map (seed.seedValue keccak256 min max))
  else none

variable {keccak256 : Bytes → U256} {seed : RandSeed} {min max : Option U256}

/-- Every value lies between the bounds. -/
theorem seedValue_mem_range (h : lower min < upper max) (i : Nat) :
    lower min ≤ seed.seedValue keccak256 min max i ∧
      seed.seedValue keccak256 min max i < upper max := by
  unfold seedValue
  generalize keccak256 (leBytes (seed.asU256 + BitVec.ofNat 256 i)) = hash
  generalize upper max = hi at h ⊢
  generalize lower min = lo at h ⊢
  rw [BitVec.lt_def] at h
  -- neither the subtraction nor the addition wraps around
  have hspan : (hi - lo).toNat = hi.toNat - lo.toNat := BitVec.toNat_sub_of_le (by
    rw [BitVec.le_def]
    omega)
  have hmod : (hash % (hi - lo)).toNat < hi.toNat - lo.toNat := by
    rw [BitVec.toNat_umod, hspan]
    exact Nat.mod_lt _ (by omega)
  have hhi := hi.isLt
  have hsum : (hash % (hi - lo) + lo).toNat = (hash % (hi - lo)).toNat + lo.toNat := by
    rw [BitVec.toNat_add]
    exact Nat.mod_eq_of_lt (by omega)
  rw [BitVec.le_def, BitVec.lt_def, hsum]
  omega

theorem seedValues_eq_some {amount : Nat} {values : List U256}
    (h : seed.seedValues keccak256 amount min max = some values) :
    lower min < upper max ∧
      values = (List.range amount).map (seed.seedValue keccak256 min max) := by
  unfold seedValues at h
  split_ifs at h with hlt
  exact ⟨hlt, (Option.some.inj h).symm⟩

/-- All values drawn lie between the bounds. -/
theorem mem_range_of_mem_seedValues {amount : Nat} {values : List U256}
    (h : seed.seedValues keccak256 amount min max = some values) {v : U256} (hv : v ∈ values) :
    lower min ≤ v ∧ v < upper max := by
  obtain ⟨hlt, rfl⟩ := seedValues_eq_some h
  obtain ⟨i, -, rfl⟩ := List.mem_map.mp hv
  exact seedValue_mem_range hlt i

end RandSeed

end Contender
