import Contender.Data.Hex
import Contender.Generator.RandSeed
import Mathlib.Data.List.TakeWhile

/-!
# The seed file

Two parts of the program read the seed file. The admin commands trim it, decode it as
bytes and take the bytes as the seed, padded on the right or cut to 32. Setup and spam
put `0x` before the text as it is, and read a number. The two agree on a file of exactly
32 bytes without anything around it, as the program writes it, and on longer files of
zeros.
-/

namespace Contender

/-- Two hexadecimal digits for each byte. -/
def decodePairs : Text → Option Bytes
  | [] => some []
  | [_] => none
  | high :: low :: rest => do
    let high ← high.hexValue?
    let low ← low.hexValue?
    let bytes ← decodePairs rest
    return UInt8.ofNat (16 * high + low) :: bytes

/-- `hex::decode`. -/
def hexDecode (text : Text) : Option Bytes := decodePairs (stripHexPrefix text)

inductive AdminError
  | seedFileDoesNotExist
  | seedFileInvalid
  | seedFileEmpty
  deriving DecidableEq, Repr

/-- `read_seed_file`. -/
def readSeedFile : Option Text → Except AdminError Bytes
  | none => .error .seedFileDoesNotExist
  | some seedHex =>
    match hexDecode (trim seedHex) with
    | none => .error .seedFileInvalid
    | some [] => .error .seedFileEmpty
    | some decoded => .ok decoded

/-- `load_seedfile`: a file that is not there is written, with random bytes. -/
def loadSeedfile (random : Bytes) (file : Option Text) : Text :=
  '0' :: 'x' :: file.getD (hexEncode random)

/-- The value of a character of a number, in either case; underscores are skipped. -/
inductive RadixDigit
  | digit (value : Nat)
  | skipped
  | invalid
  deriving DecidableEq

def radixDigit (c : Char) : RadixDigit :=
  if '0' ≤ c ∧ c ≤ '9' then .digit (c.toNat - '0'.toNat)
  else if 'a' ≤ c ∧ c ≤ 'z' then .digit (c.toNat - 'a'.toNat + 10)
  else if 'A' ≤ c ∧ c ≤ 'Z' then .digit (c.toNat - 'A'.toNat + 10)
  else if c = '_' then .skipped
  else .invalid

/-- One more digit of a number. -/
def pushDigit (radix n : Nat) (c : Char) : Option Nat :=
  match radixDigit c with
  | .digit value =>
    if value < radix ∧ radix * n + value < 2 ^ 256 then some (radix * n + value) else none
  | .skipped => some n
  | .invalid => none

/-- `U256::from_str_radix`. -/
def u256FromStrRadix (radix : Nat) (text : Text) : Option U256 :=
  (text.foldlM (pushDigit radix) 0).map (BitVec.ofNat 256)

/-- `RandSeed::seed_from_str`: a text that is no number of 256 bits panics. -/
def RandSeed.seedFromStr : Text → Option RandSeed
  | '0' :: 'x' :: rest => (u256FromStrRadix 16 rest).map RandSeed.mk
  | text => (u256FromStrRadix 10 text).map RandSeed.mk

theorem toNat_of_isHexDigit {c : Char} (h : c.IsHexDigit) : 48 ≤ c.toNat ∧ c.toNat ≤ 102 := by
  obtain ⟨v, hv⟩ := Option.isSome_iff_exists.mp h
  unfold Char.hexValue? at hv
  split_ifs at hv with hdigit hlower hupper
  · have hlow : '0'.toNat ≤ c.toNat := hdigit.1
    have hhigh : c.toNat ≤ '9'.toNat := hdigit.2
    simp only [Char.reduceToNat] at hlow hhigh
    omega
  · have hlow : 'a'.toNat ≤ c.toNat := hlower.1
    have hhigh : c.toNat ≤ 'f'.toNat := hlower.2
    simp only [Char.reduceToNat] at hlow hhigh
    omega
  · have hlow : 'A'.toNat ≤ c.toNat := hupper.1
    have hhigh : c.toNat ≤ 'F'.toNat := hupper.2
    simp only [Char.reduceToNat] at hlow hhigh
    omega

theorem isWhiteSpace_of_isHexDigit {c : Char} (h : c.IsHexDigit) : c.isWhiteSpace = false := by
  obtain ⟨hlow, hhigh⟩ := toNat_of_isHexDigit h
  simp only [Char.isWhiteSpace, Bool.or_eq_false_iff, Bool.and_eq_false_iff,
    decide_eq_false_iff_not]
  omega

/-! ### Bytes and digits -/

theorem fromBeBytes_eq (bytes : Bytes) :
    fromBeBytes bytes = Nat.ofDigits 256 (bytes.map UInt8.toNat).reverse := by
  rw [Nat.ofDigits_eq_foldr, List.foldr_reverse, List.foldl_map]
  unfold fromBeBytes
  congr 1
  funext n byte
  rw [Nat.cast_id, Nat.add_comm]

theorem fromBeBytes_append (xs ys : Bytes) :
    fromBeBytes (xs ++ ys) = fromBeBytes ys + 256 ^ ys.length * fromBeBytes xs := by
  rw [fromBeBytes_eq, fromBeBytes_eq, fromBeBytes_eq, List.map_append, List.reverse_append,
    Nat.ofDigits_append, List.length_reverse, List.length_map]

theorem fromBeBytes_lt (bytes : Bytes) : fromBeBytes bytes < 256 ^ bytes.length := by
  have hlt := Nat.ofDigits_lt_base_pow_length (b := 256) (l := (bytes.map UInt8.toNat).reverse)
    (by decide) fun v hv => by
      obtain ⟨byte, -, rfl⟩ := List.mem_map.mp (List.mem_reverse.mp hv)
      exact byte.toNat_lt
  rwa [List.length_reverse, List.length_map, ← fromBeBytes_eq] at hlt

/-- The bytes spell the number that their digits spell. -/
theorem hexNumber?_of_decodePairs {text : Text} {bytes : Bytes}
    (h : decodePairs text = some bytes) :
    text.hexNumber? = some (fromBeBytes bytes) ∧ text.length = 2 * bytes.length := by
  fun_induction decodePairs text generalizing bytes with
  | case1 =>
    obtain rfl := Option.some.inj h
    exact ⟨rfl, rfl⟩
  | case2 => cases h
  | case3 high low rest ih =>
    simp only [Option.bind_eq_bind, Option.bind_eq_some_iff, Option.pure_def,
      Option.some.injEq] at h
    obtain ⟨v, hv, w, hw, bytes, hbytes, rfl⟩ := h
    obtain ⟨hnumber, hlength⟩ := ih hbytes
    have hvlt := Char.hexValue?_lt hv
    have hwlt := Char.hexValue?_lt hw
    have hbyte : (UInt8.ofNat (16 * v + w)).toNat = 16 * v + w := by
      rw [UInt8.toNat_ofNat']
      omega
    have hcons : fromBeBytes (UInt8.ofNat (16 * v + w) :: bytes) =
        fromBeBytes bytes + 256 ^ bytes.length * (16 * v + w) := by
      rw [← List.singleton_append, fromBeBytes_append]
      change fromBeBytes bytes + 256 ^ bytes.length * (256 * 0 + _) = _
      rw [hbyte, Nat.mul_zero, Nat.zero_add]
    refine ⟨?_, by simp only [List.length_cons]; omega⟩
    rw [List.hexNumber?_cons, hv, Option.bind_some, List.hexNumber?_cons, hw, Option.bind_some,
      hnumber, hcons, List.length_cons, hlength, Nat.pow_succ, Nat.pow_mul]
    simp only [Option.map_some, Option.some.injEq]
    ring

theorem isHexDigit_of_decodePairs {text : Text} {bytes : Bytes}
    (h : decodePairs text = some bytes) {c : Char} (hc : c ∈ text) : c.IsHexDigit :=
  List.isSome_hexNumber?.mp (by rw [(hexNumber?_of_decodePairs h).1]; rfl) c hc

/-! ### Reading a number -/

theorem radixDigit_of_hexValue? {c : Char} {v : Nat} (h : c.hexValue? = some v) :
    radixDigit c = .digit v := by
  unfold Char.hexValue? at h
  unfold radixDigit
  split_ifs at h with hdigit hlower hupper
  · rw [if_pos hdigit, Option.some.inj h]
  · have hle : c ≤ 'z' := Char.le_trans hlower.2 (by decide : 'f' ≤ 'z')
    rw [if_neg hdigit, if_pos ⟨hlower.1, hle⟩, Option.some.inj h]
  · have hle : c ≤ 'Z' := Char.le_trans hupper.2 (by decide : 'F' ≤ 'Z')
    have hnot : ¬('a' ≤ c ∧ c ≤ 'z') := fun hz =>
      absurd (Char.le_trans hz.1 hupper.2) (by decide : ¬ 'a' ≤ 'F')
    rw [if_neg hdigit, if_neg hnot, if_pos ⟨hupper.1, hle⟩, Option.some.inj h]

/-- The characters of a hexadecimal number. -/
theorem isHexDigit_of_pushDigit {n m : Nat} {c : Char} (h : pushDigit 16 n c = some m) :
    c.IsHexDigit ∨ c = '_' := by
  unfold pushDigit radixDigit at h
  split_ifs at h with hdigit hlower hupper hskip
  · left
    simp [Char.IsHexDigit, Char.hexValue?, hdigit]
  · left
    dsimp only at h
    split_ifs at h with hfits
    have hle : c ≤ 'f' := by
      change c.toNat ≤ 'f'.toNat
      have := hfits.1
      simp only [Char.reduceToNat] at this ⊢
      omega
    simp [Char.IsHexDigit, Char.hexValue?, hdigit, hlower.1, hle]
  · left
    dsimp only at h
    split_ifs at h with hfits
    have hle : c ≤ 'F' := by
      change c.toNat ≤ 'F'.toNat
      have := hfits.1
      simp only [Char.reduceToNat] at this ⊢
      omega
    have hnot : ¬('a' ≤ c ∧ c ≤ 'f') := fun hz =>
      hlower ⟨hz.1, Char.le_trans hz.2 (by decide : 'f' ≤ 'z')⟩
    unfold Char.IsHexDigit Char.hexValue?
    rw [if_neg hdigit, if_neg hnot, if_pos ⟨hupper.1, hle⟩]
    rfl
  · exact Or.inr hskip

theorem isHexDigit_of_foldlM {text : Text} {n m : Nat} (h : text.foldlM (pushDigit 16) n = some m)
    {c : Char} (hc : c ∈ text) : c.IsHexDigit ∨ c = '_' := by
  induction text generalizing n with
  | nil => cases hc
  | cons d text ih =>
    rw [List.foldlM_cons, Option.bind_eq_bind, Option.bind_eq_some_iff] at h
    obtain ⟨k, hk, hrest⟩ := h
    rcases List.mem_cons.mp hc with rfl | hc
    · exact isHexDigit_of_pushDigit hk
    · exact ih hrest hc

/-- Digits are read as the number they spell, if that has 256 bits. -/
theorem foldlM_pushDigit {text : Text} {m : Nat} (h : text.hexNumber? = some m) {n : Nat}
    (hn : n < 2 ^ 256) :
    text.foldlM (pushDigit 16) n =
      if m + 16 ^ text.length * n < 2 ^ 256 then some (m + 16 ^ text.length * n) else none := by
  induction text generalizing n m with
  | nil =>
    obtain rfl : 0 = m := Option.some.inj h
    rw [List.length_nil, Nat.pow_zero, Nat.one_mul, Nat.zero_add, if_pos hn]
    rfl
  | cons c text ih =>
    rw [List.hexNumber?_cons, Option.bind_eq_some_iff] at h
    obtain ⟨v, hv, hrest⟩ := h
    obtain ⟨k, hk, rfl⟩ := Option.map_eq_some_iff.mp hrest
    have hvlt := Char.hexValue?_lt hv
    have hvalue : k + 16 ^ text.length * v + 16 ^ (c :: text).length * n =
        k + 16 ^ text.length * (16 * n + v) := by
      rw [List.length_cons, Nat.pow_succ]
      ring
    rw [List.foldlM_cons, hvalue]
    unfold pushDigit
    rw [radixDigit_of_hexValue? hv]
    dsimp only
    by_cases hfits : 16 * n + v < 2 ^ 256
    · rw [if_pos ⟨hvlt, hfits⟩]
      exact ih hk hfits
    · have hpow : 1 ≤ 16 ^ text.length := Nat.one_le_pow _ _ (by decide)
      have hle : 16 * n + v ≤ 16 ^ text.length * (16 * n + v) := Nat.le_mul_of_pos_left _ hpow
      rw [if_neg (fun h => hfits h.2), if_neg (by omega)]
      rfl

/-! ### The two readings -/

theorem readSeedFile_eq_ok {content : Text} {bytes : Bytes}
    (h : readSeedFile (some content) = .ok bytes) :
    hexDecode (trim content) = some bytes ∧ bytes ≠ [] := by
  unfold readSeedFile at h
  dsimp only at h
  split at h
  · cases h
  · cases h
  · next decoded hne heq =>
    obtain rfl := Except.ok.inj h
    exact ⟨heq, hne⟩

theorem stripHexPrefix_of_isHexDigit {text : Text} (h : ∀ c ∈ text, c.IsHexDigit) :
    stripHexPrefix text = text := by
  unfold stripHexPrefix
  split
  · exact absurd (h 'x' (by simp)) (by decide)
  · rfl

/-- The seed of the admin commands is the number of the first 32 bytes. -/
theorem seedFromBytes_toNat (bytes : Bytes) :
    (RandSeed.seedFromBytes bytes).asU256.toNat = fromBeBytes (RandSeed.fillBytes bytes) := by
  have hlength : (RandSeed.fillBytes bytes).length = 32 := by
    unfold RandSeed.fillBytes
    split_ifs with h
    · rw [List.length_append, List.length_replicate]
      omega
    · rw [List.length_take]
      omega
  have hlt := fromBeBytes_lt (RandSeed.fillBytes bytes)
  rw [hlength] at hlt
  exact Nat.mod_eq_of_lt hlt

/-- Padding changes the number, and so does cutting, unless it is zero. -/
theorem fromBeBytes_fillBytes_eq_iff {bytes : Bytes} (hfits : fromBeBytes bytes < 2 ^ 256) :
    fromBeBytes (RandSeed.fillBytes bytes) = fromBeBytes bytes ↔
      bytes.length = 32 ∨ 32 < bytes.length ∧ fromBeBytes bytes = 0 := by
  unfold RandSeed.fillBytes
  split_ifs with hshort
  · obtain ⟨k, hk⟩ : ∃ k, 32 - bytes.length = k + 1 := ⟨31 - bytes.length, by omega⟩
    -- the last byte of the padding is one
    have hone : fromBeBytes (List.replicate (k + 1) (1 : UInt8)) % 256 = 1 := by
      rw [List.replicate_succ', fromBeBytes_append]
      change (1 + 256 ^ 1 * _) % 256 = 1
      omega
    rw [hk, fromBeBytes_append, List.length_replicate]
    have hle : fromBeBytes bytes ≤ 256 ^ (k + 1) * fromBeBytes bytes :=
      Nat.le_mul_of_pos_left _ (Nat.pow_pos (by decide))
    omega
  · have hsplit := fromBeBytes_append (bytes.take 32) (bytes.drop 32)
    rw [List.take_append_drop, List.length_drop] at hsplit
    rcases Nat.eq_or_lt_of_le (Nat.le_of_not_lt hshort) with heq | hlong
    · rw [← heq, List.take_of_length_le (by omega)]
      simp
    · obtain ⟨k, hk⟩ : ∃ k, bytes.length - 32 = k + 1 := ⟨bytes.length - 33, by omega⟩
      have hpow : 256 ≤ 256 ^ (k + 1) := Nat.le_self_pow (by omega) 256
      have hge : 256 * fromBeBytes (bytes.take 32) ≤
          256 ^ (k + 1) * fromBeBytes (bytes.take 32) := Nat.mul_le_mul_right _ hpow
      rw [hk] at hsplit
      constructor
      · intro heq
        exact Or.inr ⟨hlong, by omega⟩
      · rintro (h | ⟨-, hzero⟩)
        · omega
        · omega

theorem ofNat_eq_seedFromBytes_iff {bytes : Bytes} {n : Nat} (hfits : n < 2 ^ 256) :
    ((some n).map (BitVec.ofNat 256)).map RandSeed.mk = some (RandSeed.seedFromBytes bytes) ↔
      fromBeBytes (RandSeed.fillBytes bytes) = n := by
  have hn : (BitVec.ofNat 256 n).toNat = n := Nat.mod_eq_of_lt hfits
  rw [← seedFromBytes_toNat, Option.map_some, Option.map_some, Option.some.injEq]
  constructor
  · intro h
    rw [← h, hn]
  · intro h
    have heq : BitVec.ofNat 256 n = (RandSeed.seedFromBytes bytes).asU256 :=
      BitVec.eq_of_toNat_eq (hn.trans h.symm)
    rw [heq]

theorem underscore_notMem_trim {content : Text} {bytes : Bytes}
    (h : hexDecode (trim content) = some bytes) : '_' ∉ trim content := by
  intro hmem
  unfold hexDecode stripHexPrefix at h
  split at h
  · next rest heq =>
    rw [heq] at hmem
    have hrest : '_' ∈ rest := by simpa using hmem
    exact absurd (isHexDigit_of_decodePairs h hrest) (by decide)
  · exact absurd (isHexDigit_of_decodePairs h hmem) (by decide)

/-- The admin commands and the spammer draw on the same seed exactly when the file holds
nothing but hexadecimal digits, 64 of them or more zeros than that. -/
theorem sameSeed_iff {content : Text} {bytes random : Bytes}
    (h : readSeedFile (some content) = .ok bytes) :
    RandSeed.seedFromStr (loadSeedfile random (some content)) =
        some (RandSeed.seedFromBytes bytes) ↔
      (∀ c ∈ content, c.IsHexDigit) ∧
        (content.length = 64 ∨ 64 < content.length ∧ ∀ c ∈ content, c = '0') := by
  obtain ⟨hdecode, hne⟩ := readSeedFile_eq_ok h
  have hstr : RandSeed.seedFromStr (loadSeedfile random (some content)) =
      ((content.foldlM (pushDigit 16) 0).map (BitVec.ofNat 256)).map RandSeed.mk := rfl
  by_cases hdigits : ∀ c ∈ content, c.IsHexDigit
  · -- both read the same digits
    rw [trim_eq_self fun c hc => isWhiteSpace_of_isHexDigit (hdigits c hc), hexDecode,
      stripHexPrefix_of_isHexDigit hdigits] at hdecode
    obtain ⟨hnumber, hlength⟩ := hexNumber?_of_decodePairs hdecode
    rw [hstr, foldlM_pushDigit hnumber (by decide), Nat.mul_zero, Nat.add_zero,
      ← List.hexNumber?_eq_zero, hnumber, Option.some.injEq]
    rw [and_iff_right hdigits]
    by_cases hfits : fromBeBytes bytes < 2 ^ 256
    · rw [if_pos hfits, ofNat_eq_seedFromBytes_iff hfits, fromBeBytes_fillBytes_eq_iff hfits]
      omega
    · have hlt := List.hexNumber?_lt hnumber
      rw [if_neg hfits]
      refine iff_of_false (by simp) ?_
      rintro (hlen | ⟨-, hzero⟩)
      · rw [hlen] at hlt
        omega
      · omega
  · refine iff_of_false (fun heq => ?_) fun h => hdigits h.1
    rw [hstr, Option.map_map, Option.map_eq_some_iff] at heq
    obtain ⟨m, hm, -⟩ := heq
    push Not at hdigits
    obtain ⟨c, hc, hnot⟩ := hdigits
    obtain rfl : c = '_' := (isHexDigit_of_foldlM hm hc).resolve_left hnot
    exact underscore_notMem_trim hdecode ((mem_trim_or hc).resolve_left (by decide))

/-- A file as the program writes it. -/
theorem sameSeed_of_written :
    readSeedFile (some (List.replicate 64 'a')) = .ok (List.replicate 32 0xaa) ∧
      RandSeed.seedFromStr (loadSeedfile [] (some (List.replicate 64 'a'))) =
        some (RandSeed.seedFromBytes (List.replicate 32 0xaa)) := by
  have hread : readSeedFile (some (List.replicate 64 'a')) = .ok (List.replicate 32 0xaa) := by
    decide +kernel
  refine ⟨hread, (sameSeed_iff hread).mpr ⟨fun c hc => ?_, Or.inl (List.length_replicate ..)⟩⟩
  rw [List.eq_of_mem_replicate hc]
  decide

/-- A file of one byte: padded on one side, and on the other. -/
theorem not_sameSeed_of_short :
    readSeedFile (some ['0', '1']) = .ok [1] ∧
      RandSeed.seedFromStr (loadSeedfile [] (some ['0', '1'])) = some ⟨1⟩ ∧
      RandSeed.seedFromStr (loadSeedfile [] (some ['0', '1'])) ≠
        some (RandSeed.seedFromBytes [1]) := by
  decide +kernel

end Contender
