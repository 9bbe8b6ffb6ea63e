import Contender.Data.Hex
import Contender.Generator.FuzzValues

/-!
# Fuzzed addresses

`get_fuzzed_args` writes the fuzzed value of an address as `0x` and its hexadecimal
digits, padded to forty. The width is a minimum, and nothing cuts the value to the
160 bits of an address: a larger value gets more digits, which the ABI does not take
for an address.
-/

namespace Contender

/-- The text is `0x` and the forty hexadecimal digits of the low 160 bits of a
value. -/
def WritesAddress (v : U256) (text : Text) : Prop :=
  ∃ digits, text = '0' :: 'x' :: digits ∧ digits.length = 40 ∧
    digits.hexNumber? = some (v.toNat % 2 ^ 160)

/-- The type of an address, in a signature. -/
def addressType : Text := "address".toList

/-- How the ABI reads texts: a call is encoded when every argument is accepted for its
input, and for an address forty hexadecimal digits are, with or without `0x`. -/
structure Foreign.Coerces (foreign : Foreign) (accepts : Text → Text → Prop) : Prop where
  encodeInput : ∀ func args, List.Forall₂ accepts func.inputs args →
    ∃ bytes, foreign.encodeInput func args = .ok bytes
  address : ∀ input name text, Generator.namedInput input = some (addressType, name) →
    (accepts input text ↔
      (stripHexPrefix text).length = 40 ∧ ∀ c ∈ stripHexPrefix text, c.IsHexDigit)

theorem Foreign.Coerces.encodeCalldata {foreign : Foreign} {accepts : Text → Text → Prop}
    (hcoerces : foreign.Coerces accepts) {sig : Text} {func : AbiFunction} {args : List Text}
    (hfunc : foreign.parseFunction sig = .ok func)
    (hall : List.Forall₂ accepts func.inputs args) :
    ∃ bytes, foreign.encodeCalldata args sig = .ok bytes := by
  obtain ⟨bytes, hbytes⟩ := hcoerces.encodeInput func args hall
  unfold Foreign.encodeCalldata
  split_ifs with hempty
  · exact ⟨[], rfl⟩
  · rw [hfunc]
    exact ⟨bytes, by simp [hall.length_eq, hbytes]⟩

namespace Generator

variable {g : Generator}

theorem fuzzText_address (v : U256) :
    fuzzText addressType v = '0' :: 'x' :: Nat.paddedHex 40 v.toNat := if_pos rfl

/-- The rendering of a value is that of an address exactly when the value is one. -/
theorem writesAddress_fuzzText_iff (v : U256) :
    WritesAddress v (fuzzText addressType v) ↔ v.toNat < 2 ^ 160 := by
  have hpow : (16 : Nat) ^ 40 = 2 ^ 160 := by decide
  rw [fuzzText_address]
  constructor
  · rintro ⟨digits, htext, hlength, -⟩
    obtain rfl : Nat.paddedHex 40 v.toNat = digits := by simpa using htext
    have hlt := List.hexNumber?_lt (Nat.hexNumber?_paddedHex 40 v.toNat)
    rwa [hlength, hpow] at hlt
  · intro hlt
    refine ⟨_, rfl, Nat.length_paddedHex (by decide) (by rwa [hpow]), ?_⟩
    rw [Nat.hexNumber?_paddedHex, Nat.mod_eq_of_lt hlt]

/-- Such a text is accepted for an address. -/
theorem accepts_of_writesAddress {accepts : Text → Text → Prop}
    (hcoerces : g.foreign.Coerces accepts) {input name text : Text} {v : U256}
    (htype : namedInput input = some (addressType, name)) (h : WritesAddress v text) :
    accepts input text := by
  obtain ⟨digits, rfl, hlength, hnumber⟩ := h
  have hdigits : ∀ c ∈ digits, c.IsHexDigit :=
    List.isSome_hexNumber?.mp (by rw [hnumber]; rfl)
  exact (hcoerces.address input name _ htype).mpr ⟨hlength, hdigits⟩

/-- The argument of an address that is fuzzed. -/
theorem fuzzedArg_address {fuzzMap : FuzzMap} {i : Nat} {input name own arg : Text}
    {values : List U256} (htype : namedInput input = some (addressType, name))
    (hvalues : fuzzMap.lookup name = some values) (h : fuzzedArg fuzzMap i input own = .ok arg) :
    ∃ v, values[i]? = some v ∧ arg = fuzzText addressType v := by
  simp only [fuzzedArg, htype, hvalues, Except.map_eq_ok_iff, orError_eq_ok] at h
  obtain ⟨v, hv, rfl⟩ := h
  exact ⟨v, hv, rfl⟩

/-- **Fuzzed addresses.** The argument of a fuzzed address is `0x` and the forty digits
of the low 160 bits of the value drawn for it, and is encoded when the other arguments
are, exactly when the value drawn has no more than 160 bits. -/
theorem fuzzedAddress_iff {accepts : Text → Text → Prop} {numValues i j : Nat}
    {placeholderMap : AssocMap Text Text} {fuzzMap : FuzzMap} {fuzz : FuzzParam}
    {tx : FunctionCallDefinition} {sig input name arg : Text} {func : AbiFunction}
    {args : List Text} (hcoerces : g.foreign.Coerces accepts)
    (hmaps : g.collectMaps numValues = .ok (placeholderMap, fuzzMap))
    (hfuzz : fuzz ∈ g.planFuzz) (hkey : fuzz.mapKey = .ok name)
    (hsig : tx.signature = some sig) (hfunc : g.foreign.parseFunction sig = .ok func)
    (hinput : func.inputs[j]? = some input)
    (htype : namedInput input = some (addressType, name))
    (hargs : g.getFuzzedArgs tx fuzzMap i = .ok args) (harg : args[j]? = some arg) :
    ∃ base entry v, g.baseSeed = some base ∧ entry ∈ g.planFuzz ∧ entry.mapKey = .ok name ∧
      RandSeed.lower entry.min < RandSeed.upper entry.max ∧
      v = (g.paramSeed base name).seedValue g.foreign.keccak256 entry.min entry.max i ∧
      (WritesAddress v arg ∧
          ((∀ k input text, k ≠ j → func.inputs[k]? = some input → args[k]? = some text →
              accepts input text) → func.inputs.length = args.length →
            ∃ bytes, g.foreign.encodeCalldata args sig = .ok bytes) ↔
        v.toNat < 2 ^ 160) := by
  -- the map has a list under the name, drawn for one of the entries
  obtain ⟨key, hin, hkey'⟩ := (drawnFrom_planFuzz hmaps).complete fuzz hfuzz
  obtain rfl : name = key := Except.ok.inj (hkey.symm.trans hkey')
  obtain ⟨values, hvalues⟩ := AList.mem_iff_lookup.mp hin
  obtain ⟨entry, hentry, hdrawn⟩ := ValuesOf.collectMaps hmaps name values hvalues
  obtain ⟨sig', func', input', own, hsig', hfunc', hinput', -, hfuzzed⟩ :=
    getFuzzedArgs_ok hargs harg
  obtain rfl := Option.some.inj (hsig.symm.trans hsig')
  obtain rfl := Except.ok.inj (hfunc.symm.trans hfunc')
  obtain rfl := Option.some.inj (hinput.symm.trans hinput')
  obtain ⟨v, hv, rfl⟩ := fuzzedArg_address htype hvalues hfuzzed
  obtain ⟨-, base, hbase, hseed⟩ := hdrawn.getElem?_eq_some hv
  refine ⟨base, entry, v, hbase, hentry, hdrawn.mapKey, hdrawn.admissible, hseed, ?_⟩
  rw [writesAddress_fuzzText_iff]
  constructor
  · exact fun h => h.1
  · intro hlt
    refine ⟨hlt, fun hothers hlength => hcoerces.encodeCalldata hfunc ?_⟩
    have hown : accepts input (fuzzText addressType v) :=
      accepts_of_writesAddress hcoerces htype ((writesAddress_fuzzText_iff v).mpr hlt)
    refine List.forall₂_iff_get.mpr ⟨hlength, fun k hk hk' => ?_⟩
    by_cases hkj : k = j
    · subst hkj
      obtain ⟨_, hget⟩ := List.getElem?_eq_some_iff.mp hinput
      obtain ⟨_, hget'⟩ := List.getElem?_eq_some_iff.mp harg
      rw [List.get_eq_getElem, List.get_eq_getElem, hget, hget']
      exact hown
    · exact hothers k _ _ hkj (List.getElem?_eq_getElem hk) (List.getElem?_eq_getElem hk')

/-! ### A setter of an address -/

namespace FuzzedSetter

/-- Forty hexadecimal digits, with or without `0x`. -/
def AcceptsAddress (_ text : Text) : Prop :=
  (stripHexPrefix text).length = 40 ∧ ∀ c ∈ stripHexPrefix text, c.IsHexDigit

instance (input text : Text) : Decidable (AcceptsAddress input text) :=
  inferInstanceAs (Decidable (_ ∧ _))

/-- The word of an address. -/
def addressWord (text : Text) : Bytes :=
  beBytes (BitVec.ofNat 256 ((stripHexPrefix text).hexNumber?.getD 0))

/-- The libraries, for one function that takes an address. -/
def foreign : Foreign :=
  { SharedName.foreign with
    parseFunction := fun _ => .ok ⟨["address x".toList]⟩
    encodeInput := fun _ args =>
      if ∀ text ∈ args, AcceptsAddress [] text then
        .ok ([0x28, 0x01, 0x61, 0x7e] ++ args.flatMap addressWord)
      else .error "parser error".toList }

theorem coerces : foreign.Coerces AcceptsAddress := by
  refine ⟨fun func args hall => ⟨_, if_pos fun text hmem => ?_⟩, fun _ _ _ _ => Iff.rfl⟩
  obtain ⟨input, -, haccepts⟩ := hall.exists_of_mem_right hmem
  exact haccepts

def signature : Text := "set(address x)".toList

def call (fuzz : FuzzParam) : FunctionCallDefinition where
  toAddr := SharedName.sender
  fromAddr := some SharedName.sender
  signature := some signature
  args := some [SharedName.sender]
  fuzz := some [fuzz]

def plan (fuzz : FuzzParam) : Generator :=
  { SharedName.plan [call fuzz] with foreign := foreign }

def unbounded : FuzzParam := { param := some ['x'] }

def small : FuzzParam := { param := some ['x'], min := some 0, max := some 1000 }

/-- The value drawn first when there are no bounds. -/
def drawn : U256 := 0x0f240c67957957db90568f0ef780b1f6ff52a9e6acac1ea5dbc18917d98f5265

def values (v : U256) : FuzzMap := AList.insert ['x'] [v] ∅

theorem collectMaps_plan {fuzz : FuzzParam} {v : U256}
    (h : ((plan fuzz).collectMaps 1).map (fun maps => (maps.1.entries, maps.2.entries)) =
      .ok ([], (values v).entries)) : (plan fuzz).collectMaps 1 = .ok (∅, values v) := by
  obtain ⟨⟨placeholderMap, fuzzMap⟩, hmaps, heq⟩ := Except.map_eq_ok_iff.mp h
  obtain ⟨hplaceholders, hvalues⟩ := Prod.mk.inj heq
  have hfuzzMap : fuzzMap = values v := AList.ext hvalues
  have hplaceholderMap : placeholderMap = ∅ := AList.ext hplaceholders
  rw [hmaps, hfuzzMap, hplaceholderMap]

theorem writesAddress_drawn_iff :
    WritesAddress drawn (fuzzText addressType drawn) ↔ drawn.toNat < 2 ^ 160 :=
  writesAddress_fuzzText_iff drawn

/-- Without bounds, the first value drawn has 63 digits. All of them are written, and
the argument is not accepted. -/
theorem not_writesAddress_drawn :
    (plan unbounded).collectMaps 1 = .ok (∅, values drawn) ∧
      (plan unbounded).getFuzzedArgs (call unbounded) (values drawn) 0 =
        .ok ["0xf240c67957957db90568f0ef780b1f6ff52a9e6acac1ea5dbc18917d98f5265".toList] ∧
      ¬WritesAddress drawn
        "0xf240c67957957db90568f0ef780b1f6ff52a9e6acac1ea5dbc18917d98f5265".toList ∧
      foreign.encodeCalldata
          ["0xf240c67957957db90568f0ef780b1f6ff52a9e6acac1ea5dbc18917d98f5265".toList] signature =
        .error (.encodeFunctionArgsFailed "parser error".toList) := by
  refine ⟨collectMaps_plan (by decide +kernel), by decide +kernel, ?_, by decide +kernel⟩
  have htext : "0xf240c67957957db90568f0ef780b1f6ff52a9e6acac1ea5dbc18917d98f5265".toList =
      fuzzText addressType drawn := by decide +kernel
  rw [htext, writesAddress_drawn_iff]
  decide +kernel

/-- Below a thousand, the value drawn is 317 and has its forty digits. -/
theorem writesAddress_small :
    (plan small).collectMaps 1 = .ok (∅, values 317) ∧
      ∃ v arg, (plan small).getFuzzedArgs (call small) (values 317) 0 = .ok [arg] ∧
        WritesAddress v arg ∧ ∃ bytes, foreign.encodeCalldata [arg] signature = .ok bytes := by
  have hmaps : (plan small).collectMaps 1 = .ok (∅, values 317) :=
    collectMaps_plan (by decide +kernel)
  have hargs : (plan small).getFuzzedArgs (call small) (values 317) 0 =
      .ok [fuzzText addressType 317] := by
    decide +kernel
  have hcoerces : (plan small).foreign.Coerces AcceptsAddress := coerces
  have hfuzz : small ∈ (plan small).planFuzz := by decide +kernel
  have hkey : small.mapKey = .ok ['x'] := rfl
  obtain ⟨base, entry, v, hbase, hentry, -, -, hv, hiff⟩ :=
    fuzzedAddress_iff (j := 0) hcoerces hmaps hfuzz hkey rfl rfl rfl (by decide +kernel) hargs rfl
  have hsmall : v.toNat < 2 ^ 160 := by
    obtain rfl : entry = small := by
      have hall : ∀ e ∈ (plan small).planFuzz, e = small := by decide +kernel
      exact hall entry hentry
    have hbounds : RandSeed.lower small.min < RandSeed.upper small.max := by decide
    have hbound : v < RandSeed.upper small.max := hv ▸ (RandSeed.seedValue_mem_range hbounds 0).2
    rw [BitVec.lt_def] at hbound
    have hupper : (RandSeed.upper small.max).toNat < 2 ^ 160 := by decide
    omega
  obtain ⟨hwrites, hencodes⟩ := hiff.mpr hsmall
  refine ⟨hmaps, v, _, hargs, hwrites, hencodes (fun k input text hk hinput => ?_) rfl⟩
  cases k with
  | zero => exact absurd rfl hk
  | succ k => simp at hinput

end FuzzedSetter

end Generator

end Contender
