import Contender.Generator.FuzzBounds

/-!
# The values of the fuzz map

`create_fuzz_map` draws as many values for each entry as the plan has requests. The
one map of a plan therefore holds a list of that length under every key it has, and
the list was drawn for the last of the entries with that key: from the seed of the key,
between the bounds of the entry.
-/

namespace Contender.Generator

variable {g : Generator}

/-- The values are the first `numValues` that the seed of `key` gives between the
bounds of the entry. -/
structure DrawnFor (g : Generator) (numValues : Nat) (key : Text) (fuzz : FuzzParam)
    (values : List U256) : Prop where
  mapKey : fuzz.mapKey = .ok key
  admissible : RandSeed.lower fuzz.min < RandSeed.upper fuzz.max
  values : ∃ base, g.baseSeed = some base ∧
    values = (List.range numValues).map
      ((g.paramSeed base key).seedValue g.foreign.keccak256 fuzz.min fuzz.max)

/-- Every list of the map was drawn for one of the entries. -/
def ValuesOf (g : Generator) (numValues : Nat) (fuzzes : List FuzzParam) (fuzzMap : FuzzMap) :
    Prop :=
  ∀ key values, fuzzMap.lookup key = some values →
    ∃ fuzz ∈ fuzzes, DrawnFor g numValues key fuzz values

/-- The entry that decides on the values of a key: the last one. -/
def lastEntry (fuzzes : List FuzzParam) (key : Text) : Option FuzzParam :=
  fuzzes.reverse.find? fun fuzz => fuzz.mapKey = .ok key

/-- The value that a seed yields at an index, between the bounds of the entry. -/
def entryValue (g : Generator) (base : U256) (key : Text) (fuzz : FuzzParam) (i : Nat) : U256 :=
  (g.paramSeed base key).seedValue g.foreign.keccak256 fuzz.min fuzz.max i

theorem lastEntry_append (fuzzes fuzzes' : List FuzzParam) (key : Text) :
    lastEntry (fuzzes ++ fuzzes') key = (lastEntry fuzzes' key).or (lastEntry fuzzes key) := by
  rw [lastEntry, List.reverse_append, List.find?_append]
  rfl

/-- Every entry has bounds to draw between, and the map holds the values of the last entry
of each key. -/
structure HoldsLast (g : Generator) (base : U256) (numValues : Nat) (fuzzes : List FuzzParam)
    (fuzzMap : FuzzMap) : Prop where
  admissible : ∀ fuzz ∈ fuzzes, RandSeed.lower fuzz.min < RandSeed.upper fuzz.max
  lookup : ∀ key, fuzzMap.lookup key =
    (lastEntry fuzzes key).map fun fuzz => (List.range numValues).map (g.entryValue base key fuzz)

namespace HoldsLast

variable {base : U256} {numValues : Nat} {fuzzes fuzzes' : List FuzzParam}

theorem empty : HoldsLast g base numValues [] ∅ :=
  ⟨fun _ h => absurd h List.not_mem_nil, fun _ => rfl⟩

theorem insertFuzz {fuzzMap fuzzMap' : FuzzMap} {fuzz : FuzzParam}
    (hlast : HoldsLast g base numValues fuzzes fuzzMap)
    (h : g.insertFuzz base numValues fuzzMap fuzz = .ok fuzzMap') :
    HoldsLast g base numValues (fuzzes ++ [fuzz]) fuzzMap' := by
  simp only [Generator.insertFuzz, Except.bind_eq_ok_iff, orError_eq_ok,
    Except.pure_eq_ok_iff] at h
  obtain ⟨key, hkey, drawn, hdrawn, rfl⟩ := h
  obtain ⟨hlt, rfl⟩ := RandSeed.seedValues_eq_some hdrawn
  refine ⟨fun fuzz' hmem => ?_, fun key' => ?_⟩
  · rcases List.mem_append.mp hmem with hmem | hmem
    · exact hlast.admissible fuzz' hmem
    · obtain rfl := List.mem_singleton.mp hmem
      exact hlt
  rw [lastEntry_append]
  by_cases hsame : key' = key
  · -- the new values replace those of the key before
    subst hsame
    have hthis : lastEntry [fuzz] key' = some fuzz :=
      List.find?_cons_of_pos (by simpa using hkey)
    rw [AList.lookup_insert, hthis]
    rfl
  -- the entry has no say in another key
  · have hother : lastEntry [fuzz] key' = none := by
      apply List.find?_cons_of_neg
      simpa [hkey] using Ne.symm hsame
    rw [AList.lookup_insert_ne hsame, hother]
    exact hlast.lookup key'

theorem extend {canonical new : FuzzMap} (hcanonical : HoldsLast g base numValues fuzzes canonical)
    (hnew : HoldsLast g base numValues fuzzes' new) :
    HoldsLast g base numValues (fuzzes ++ fuzzes') (Generator.extend canonical new) := by
  refine ⟨fun fuzz hmem => ?_, fun key => ?_⟩
  · exact (List.mem_append.mp hmem).elim (hcanonical.admissible fuzz) (hnew.admissible fuzz)
  · rw [lookup_extend, hnew.lookup key, hcanonical.lookup key, lastEntry_append]
    cases lastEntry fuzzes' key <;> rfl

theorem collectCall (hbase : g.baseSeed = some base) {calls : List FunctionCallDefinition}
    {call : FunctionCallDefinition} {maps maps' : AssocMap Text Text × FuzzMap}
    (hlast : HoldsLast g base numValues (calls.flatMap callFuzz) maps.2)
    (h : g.collectCall numValues maps call = .ok maps') :
    HoldsLast g base numValues ((calls ++ [call]).flatMap callFuzz) maps'.2 := by
  simp only [Generator.collectCall, createFuzzMap, hbase, Except.bind_eq_ok_iff, orError_eq_ok,
    Option.some.injEq, Except.pure_eq_ok_iff] at h
  obtain ⟨_, -, fuzzMap, ⟨_, rfl, hfuzz⟩, rfl⟩ := h
  rw [List.flatMap_append, List.flatMap_singleton]
  -- the call has a map of its own, which is then merged
  exact hlast.extend
    (List.foldlM_ok_invariant (fun _ _ _ _ hdone hstep => hdone.insertFuzz hstep) empty hfuzz)

/-- What the map of a whole plan holds. -/
theorem collectMaps (hbase : g.baseSeed = some base) {placeholderMap : AssocMap Text Text}
    {fuzzMap : FuzzMap} (h : g.collectMaps numValues = .ok (placeholderMap, fuzzMap)) :
    HoldsLast g base numValues g.planFuzz fuzzMap := by
  have hstart : HoldsLast g base numValues (([] : List FunctionCallDefinition).flatMap callFuzz)
      (g.env, (∅ : FuzzMap)).2 := empty
  exact List.foldlM_ok_invariant
    (p := fun calls (maps : AssocMap Text Text × FuzzMap) =>
      HoldsLast g base numValues (calls.flatMap callFuzz) maps.2)
    (fun _ _ _ _ hdone hstep => hdone.collectCall hbase hstep) hstart h

end HoldsLast

theorem exists_baseSeed (g : Generator) : ∃ base, g.baseSeed = some base := by
  have hlt : RandSeed.lower none < RandSeed.upper none := by decide
  exact ⟨_, by rw [baseSeed, RandSeed.seedValues, if_pos hlt]; rfl⟩

theorem ValuesOf.collectMaps {numValues : Nat} {placeholderMap : AssocMap Text Text}
    {fuzzMap : FuzzMap} (h : g.collectMaps numValues = .ok (placeholderMap, fuzzMap)) :
    ValuesOf g numValues g.planFuzz fuzzMap := by
  obtain ⟨base, hbase⟩ := exists_baseSeed g
  have hlast := HoldsLast.collectMaps hbase h
  intro key values hvalues
  rw [hlast.lookup key, Option.map_eq_some_iff] at hvalues
  obtain ⟨fuzz, hfuzz, rfl⟩ := hvalues
  have hmem : fuzz ∈ g.planFuzz := List.mem_reverse.mp (List.mem_of_find?_eq_some hfuzz)
  have hkey : fuzz.mapKey = .ok key := by simpa using List.find?_some hfuzz
  exact ⟨fuzz, hmem, hkey, hlast.admissible fuzz hmem, base, hbase, rfl⟩

namespace DrawnFor

variable {numValues : Nat} {key : Text} {fuzz : FuzzParam} {values : List U256}

theorem length_eq (h : DrawnFor g numValues key fuzz values) : values.length = numValues := by
  obtain ⟨base, -, rfl⟩ := h.values
  simp

/-- The value at an index of the list, which is drawn between the bounds. -/
theorem getElem?_eq_some (h : DrawnFor g numValues key fuzz values) {i : Nat} {v : U256}
    (hv : values[i]? = some v) :
    i < numValues ∧ ∃ base, g.baseSeed = some base ∧
      v = (g.paramSeed base key).seedValue g.foreign.keccak256 fuzz.min fuzz.max i := by
  obtain ⟨base, hbase, rfl⟩ := h.values
  rw [List.getElem?_map, Option.map_eq_some_iff] at hv
  obtain ⟨j, hj, rfl⟩ := hv
  obtain ⟨hlt, hget⟩ := List.getElem?_eq_some_iff.mp hj
  rw [List.length_range] at hlt
  rw [List.getElem_range] at hget
  subst hget
  exact ⟨hlt, base, hbase, rfl⟩

end DrawnFor

end Contender.Generator
