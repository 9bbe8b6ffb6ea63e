import Contender.Data.Replacement
import Contender.Generator.Templater

/-!
# The order of the placeholders

`replace_placeholders` replaces the entries of a hash map one after another, in the
iteration order of the map, and each replacement reads what the ones before it put in.
The result is the text with every placeholder replaced by its value, whatever the order,
exactly when no value overlaps the placeholder of another key.
-/

namespace Contender

/-- The placeholders of a map with their values. -/
def placeholderEntries (placeholderMap : AssocMap Text Text) : List (Text × Text) :=
  placeholderMap.entries.map fun entry => (placeholder entry.1, entry.2)

/-- In every iteration order the result is the same: the text with each occurrence of a
placeholder replaced by its value. -/
def OrderFree (placeholderMap : AssocMap Text Text) : Prop :=
  ∀ input, ∃ output, List.EachReplaced (placeholderEntries placeholderMap) input output ∧
    ∀ order : AssocMap Text Text, order.entries.Perm placeholderMap.entries →
      replacePlaceholders order input = output

/-- No two placeholders overlap, and no value overlaps the placeholder of another key.
A key whose value is its own placeholder is exempt. For keys without braces only the values
matter (`unmixed_of_braceFree`). -/
structure Unmixed (placeholderMap : AssocMap Text Text) : Prop where
  placeholders : ∀ key ∈ placeholderMap, ∀ other ∈ placeholderMap,
    ∀ d < (placeholder key).length,
      List.Comparable ((placeholder key).drop d) (placeholder other) → d = 0 ∧ key = other
  values : ∀ key value, placeholderMap.lookup key = some value →
    ∀ other own, placeholderMap.lookup other = some own → key ≠ other →
      own = placeholder other ∨ ¬List.Meets value (placeholder other)

theorem placeholder_injective : Function.Injective placeholder := by
  intro key other h
  simpa [placeholder] using h

theorem placeholder_ne_nil (key : Text) : placeholder key ≠ [] := by simp [placeholder]

section Entries

variable {placeholderMap : AssocMap Text Text}

theorem mem_placeholderEntries {e : Text × Text} :
    e ∈ placeholderEntries placeholderMap ↔
      ∃ key, placeholderMap.lookup key = some e.2 ∧ e.1 = placeholder key := by
  constructor
  · intro h
    obtain ⟨entry, hentry, rfl⟩ := List.mem_map.mp h
    exact ⟨entry.1, AList.mem_lookup_iff.mpr hentry, rfl⟩
  · rintro ⟨key, hlookup, hpat⟩
    exact List.mem_map.mpr ⟨⟨key, e.2⟩, AList.mem_lookup_iff.mp hlookup, by simp [← hpat]⟩

theorem nodup_placeholderEntries (placeholderMap : AssocMap Text Text) :
    ((placeholderEntries placeholderMap).map Prod.fst).Nodup := by
  have hkeys : (placeholderMap.entries.map Sigma.fst).Nodup := placeholderMap.nodupKeys
  have hpatterns : (placeholderEntries placeholderMap).map Prod.fst =
      (placeholderMap.entries.map Sigma.fst).map placeholder := by
    simp [placeholderEntries, Function.comp_def]
  rw [hpatterns]
  exact hkeys.map placeholder_injective

theorem placeholderEntries_ne_nil : ∀ e ∈ placeholderEntries placeholderMap, e.1 ≠ [] := by
  intro e he
  obtain ⟨key, -, hpat⟩ := mem_placeholderEntries.mp he
  exact hpat ▸ placeholder_ne_nil key

theorem replacePlaceholders_eq (placeholderMap : AssocMap Text Text) (input : Text) :
    replacePlaceholders placeholderMap input =
      input.replaceInTurn (placeholderEntries placeholderMap) := by
  rw [List.replaceInTurn, placeholderEntries, List.foldl_map]
  rfl

/-- The entry of a map that a placeholder and its value come from. -/
def entryOf (e : Text × Text) : (_ : Text) × Text := ⟨e.1.tail.dropLast, e.2⟩

theorem entryOf_placeholder (key value : Text) :
    entryOf (placeholder key, value) = ⟨key, value⟩ := by
  simp [entryOf, placeholder]

/-- Every order of the placeholders comes from an order of the map. -/
theorem exists_order {entries : List (Text × Text)}
    (hperm : entries.Perm (placeholderEntries placeholderMap)) :
    ∃ order : AssocMap Text Text, order.entries.Perm placeholderMap.entries ∧
      placeholderEntries order = entries := by
  have hback : (placeholderEntries placeholderMap).map entryOf = placeholderMap.entries := by
    simp [placeholderEntries, Function.comp_def, entryOf_placeholder]
  have horder : (entries.map entryOf).Perm placeholderMap.entries := hback ▸ hperm.map entryOf
  refine ⟨⟨entries.map entryOf, ?_⟩, horder, ?_⟩
  · exact (List.perm_nodupKeys horder).mpr placeholderMap.nodupKeys
  · rw [placeholderEntries, List.map_map]
    refine (List.map_congr_left fun e he => ?_).trans (List.map_id entries)
    obtain ⟨key, -, hpat⟩ := mem_placeholderEntries.mp (hperm.subset he)
    obtain ⟨pat, value⟩ := e
    obtain rfl : pat = placeholder key := hpat
    simp [entryOf_placeholder]

theorem separated_iff_unmixed :
    List.Separated (placeholderEntries placeholderMap) ↔ Unmixed placeholderMap := by
  constructor
  · intro h
    have hentry : ∀ key value, placeholderMap.lookup key = some value →
        (placeholder key, value) ∈ placeholderEntries placeholderMap := fun key value hlookup =>
      mem_placeholderEntries.mpr ⟨key, hlookup, rfl⟩
    refine ⟨fun key hkey other hother d hd hcomparable => ?_,
      fun key value hlookup other own hother hne => ?_⟩
    · obtain ⟨value, hvalue⟩ := AList.mem_iff_lookup.mp hkey
      obtain ⟨own, hown⟩ := AList.mem_iff_lookup.mp hother
      obtain ⟨hzero, heq⟩ :=
        h.overlap _ (hentry key value hvalue) _ (hentry other own hown) d hd hcomparable
      exact ⟨hzero, placeholder_injective (Prod.mk.inj heq).1⟩
    · refine h.values _ (hentry key value hlookup) _ (hentry other own hother) fun heq => ?_
      exact hne (placeholder_injective (Prod.mk.inj heq).1)
  · intro h
    refine { nodup := nodup_placeholderEntries placeholderMap, ne_nil := placeholderEntries_ne_nil,
             overlap := fun e he f hf d hd hcomparable => ?_,
             values := fun e he f hf hne => ?_ }
    · obtain ⟨key, hkey, hpat⟩ := mem_placeholderEntries.mp he
      obtain ⟨other, hother, hpat'⟩ := mem_placeholderEntries.mp hf
      rw [hpat] at hd
      rw [hpat, hpat'] at hcomparable
      obtain ⟨hzero, rfl⟩ := h.placeholders key (AList.mem_iff_lookup.mpr ⟨_, hkey⟩) other
        (AList.mem_iff_lookup.mpr ⟨_, hother⟩) d hd hcomparable
      exact ⟨hzero, Prod.ext (hpat.trans hpat'.symm) (Option.some.inj (hkey.symm.trans hother))⟩
    · obtain ⟨key, hkey, hpat⟩ := mem_placeholderEntries.mp he
      obtain ⟨other, hother, hpat'⟩ := mem_placeholderEntries.mp hf
      rw [hpat']
      refine h.values key e.2 hkey other f.2 hother ?_
      rintro rfl
      exact hne (Prod.ext (hpat.trans hpat'.symm) (Option.some.inj (hkey.symm.trans hother)))

end Entries

/-- **Templating and the order of the map.** Every text is templated alike in every
iteration order, with each occurrence of a placeholder replaced, exactly when no
placeholders overlap and no value overlaps the placeholder of another key. -/
theorem orderFree_iff_unmixed (placeholderMap : AssocMap Text Text) :
    OrderFree placeholderMap ↔ Unmixed placeholderMap := by
  rw [← separated_iff_unmixed, ← List.eachReplaced_iff_separated
    (nodup_placeholderEntries placeholderMap) placeholderEntries_ne_nil]
  refine forall_congr' fun input => exists_congr fun output => and_congr_right fun _ => ?_
  constructor
  · intro h entries hperm
    obtain ⟨order, horder, rfl⟩ := exists_order hperm
    rw [← replacePlaceholders_eq, h order horder]
  · intro h order horder
    rw [replacePlaceholders_eq]
    exact h (placeholderEntries order) (horder.map _)

section BraceFree

variable {key other : Text}

/-- The closing brace ends the key. -/
theorem eq_of_prefix_closed (hkey : '}' ∉ key) (hother : '}' ∉ other)
    (h : key ++ ['}'] <+: other ++ ['}']) : key = other := by
  have htake : ∀ {k : Text}, '}' ∉ k → ∀ t, (k ++ '}' :: t).takeWhile (· ≠ '}') = k := by
    intro k hk t
    have hall : ∀ c ∈ k, decide (c ≠ '}') = true := by
      rintro c hc
      simpa using ne_of_mem_of_not_mem hc hk
    rw [List.takeWhile_append_of_pos hall]
    simp
  obtain ⟨t, ht⟩ := h
  rw [List.append_assoc, List.singleton_append] at ht
  rw [← htake hkey t, ht, htake hother []]

/-- The placeholders of keys without braces do not overlap. -/
theorem eq_of_comparable_placeholders (hopen : '{' ∉ key) (hkey : '}' ∉ key)
    (hother : '}' ∉ other) {d : Nat} (hd : d < (placeholder key).length)
    (h : List.Comparable ((placeholder key).drop d) (placeholder other)) :
    d = 0 ∧ key = other := by
  cases d with
  | zero =>
    refine ⟨rfl, ?_⟩
    rcases h with h | h
    · exact eq_of_prefix_closed hkey hother (List.cons_prefix_cons.mp h).2
    · exact (eq_of_prefix_closed hother hkey (List.cons_prefix_cons.mp h).2).symm
  | succ d =>
    -- what is left of the placeholder would begin with an opening brace
    have hne : (key ++ ['}']).drop d ≠ [] := by
      simpa [List.drop_eq_nil_iff, placeholder] using hd
    obtain ⟨c, rest, hrest⟩ := List.exists_cons_of_ne_nil hne
    have hmem : c ∈ key ++ ['}'] := List.mem_of_mem_drop (hrest ▸ List.mem_cons_self)
    have hc : c = '{' := by
      rw [placeholder, List.drop_succ_cons, hrest, placeholder] at h
      rcases h with h | h
      · exact (List.cons_prefix_cons.mp h).1
      · exact (List.cons_prefix_cons.mp h).1.symm
    rw [hc] at hmem
    simp [hopen] at hmem

/-- For keys without braces only the values matter. -/
theorem unmixed_of_braceFree {placeholderMap : AssocMap Text Text}
    (hkeys : ∀ key ∈ placeholderMap, '{' ∉ key ∧ '}' ∉ key)
    (hvalues : ∀ key value, placeholderMap.lookup key = some value →
      ∀ other own, placeholderMap.lookup other = some own → key ≠ other →
        own = placeholder other ∨ ¬List.Meets value (placeholder other)) :
    Unmixed placeholderMap where
  placeholders := fun key hkey other hother _ hd h =>
    eq_of_comparable_placeholders (hkeys key hkey).1 (hkeys key hkey).2 (hkeys other hother).2 hd h
  values := hvalues

end BraceFree

/-! ### Two keys -/

namespace NestedKeys

def first : AssocMap Text Text := AList.insert ['a'] "{b}".toList (AList.insert ['b'] ['X'] ∅)

def second : AssocMap Text Text := AList.insert ['b'] ['X'] (AList.insert ['a'] "{b}".toList ∅)

/-- The value of `a` is the placeholder of `b`. Whether it is replaced as well depends on
the order. -/
theorem not_orderFree :
    second.entries.Perm first.entries ∧ replacePlaceholders first "{a}".toList = ['X'] ∧
      replacePlaceholders second "{a}".toList = "{b}".toList ∧ ¬OrderFree first := by
  have hperm : second.entries.Perm first.entries := List.Perm.swap _ _ _
  have hfirst : replacePlaceholders first "{a}".toList = ['X'] := by decide
  have hsecond : replacePlaceholders second "{a}".toList = "{b}".toList := by decide
  refine ⟨hperm, hfirst, hsecond, fun h => ?_⟩
  obtain ⟨output, -, horders⟩ := h "{a}".toList
  have heq := (horders first (.refl _)).trans (horders second hperm).symm
  rw [hfirst, hsecond] at heq
  exact absurd heq (by decide)

end NestedKeys

end Contender
