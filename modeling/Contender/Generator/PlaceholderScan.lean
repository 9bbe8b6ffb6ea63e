import Contender.Data.Traverse
import Contender.Generator.Templater

/-!
# Scanning for placeholders

`find_placeholder_values` looks for the first opening and the first closing brace of
what is left of an argument, takes what is between them for a key, and goes on after
the closing brace. When it succeeds it has found every placeholder. A closing brace that
comes before the next opening one makes the slice between them panic.
-/

namespace Contender

def BraceFree (text : Text) : Prop := '{' ∉ text ∧ '}' ∉ text

instance (text : Text) : Decidable (BraceFree text) := inferInstanceAs (Decidable (_ ∧ _))

/-- A closing brace stands outside of every group of braces and an opening one comes
after it, and the groups before it have keys that `found` accepts. A group ends at the
first closing brace. -/
inductive Stray (found : Text → Prop) : Text → Prop
  | here {gap rest : Text} (hgap : BraceFree gap) (hrest : '{' ∈ rest) :
      Stray found (gap ++ '}' :: rest)
  | group {gap key rest : Text} (hgap : BraceFree gap) (hkey : '}' ∉ key) (hfound : found key)
      (hrest : Stray found rest) : Stray found (gap ++ '{' :: (key ++ '}' :: rest))

/-! ### The first braces of a text -/

section FirstBraces

variable {gap gap' key rest rest' input : Text} {c : Char}

/-- The part of a text before the first occurrence of a character is determined. -/
theorem eq_of_append_first (hgap : c ∉ gap) (hgap' : c ∉ gap')
    (h : gap ++ c :: rest = gap' ++ c :: rest') : gap = gap' ∧ rest = rest' := by
  induction gap generalizing gap' with
  | nil =>
    cases gap' with
    | nil => simpa using h
    | cons d gap' =>
      obtain ⟨rfl, -⟩ := List.cons.inj h
      exact absurd List.mem_cons_self hgap'
  | cons d gap ih =>
    cases gap' with
    | nil =>
      obtain ⟨rfl, -⟩ := List.cons.inj h
      exact absurd List.mem_cons_self hgap
    | cons d' gap' =>
      obtain ⟨rfl, htail⟩ := List.cons.inj h
      obtain ⟨rfl, rfl⟩ := ih (List.not_mem_of_not_mem_cons hgap)
        (List.not_mem_of_not_mem_cons hgap') htail
      exact ⟨rfl, rfl⟩

/-- Whatever comes first: no pair of braces, a closing brace, or a group. -/
theorem braces_cases (input : Text) :
    ('{' ∉ input ∨ '}' ∉ input) ∨
      (∃ gap rest, BraceFree gap ∧ '{' ∈ rest ∧ input = gap ++ '}' :: rest) ∨
      ∃ gap key rest, BraceFree gap ∧ '}' ∉ key ∧ input = gap ++ '{' :: (key ++ '}' :: rest) := by
  by_cases hopen : '{' ∉ input
  · exact .inl (.inl hopen)
  by_cases hclose : '}' ∉ input
  · exact .inl (.inr hclose)
  obtain ⟨before, rest, rfl, hbefore⟩ := List.eq_append_cons_of_mem (not_not.mp hclose)
  by_cases hin : '{' ∈ before
  · obtain ⟨gap, key, rfl, hgap⟩ := List.eq_append_cons_of_mem hin
    simp only [List.mem_append, List.mem_cons, not_or] at hbefore
    exact .inr (.inr ⟨gap, key, rest, ⟨hgap, hbefore.1⟩, hbefore.2.2, by simp⟩)
  · refine .inr (.inl ⟨before, rest, ⟨hin, hbefore⟩, ?_, rfl⟩)
    simpa [hin] using hopen

theorem findIdx?_append_first (hgap : c ∉ gap) (rest : Text) :
    (gap ++ c :: rest).findIdx? (· = c) = some gap.length := by
  have hnone : gap.findIdx? (· = c) = none := by
    rw [List.findIdx?_eq_none_iff]
    intro d hd
    simpa using ne_of_mem_of_not_mem hd hgap
  simp [List.findIdx?_append, hnone, List.findIdx?_cons]

theorem findIdx?_of_notMem (h : c ∉ input) : input.findIdx? (· = c) = none := by
  rw [List.findIdx?_eq_none_iff]
  intro d hd
  simpa using ne_of_mem_of_not_mem hd h

theorem findKey_none (h : '{' ∉ input ∨ '}' ∉ input) : findKey input = .ok none := by
  unfold findKey
  rcases h with h | h
  · rw [findIdx?_of_notMem h]
  · rw [findIdx?_of_notMem h]
    split
    · rename_i hstop
      cases hstop
    · rfl

theorem findKey_stray (hgap : BraceFree gap) (hrest : '{' ∈ rest) :
    findKey (gap ++ '}' :: rest) = .error .panic := by
  obtain ⟨before, after, rfl, hbefore⟩ := List.eq_append_cons_of_mem hrest
  have hopen : '{' ∉ gap ++ '}' :: before := by simp [hgap.1, hbefore]
  have hstart := findIdx?_append_first hopen after
  rw [List.append_assoc, List.cons_append] at hstart
  have hlong : ¬(gap ++ '}' :: before).length + 1 ≤ gap.length := by
    rw [List.length_append]
    omega
  rw [findKey, hstart, findIdx?_append_first hgap.2]
  simp only [if_neg hlong]

theorem findKey_group (hgap : BraceFree gap) (hkey : '}' ∉ key) (rest : Text) :
    findKey (gap ++ '{' :: (key ++ '}' :: rest)) =
      .ok (some (key, gap.length + key.length + 1)) := by
  have hclose : '}' ∉ gap ++ '{' :: key := by simp [hgap.2, hkey]
  have hstop := findIdx?_append_first hclose rest
  rw [List.append_assoc, List.cons_append] at hstop
  rw [findKey, findIdx?_append_first hgap.1, hstop]
  have hlength : (gap ++ '{' :: key).length = gap.length + key.length + 1 := by
    rw [List.length_append, List.length_cons, Nat.add_assoc]
  have hle : gap.length + 1 ≤ gap.length + key.length + 1 := by omega
  have htake : gap.length + key.length + 1 - (gap.length + 1) = key.length := by omega
  simp only [hlength, if_pos hle, htake]
  rw [← List.drop_drop, List.drop_left]
  simp

/-- What is left after a group. -/
theorem drop_group (gap key rest : Text) :
    (gap ++ '{' :: (key ++ '}' :: rest)).drop (gap.length + key.length + 1 + 1) = rest := by
  have hgroup : gap ++ '{' :: (key ++ '}' :: rest) = (gap ++ '{' :: key ++ ['}']) ++ rest := by simp
  have hlength : (gap ++ '{' :: key ++ ['}']).length = gap.length + key.length + 1 + 1 := by
    simp only [List.length_append, List.length_cons, List.length_nil]
    omega
  rw [hgroup, ← hlength, List.drop_left]

variable {found : Text → Prop}

/-- Both braces occur in a text with a stray one. -/
theorem Stray.mem (h : Stray found input) : '{' ∈ input ∧ '}' ∈ input := by
  cases h with
  | here _ hrest => exact ⟨by simp [hrest], by simp⟩
  | group => exact ⟨by simp, by simp⟩

/-- Whether a group is followed by a stray brace. -/
theorem stray_group_iff (hgap : BraceFree gap) (hkey : '}' ∉ key) :
    Stray found (gap ++ '{' :: (key ++ '}' :: rest)) ↔ found key ∧ Stray found rest := by
  constructor
  · generalize hinput : gap ++ '{' :: (key ++ '}' :: rest) = input
    intro h
    cases h with
    | @here gap' rest' hgap' _ =>
      -- the first closing brace would come before the group opens
      have hclose : '}' ∉ gap ++ '{' :: key := by simp [hgap.2, hkey]
      have hsplit : (gap ++ '{' :: key) ++ '}' :: rest = gap' ++ '}' :: rest' := by
        rw [← hinput, List.append_assoc, List.cons_append]
      obtain ⟨rfl, -⟩ := eq_of_append_first hclose hgap'.2 hsplit
      exact absurd (by simp) hgap'.1
    | @group gap' key' rest' hgap' hkey' hfound hrest =>
      obtain ⟨rfl, h⟩ := eq_of_append_first hgap.1 hgap'.1 hinput
      obtain ⟨rfl, rfl⟩ := eq_of_append_first hkey hkey' h
      exact ⟨hfound, hrest⟩
  · rintro ⟨hfound, hrest⟩
    exact .group hgap hkey hfound hrest

end FirstBraces

/-! ### One key -/

namespace PlaceholderSource

variable (source : PlaceholderSource)

/-- The key is one of the special ones, in the map, or in the database. -/
def Finds (placeholderMap : AssocMap Text Text) (key : Text) : Prop :=
  key = senderKey ∨ key = setcodeKey ∨ key ∈ placeholderMap ∨
    ∃ named, source.getNamedTx (scenarioDbKey key source.scenarioLabel) = .ok (some named)

/-- The address of a contract, as it is put in for its name. -/
def deployed (key : Text) : Option Text :=
  match source.getNamedTx (scenarioDbKey key source.scenarioLabel) with
  | .ok (some named) => some ((named.address.map encodeHexAddress).getD [])
  | _ => none

variable {source} {placeholderMap filled : AssocMap Text Text} {key : Text}

/-- What looking a key up adds to the map: the key at most, and only if it is found. -/
theorem lookupKey_ok (h : source.lookupKey key placeholderMap = .ok filled) :
    source.Finds placeholderMap key ∧ (key = senderKey ∨ key = setcodeKey ∨ key ∈ filled) ∧
      (∀ k ∈ placeholderMap, k ∈ filled) ∧
      ∀ k, source.Finds filled k ↔ source.Finds placeholderMap k := by
  unfold lookupKey at h
  split_ifs at h with hspecial hmem
  · obtain rfl := Except.ok.inj h
    exact ⟨hspecial.imp_right .inl, hspecial.imp_right .inl, fun _ => id, fun _ => Iff.rfl⟩
  · obtain rfl := Except.ok.inj h
    exact ⟨.inr (.inr (.inl hmem)), .inr (.inr hmem), fun _ => id, fun _ => Iff.rfl⟩
  · split at h
    · cases h
    · cases h
    · rename_i named hnamed
      obtain rfl := Except.ok.inj h
      refine ⟨.inr (.inr (.inr ⟨named, hnamed⟩)), .inr (.inr (by simp)), fun k hk => ?_,
        fun k => ?_⟩
      · simp [hk]
      · by_cases hk : k = key
        · subst hk
          simp [Finds, hnamed]
        · simp [Finds, hk]

theorem lookupKey_error {err : GeneratorError}
    (h : source.lookupKey key placeholderMap = .error err) :
    ¬source.Finds placeholderMap key ∧ err ≠ .panic := by
  unfold lookupKey at h
  split_ifs at h with hspecial hmem
  rw [not_or] at hspecial
  split at h
  · rename_i message hfound
    obtain rfl := Except.error.inj h
    exact ⟨by simp [Finds, hspecial, hmem, hfound], by simp⟩
  · rename_i hfound
    obtain rfl := Except.error.inj h
    exact ⟨by simp [Finds, hspecial, hmem, hfound], by simp⟩
  · cases h

/-! ### The scan -/

/-- The scan of a group. -/
theorem scanPlaceholders_group {gap rest : Text} (hgap : BraceFree gap) (hkey : '}' ∉ key)
    (arg : Text) (rounds : Nat) :
    source.scanPlaceholders arg (rounds + 1) (gap ++ '{' :: (key ++ '}' :: rest)) placeholderMap =
      (source.lookupKey key placeholderMap >>= source.scanPlaceholders arg rounds rest) := by
  rw [scanPlaceholders, findKey_group hgap hkey]
  change (source.lookupKey key placeholderMap >>= source.scanPlaceholders arg rounds
    ((gap ++ '{' :: (key ++ '}' :: rest)).drop (gap.length + key.length + 1 + 1))) = _
  rw [drop_group]

theorem count_group {gap : Text} (hgap : BraceFree gap) (key rest : Text) :
    (gap ++ '{' :: (key ++ '}' :: rest)).count '{' = key.count '{' + rest.count '{' + 1 := by
  simp [List.count_eq_zero_of_not_mem hgap.1]

/-- The scan panics exactly at a stray brace. -/
theorem scanPlaceholders_eq_panic_iff (arg : Text) {rounds : Nat} {input : Text}
    (hrounds : input.count '{' ≤ rounds) :
    source.scanPlaceholders arg rounds input placeholderMap = .error .panic ↔
      Stray (source.Finds placeholderMap) input := by
  induction rounds generalizing input placeholderMap with
  | zero =>
    have hopen : '{' ∉ input := List.count_eq_zero.mp (by omega)
    refine iff_of_false (fun h => ?_) fun h => hopen h.mem.1
    cases h
  | succ rounds ih =>
    rcases braces_cases input with hnone | ⟨gap, rest, hgap, hrest, rfl⟩ |
      ⟨gap, key, rest, hgap, hkey, rfl⟩
    · refine ⟨fun h => ?_, fun h => ?_⟩
      · rw [scanPlaceholders, findKey_none hnone] at h
        cases h
      · exact absurd h.mem (not_and_or.mpr hnone)
    · refine iff_of_true ?_ (.here hgap hrest)
      rw [scanPlaceholders, findKey_stray hgap hrest]
      rfl
    · rw [scanPlaceholders_group hgap hkey, stray_group_iff hgap hkey]
      rw [count_group hgap] at hrounds
      cases hlookup : source.lookupKey key placeholderMap with
      | error err =>
        obtain ⟨hfinds, hpanic⟩ := lookupKey_error hlookup
        refine iff_of_false (fun h => hpanic (Except.error.inj h)) fun h => hfinds h.1
      | ok filled =>
        obtain ⟨hfinds, -, -, hsame⟩ := lookupKey_ok hlookup
        have hiff : source.scanPlaceholders arg rounds rest filled = .error .panic ↔
            Stray (source.Finds filled) rest := ih (by omega)
        rw [funext fun k => propext (hsame k)] at hiff
        exact hiff.trans (and_iff_right hfinds).symm

/-- A round that succeeds takes a group off the text. -/
theorem scanPlaceholders_ok {arg : Text} {rounds : Nat} {input : Text}
    (h : source.scanPlaceholders arg (rounds + 1) input placeholderMap = .ok filled) :
    ∃ gap key rest next, BraceFree gap ∧ '}' ∉ key ∧ input = gap ++ '{' :: (key ++ '}' :: rest) ∧
      source.lookupKey key placeholderMap = .ok next ∧
      source.scanPlaceholders arg rounds rest next = .ok filled := by
  rcases braces_cases input with hnone | ⟨gap, rest, hgap, hrest, rfl⟩ |
    ⟨gap, key, rest, hgap, hkey, rfl⟩
  · rw [scanPlaceholders, findKey_none hnone] at h
    cases h
  · rw [scanPlaceholders, findKey_stray hgap hrest] at h
    cases h
  · rw [scanPlaceholders_group hgap hkey] at h
    obtain ⟨next, hnext, h⟩ := Except.bind_eq_ok_iff.mp h
    exact ⟨gap, key, rest, next, hgap, hkey, rfl, hnext, h⟩

/-- The scan keeps what is in the map. -/
theorem mem_of_scanPlaceholders {arg : Text} {rounds : Nat} {input : Text}
    (h : source.scanPlaceholders arg rounds input placeholderMap = .ok filled)
    (hkey : key ∈ placeholderMap) : key ∈ filled := by
  induction rounds generalizing input placeholderMap with
  | zero => exact Except.ok.inj h ▸ hkey
  | succ rounds ih =>
    obtain ⟨gap, name, rest, next, -, -, -, hlookup, hscan⟩ := scanPlaceholders_ok h
    obtain ⟨-, -, hkeep, -⟩ := lookupKey_ok hlookup
    exact ih hscan (hkeep key hkey)

/-- A scan that succeeds has an opening brace for each of its rounds. -/
theorem le_count_of_scanPlaceholders {arg : Text} {rounds : Nat} {input : Text}
    (h : source.scanPlaceholders arg rounds input placeholderMap = .ok filled) :
    rounds ≤ input.count '{' := by
  induction rounds generalizing input placeholderMap with
  | zero => exact Nat.zero_le _
  | succ rounds ih =>
    obtain ⟨gap, name, rest, next, hgap, -, rfl, -, hscan⟩ := scanPlaceholders_ok h
    have hle := ih hscan
    rw [count_group hgap]
    omega

end PlaceholderSource

/-- A placeholder in a text that begins with a group is the group or comes after it. -/
theorem infix_group {gap body key rest : Text} (hgap : BraceFree gap) (hbody : BraceFree body)
    (hkey : BraceFree key) (h : placeholder key <:+: gap ++ '{' :: (body ++ '}' :: rest)) :
    key = body ∨ placeholder key <:+: rest := by
  obtain ⟨s, t, hst⟩ := h
  have hst : s ++ '{' :: (key ++ '}' :: t) = gap ++ '{' :: (body ++ '}' :: rest) := by
    rw [← hst]
    simp [placeholder]
  by_cases hopen : '{' ∈ s
  · -- the group opens before the placeholder, and it is closed there too
    obtain ⟨s, inside, rfl, hs⟩ := List.eq_append_cons_of_mem hopen
    rw [List.append_assoc, List.cons_append] at hst
    obtain ⟨-, hst⟩ := eq_of_append_first hs hgap.1 hst
    by_cases hclose : '}' ∈ inside
    · obtain ⟨inside, after, rfl, hinside⟩ := List.eq_append_cons_of_mem hclose
      rw [List.append_assoc, List.cons_append] at hst
      obtain ⟨-, rfl⟩ := eq_of_append_first hinside hbody.2 hst
      exact .inr ⟨after, t, by simp [placeholder]⟩
    · have hclosed : '}' ∉ inside ++ '{' :: key := by simp [hclose, hkey.2]
      rw [← List.cons_append, ← List.append_assoc] at hst
      obtain ⟨rfl, -⟩ := eq_of_append_first hclosed hbody.2 hst
      exact absurd (by simp) hbody.1
  · obtain ⟨-, hst⟩ := eq_of_append_first hopen hgap.1 hst
    exact .inl (eq_of_append_first hkey.2 hbody.2 hst).1

namespace PlaceholderSource

variable {source : PlaceholderSource} {placeholderMap filled : AssocMap Text Text} {key : Text}

/-- A scan that succeeds finds every placeholder. -/
theorem mem_of_placeholder_within {arg input : Text}
    (h : source.scanPlaceholders arg (input.count '{') input placeholderMap = .ok filled)
    (hkey : BraceFree key) (hsender : key ≠ senderKey) (hsetcode : key ≠ setcodeKey)
    (hin : placeholder key <:+: input) : key ∈ filled := by
  generalize hrounds : input.count '{' = rounds at h
  induction rounds generalizing input placeholderMap with
  | zero =>
    have hopen : '{' ∈ input := hin.subset (by simp [placeholder])
    exact absurd hopen (List.count_eq_zero.mp hrounds)
  | succ rounds ih =>
    obtain ⟨gap, body, rest, next, hgap, hbody, rfl, hlookup, hscan⟩ := scanPlaceholders_ok h
    -- an opening brace inside of the group would leave a round without one
    have hle := le_count_of_scanPlaceholders hscan
    rw [count_group hgap] at hrounds
    have hopen : '{' ∉ body := List.count_eq_zero.mp (by omega)
    rcases infix_group hgap ⟨hopen, hbody⟩ hkey hin with rfl | hrest
    · obtain ⟨-, hadded, -, -⟩ := lookupKey_ok hlookup
      have hmem : key ∈ next := (hadded.resolve_left hsender).resolve_left hsetcode
      exact mem_of_scanPlaceholders hscan hmem
    · exact ih hrest (by omega) hscan

variable (source) in
/-- The scan of an argument does not panic, and when it succeeds, each placeholder whose
key has no braces and is not handled elsewhere is in the map. -/
def FindsPlaceholders (placeholderMap : AssocMap Text Text) (arg : Text) : Prop :=
  source.findPlaceholderValues placeholderMap arg ≠ .error .panic ∧
    ∀ filled, source.findPlaceholderValues placeholderMap arg = .ok filled →
      ∀ key, BraceFree key → placeholder key <:+: arg → key ≠ senderKey → key ≠ setcodeKey →
        key ∈ filled

/-- **Placeholder discovery.** The scan of an argument does not panic, and finds every
placeholder when it succeeds, exactly when the argument has no stray brace. -/
theorem findsPlaceholders_iff (source : PlaceholderSource) (placeholderMap : AssocMap Text Text)
    (arg : Text) : source.FindsPlaceholders placeholderMap arg ↔
      ¬Stray (source.Finds placeholderMap) arg := by
  rw [← scanPlaceholders_eq_panic_iff arg (le_refl (arg.count '{'))]
  refine and_iff_left_of_imp fun _ filled h key hkey hin hsender hsetcode => ?_
  exact mem_of_placeholder_within h hkey hsender hsetcode hin

/-! ### What a scan adds to the map -/

theorem lookup_of_lookupKey (h : source.lookupKey key placeholderMap = .ok filled) :
    (∀ k ∈ placeholderMap, filled.lookup k = placeholderMap.lookup k) ∧
      ∀ k, k ∈ filled → k ∉ placeholderMap →
        k = key ∧ k ≠ senderKey ∧ k ≠ setcodeKey ∧ filled.lookup k = source.deployed k := by
  unfold lookupKey at h
  split_ifs at h with hspecial hmem
  · obtain rfl := Except.ok.inj h
    exact ⟨fun _ _ => rfl, fun k hk hnew => absurd hk hnew⟩
  · obtain rfl := Except.ok.inj h
    exact ⟨fun _ _ => rfl, fun k hk hnew => absurd hk hnew⟩
  · rw [not_or] at hspecial
    split at h
    · cases h
    · cases h
    · rename_i named hnamed
      obtain rfl := Except.ok.inj h
      refine ⟨fun k hk => AList.lookup_insert_ne ?_, fun k hk hnew => ?_⟩
      · rintro rfl
        exact hmem hk
      · obtain rfl : k = key := (AList.mem_insert _ |>.mp hk).resolve_right hnew
        exact ⟨rfl, hspecial.1, hspecial.2, by simp [deployed, hnamed]⟩

variable (source) in
/-- `filled` is the map with the values of the placeholders of the texts: the keys of the
map keep theirs, and the others are looked up in the database. -/
structure Fills (texts : List Text) (placeholderMap filled : AssocMap Text Text) : Prop where
  kept : ∀ key ∈ placeholderMap, filled.lookup key = placeholderMap.lookup key
  added : ∀ key ∈ filled, key ∉ placeholderMap →
    BraceFree key ∧ key ≠ senderKey ∧ key ≠ setcodeKey ∧
      (∃ text ∈ texts, placeholder key <:+: text) ∧ filled.lookup key = source.deployed key
  complete : ∀ key, BraceFree key → key ≠ senderKey → key ≠ setcodeKey →
    (∃ text ∈ texts, placeholder key <:+: text) → key ∈ filled

namespace Fills

variable {texts texts' : List Text} {next : AssocMap Text Text}

theorem mem (h : source.Fills texts placeholderMap filled) (hkey : key ∈ placeholderMap) :
    key ∈ filled := by
  obtain ⟨value, hvalue⟩ := AList.mem_iff_lookup.mp hkey
  exact AList.mem_iff_lookup.mpr ⟨value, (h.kept key hkey).trans hvalue⟩

/-- What a key has in the end: its value in the map, or the address in the database. -/
theorem lookup_eq (h : source.Fills texts placeholderMap filled) (hbrace : BraceFree key)
    (hsender : key ≠ senderKey) (hsetcode : key ≠ setcodeKey)
    (hin : ∃ text ∈ texts, placeholder key <:+: text) :
    filled.lookup key =
      if key ∈ placeholderMap then placeholderMap.lookup key else source.deployed key := by
  split_ifs with hkey
  · exact h.kept key hkey
  · exact (h.added key (h.complete key hbrace hsender hsetcode hin) hkey).2.2.2.2

theorem refl (source : PlaceholderSource) (placeholderMap : AssocMap Text Text) :
    source.Fills [] placeholderMap placeholderMap where
  kept := fun _ _ => rfl
  added := fun _ hmem hnew => absurd hmem hnew
  complete := by simp

theorem append (h : source.Fills texts placeholderMap next) (h' : source.Fills texts' next filled) :
    source.Fills (texts ++ texts') placeholderMap filled where
  kept := fun key hkey => (h'.kept key (h.mem hkey)).trans (h.kept key hkey)
  added := by
    intro key hkey hnew
    by_cases hnext : key ∈ next
    · obtain ⟨hbrace, hsender, hsetcode, ⟨text, htext, hin⟩, hlookup⟩ := h.added key hnext hnew
      exact ⟨hbrace, hsender, hsetcode, ⟨text, List.mem_append_left _ htext, hin⟩,
        (h'.kept key hnext).trans hlookup⟩
    · obtain ⟨hbrace, hsender, hsetcode, ⟨text, htext, hin⟩, hlookup⟩ := h'.added key hkey hnext
      exact ⟨hbrace, hsender, hsetcode, ⟨text, List.mem_append_right _ htext, hin⟩, hlookup⟩
  complete := by
    rintro key hbrace hsender hsetcode ⟨text, htext, hin⟩
    rcases List.mem_append.mp htext with htext | htext
    · exact h'.mem (h.complete key hbrace hsender hsetcode ⟨text, htext, hin⟩)
    · exact h'.complete key hbrace hsender hsetcode ⟨text, htext, hin⟩

end Fills

/-- A scan that succeeds fills the map for the text. -/
theorem fills_of_scanPlaceholders {arg input : Text}
    (h : source.scanPlaceholders arg (input.count '{') input placeholderMap = .ok filled) :
    source.Fills [input] placeholderMap filled := by
  generalize hrounds : input.count '{' = rounds at h
  induction rounds generalizing input placeholderMap with
  | zero =>
    obtain rfl := Except.ok.inj h
    refine ⟨fun _ _ => rfl, fun key hkey hnew => absurd hkey hnew, ?_⟩
    rintro key - - - ⟨text, htext, hin⟩
    obtain rfl := List.mem_singleton.mp htext
    have hopen : '{' ∈ text := hin.subset (by simp [placeholder])
    exact absurd hopen (List.count_eq_zero.mp hrounds)
  | succ rounds ih =>
    have hscan := h
    obtain ⟨gap, body, rest, next, hgap, hbody, rfl, hlookup, h⟩ := scanPlaceholders_ok h
    have hle := le_count_of_scanPlaceholders h
    have hcount := count_group hgap body rest
    have hopen : '{' ∉ body := List.count_eq_zero.mp (by omega)
    obtain ⟨hkept, hadded⟩ := lookup_of_lookupKey hlookup
    obtain ⟨-, -, hkeep, -⟩ := lookupKey_ok hlookup
    have hrest := ih (by omega) h
    refine ⟨fun key hkey => (hrest.kept key (hkeep key hkey)).trans (hkept key hkey), ?_, ?_⟩
    · intro key hkey hnew
      by_cases hnext : key ∈ next
      · obtain ⟨rfl, hsender, hsetcode, hdeployed⟩ := hadded key hnext hnew
        refine ⟨⟨hopen, hbody⟩, hsender, hsetcode, ⟨_, List.mem_singleton_self _, gap, rest, ?_⟩,
          (hrest.kept key hnext).trans hdeployed⟩
        simp [placeholder]
      · obtain ⟨hbrace, hsender, hsetcode, ⟨text, htext, hin⟩, hdeployed⟩ :=
          hrest.added key hkey hnext
        obtain rfl := List.mem_singleton.mp htext
        have hsuffix : text <:+ gap ++ '{' :: (body ++ '}' :: text) :=
          ⟨gap ++ '{' :: (body ++ ['}']), by simp⟩
        exact ⟨hbrace, hsender, hsetcode, ⟨_, List.mem_singleton_self _, hin.trans hsuffix.isInfix⟩,
          hdeployed⟩
    · rintro key hbrace hsender hsetcode ⟨text, htext, hin⟩
      obtain rfl := List.mem_singleton.mp htext
      rw [← hrounds] at hscan
      exact mem_of_placeholder_within hscan hbrace hsender hsetcode hin

theorem fills_of_foldlM {texts : List Text}
    (h : texts.foldlM source.findPlaceholderValues placeholderMap = .ok filled) :
    source.Fills texts placeholderMap filled :=
  List.foldlM_ok_invariant (p := fun done m => source.Fills done placeholderMap m)
    (fun _ _ _ _ hdone hstep => hdone.append (fills_of_scanPlaceholders hstep))
    (Fills.refl source placeholderMap) h

end PlaceholderSource

/-! ### Braces the wrong way round -/

namespace ReversedBraces

/-- A database without contracts. -/
def source : PlaceholderSource where
  getNamedTx := fun _ => .ok none
  scenarioLabel := none

def env : AssocMap Text Text := AList.insert ['a'] ['1'] ∅

/-- The key is in the environment, but the closing brace before it ends the scan. -/
theorem not_findsPlaceholders :
    source.findPlaceholderValues env ['}', '{', 'a', '}'] = .error .panic ∧
      ¬source.FindsPlaceholders env ['}', '{', 'a', '}'] := by
  have hpanic : source.findPlaceholderValues env ['}', '{', 'a', '}'] = .error .panic := rfl
  exact ⟨hpanic, fun h => h.1 hpanic⟩

end ReversedBraces

end Contender
