import Contender.Generator.PlaceholderScan

/-!
# Texts whose placeholders are known

The search for placeholders succeeds exactly on the texts that have nothing but placeholders up to
their last opening brace, each with a key that can be looked up. What the search adds to the map
makes no other key known, so that the texts of a whole plan can be judged one by one.

## Main results

* `findPlaceholderValues_ok_iff` — the search of a text succeeds exactly when it is scoped
* `exists_findFncallPlaceholders` — the search of a list of calls with scoped texts succeeds
-/

namespace Contender

/-- Every brace up to the last opening one belongs to a placeholder, whose key is accepted by
`keys`. No other texts get through the search (`findPlaceholderValues_ok_iff`). -/
inductive Scoped (keys : Text → Prop) : Text → Prop
  | plain {text : Text} (h : '{' ∉ text) : Scoped keys text
  | group {gap key rest : Text} (hgap : BraceFree gap) (hkey : BraceFree key) (hknown : keys key)
      (hrest : Scoped keys rest) : Scoped keys (gap ++ '{' :: (key ++ '}' :: rest))

theorem BraceFree.append {text rest : Text} (h : BraceFree text) (hrest : BraceFree rest) :
    BraceFree (text ++ rest) :=
  ⟨List.not_mem_append h.1 hrest.1, List.not_mem_append h.2 hrest.2⟩

theorem braceFree_decimal (n : Nat) : BraceFree n.decimal :=
  ⟨Nat.notMem_decimal (by decide) n, Nat.notMem_decimal (by decide) n⟩

namespace Scoped

variable {keys keys' : Text → Prop} {text key : Text}

theorem of_braceFree (h : BraceFree text) : Scoped keys text := .plain h.1

theorem mono (h : Scoped keys text) (hkeys : ∀ key, keys key → keys' key) : Scoped keys' text := by
  induction h with
  | plain h => exact .plain h
  | group hgap hkey hknown _ ih => exact .group hgap hkey (hkeys _ hknown) ih

/-- A text that is one placeholder. -/
theorem placeholder (hkey : BraceFree key) (hknown : keys key) :
    Scoped keys (Contender.placeholder key) := by
  have hempty : BraceFree [] := ⟨List.not_mem_nil, List.not_mem_nil⟩
  exact .group hempty hkey hknown (.plain List.not_mem_nil)

/-- The keys of the placeholders in a text are known. -/
theorem known_of_within (h : Scoped keys text) (hkey : BraceFree key)
    (hin : Contender.placeholder key <:+: text) : keys key := by
  induction h with
  | plain h => exact absurd (hin.subset List.mem_cons_self) h
  | group hgap hbody hknown _ ih =>
    rcases infix_group hgap hbody hkey hin with rfl | hrest
    · exact hknown
    · exact ih hrest

end Scoped

namespace PlaceholderSource

variable {source : PlaceholderSource} {placeholderMap filled : AssocMap Text Text} {key : Text}

theorem exists_lookupKey (h : source.Finds placeholderMap key) :
    ∃ next, source.lookupKey key placeholderMap = .ok next := by
  cases hlookup : source.lookupKey key placeholderMap with
  | ok next => exact ⟨next, rfl⟩
  | error e => exact absurd h (lookupKey_error hlookup).1

/-- The maps know the same keys. -/
def SameKeys (source : PlaceholderSource) (placeholderMap filled : AssocMap Text Text) : Prop :=
  ∀ key, source.Finds filled key ↔ source.Finds placeholderMap key

theorem exists_scanPlaceholders {arg input : Text} {keys : Text → Prop}
    (h : Scoped keys input) (hkeys : ∀ key, keys key → source.Finds placeholderMap key) :
    ∃ filled, source.scanPlaceholders arg (input.count '{') input placeholderMap = .ok filled ∧
      source.SameKeys placeholderMap filled := by
  induction h generalizing placeholderMap with
  | plain h =>
    rw [List.count_eq_zero_of_not_mem h]
    exact ⟨placeholderMap, rfl, fun _ => Iff.rfl⟩
  | @group gap key rest hgap hkey hknown _ ih =>
    obtain ⟨next, hnext⟩ := exists_lookupKey (hkeys key hknown)
    obtain ⟨-, -, -, hsame⟩ := lookupKey_ok hnext
    obtain ⟨filled, hfilled, hrest⟩ := ih fun k hk => (hsame k).mpr (hkeys k hk)
    refine ⟨filled, ?_, fun k => (hrest k).trans (hsame k)⟩
    rw [count_group hgap, List.count_eq_zero_of_not_mem hkey.1, Nat.zero_add,
      scanPlaceholders_group hgap hkey.2, hnext]
    exact hfilled

theorem scoped_of_scanPlaceholders {arg input : Text}
    (h : source.scanPlaceholders arg (input.count '{') input placeholderMap = .ok filled) :
    Scoped (source.Finds placeholderMap) input := by
  generalize hrounds : input.count '{' = rounds at h
  induction rounds generalizing input placeholderMap with
  | zero => exact .plain (List.count_eq_zero.mp hrounds)
  | succ rounds ih =>
    obtain ⟨gap, key, rest, next, hgap, hkey, rfl, hlookup, hscan⟩ := scanPlaceholders_ok h
    have hle := le_count_of_scanPlaceholders hscan
    rw [count_group hgap] at hrounds
    have hopen : '{' ∉ key := List.count_eq_zero.mp (by omega)
    obtain ⟨hknown, -, -, hsame⟩ := lookupKey_ok hlookup
    have hrest := ih (by omega) hscan
    exact .group hgap ⟨hopen, hkey⟩ hknown (hrest.mono fun k hk => (hsame k).mp hk)

/-- **Success of the search.** The placeholders of a text are found exactly when it has no other
braces up to its last opening one, and all of its keys are known. -/
theorem findPlaceholderValues_ok_iff (source : PlaceholderSource)
    (placeholderMap : AssocMap Text Text) (arg : Text) :
    (∃ filled, source.findPlaceholderValues placeholderMap arg = .ok filled) ↔
      Scoped (source.Finds placeholderMap) arg := by
  constructor
  · rintro ⟨filled, h⟩
    exact scoped_of_scanPlaceholders h
  · intro h
    obtain ⟨filled, hfilled, -⟩ := exists_scanPlaceholders h fun _ hk => hk
    exact ⟨filled, hfilled⟩

end PlaceholderSource

/-! ### Calls -/

/-- All texts of the call are scoped. -/
def FunctionCallDefinition.ScopedIn (keys : Text → Prop) (call : FunctionCallDefinition) : Prop :=
  ∀ text ∈ call.templates, Scoped keys text

namespace PlaceholderSource

variable {source : PlaceholderSource} {placeholderMap : AssocMap Text Text} {keys : Text → Prop}
  {texts : List Text} {calls : List FunctionCallDefinition}

theorem exists_foldlM (htexts : ∀ text ∈ texts, Scoped keys text)
    (hkeys : ∀ key, keys key → source.Finds placeholderMap key) :
    ∃ filled, texts.foldlM source.findPlaceholderValues placeholderMap = .ok filled ∧
      source.SameKeys placeholderMap filled := by
  refine List.exists_foldlM_ok (p := source.SameKeys placeholderMap)
    (fun text htext next hnext => ?_) fun _ => Iff.rfl
  obtain ⟨filled, hfilled, hsame⟩ := exists_scanPlaceholders (htexts text htext)
    fun key hk => (hnext key).mpr (hkeys key hk)
  exact ⟨filled, hfilled, fun key => (hsame key).trans (hnext key)⟩

/-- The placeholders of all calls are found when their texts are scoped. -/
theorem exists_findFncallPlaceholders (hcalls : ∀ call ∈ calls, call.ScopedIn keys)
    (hkeys : ∀ key, keys key → source.Finds placeholderMap key) :
    ∃ filled, calls.foldlM source.findFncallPlaceholders placeholderMap = .ok filled ∧
      source.SameKeys placeholderMap filled := by
  refine List.exists_foldlM_ok (p := source.SameKeys placeholderMap)
    (fun call hcall next hnext => ?_) fun _ => Iff.rfl
  obtain ⟨filled, hfilled, hsame⟩ := exists_foldlM (hcalls call hcall)
    fun key hk => (hnext key).mpr (hkeys key hk)
  exact ⟨filled, hfilled, fun key => (hsame key).trans (hnext key)⟩

/-- The search of all calls fills the map for their texts. -/
theorem fills_of_foldlM_calls {filled : AssocMap Text Text}
    (h : calls.foldlM source.findFncallPlaceholders placeholderMap = .ok filled) :
    source.Fills (calls.flatMap FunctionCallDefinition.templates) placeholderMap filled := by
  change source.Fills (([] ++ calls).flatMap FunctionCallDefinition.templates) placeholderMap filled
  refine List.foldlM_ok_invariant
    (p := fun done m => source.Fills (done.flatMap FunctionCallDefinition.templates)
      placeholderMap m) (fun done call s t hdone hstep => ?_) ?_ h
  · rw [List.flatMap_append, List.flatMap_singleton]
    exact hdone.append (fills_of_foldlM hstep)
  · exact Fills.refl source placeholderMap

end PlaceholderSource

end Contender
