import Contender.Generator.PlaceholderOrder
import Contender.Generator.PlaceholderScan

/-!
# Groups of braces

In an argument that has been scanned every opening brace opens a placeholder, and the
keys of these placeholders are special ones or in the map. Replacing a placeholder by a
text without opening braces keeps the others, and so a text that is templated with such
values has no opening brace in the end when all its keys are in the map.
-/

namespace Contender

/-- Every opening brace opens a placeholder whose key has no braces and is accepted by
`keys`. -/
inductive Grouped (keys : Text → Prop) : Text → Prop
  | nil : Grouped keys []
  | plain {c : Char} {rest : Text} (hc : c ≠ '{') (hrest : Grouped keys rest) :
      Grouped keys (c :: rest)
  | group {key rest : Text} (hbrace : BraceFree key) (hkey : keys key)
      (hrest : Grouped keys rest) : Grouped keys (placeholder key ++ rest)

/-- The placeholders of two keys without braces, as patterns. -/
theorem apart_placeholders {key other : Text} (hkey : BraceFree key) (hother : BraceFree other)
    (hne : key ≠ other) (value own : Text) :
    List.Apart [(placeholder key, value), (placeholder other, own)] := by
  have hoverlap : ∀ {k k' : Text}, BraceFree k → BraceFree k' → ∀ d < (placeholder k).length,
      List.Comparable ((placeholder k).drop d) (placeholder k') → d = 0 ∧ k = k' :=
    fun hk hk' d hd h => eq_of_comparable_placeholders hk.1 hk.2 hk'.2 hd h
  refine ⟨?_, ?_, ?_⟩
  · simpa using fun h => hne (placeholder_injective h)
  · simp [placeholder]
  · simp only [List.mem_cons, List.not_mem_nil, or_false, forall_eq_or_imp, forall_eq]
    refine ⟨⟨fun d hd h => ?_, fun d hd h => ?_⟩, fun d hd h => ?_, fun d hd h => ?_⟩
    · exact ⟨(hoverlap hkey hkey d hd h).1, trivial⟩
    · exact absurd (hoverlap hkey hother d hd h).2 hne
    · exact absurd (hoverlap hother hkey d hd h).2 hne.symm
    · exact ⟨(hoverlap hother hother d hd h).1, trivial⟩

namespace Grouped

variable {keys keys' : Text → Prop} {text rest key value : Text}

theorem of_notMem (h : '{' ∉ text) : Grouped keys text := by
  induction text with
  | nil => exact .nil
  | cons c text ih =>
    rw [List.mem_cons, not_or] at h
    exact .plain (Ne.symm h.1) (ih h.2)

theorem append (h : Grouped keys text) (hrest : Grouped keys rest) :
    Grouped keys (text ++ rest) := by
  induction h with
  | nil => exact hrest
  | plain hc _ ih => exact .plain hc ih
  | group hbrace hkey _ ih =>
    rw [List.append_assoc]
    exact .group hbrace hkey ih

/-- Only the keys that occur matter. -/
theorem mono (h : Grouped keys text)
    (hkeys : ∀ key, keys key → placeholder key <:+: text → keys' key) : Grouped keys' text := by
  induction h with
  | nil => exact .nil
  | plain hc _ ih =>
    exact .plain hc (ih fun key hkey hin =>
      hkeys key hkey (hin.trans (List.suffix_cons _ _).isInfix))
  | @group key rest hbrace hkey _ ih =>
    refine .group hbrace (hkeys key hkey (List.prefix_append _ _).isInfix) (ih fun k hk hin => ?_)
    exact hkeys k hk (hin.trans (List.suffix_append _ _).isInfix)

/-- Without an accepted key there is no opening brace. -/
theorem notMem (h : Grouped (fun _ => False) text) : '{' ∉ text := by
  induction h with
  | nil => simp
  | plain hc _ ih => simp [Ne.symm hc, ih]
  | group _ hkey => exact hkey.elim

/-- A placeholder that is replaced is gone, and the others stay. -/
theorem replaceAll (h : Grouped keys text) (hbrace : BraceFree key)
    (hvalue : keys key → '{' ∉ value) :
    Grouped (fun k => keys k ∧ k ≠ key) (List.replaceAll text (placeholder key) value) := by
  induction h with
  | nil => exact .nil
  | plain hc _ ih =>
    have hstart : ∀ {c : Char} {rest : Text}, c ≠ '{' → ¬placeholder key <+: c :: rest :=
      fun hc h => hc (List.cons_prefix_cons.mp h).1.symm
    rw [List.replaceAll_cons_of_not_start (hstart hc)]
    exact .plain hc ih
  | @group other rest hother hkey _ ih =>
    by_cases hsame : other = key
    · subst hsame
      rw [List.replaceAll_append_self (placeholder_ne_nil other)]
      exact (of_notMem (hvalue hkey)).append ih
    · have hcopy : ∀ d < (placeholder other).length,
          ¬placeholder key <+: (placeholder other).drop d ++ rest := fun d hd hstart =>
        hsame (eq_of_comparable_placeholders hother.1 hother.2 hbrace.2 hd
          (.of_starts (List.prefix_append _ _) hstart)).2
      rw [List.replaceAll_append hcopy]
      exact .group hother ⟨hkey, hsame⟩ ih

theorem foldl_replaceAll {entries : List ((_ : Text) × Text)} (h : Grouped keys text)
    (hbrace : ∀ entry ∈ entries, BraceFree entry.1)
    (hvalue : ∀ entry ∈ entries, keys entry.1 → '{' ∉ entry.2) :
    Grouped (fun k => keys k ∧ k ∉ entries.map Sigma.fst)
      (entries.foldl (fun output entry => output.replaceAll (placeholder entry.1) entry.2)
        text) := by
  induction entries generalizing text keys with
  | nil => exact h.mono fun key hkey _ => ⟨hkey, by simp⟩
  | cons entry entries ih =>
    have hstep := h.replaceAll (hbrace entry List.mem_cons_self) (hvalue entry List.mem_cons_self)
    rw [List.foldl_cons]
    refine (ih hstep (fun e he => hbrace e (List.mem_cons_of_mem _ he)) fun e he hkey =>
      hvalue e (List.mem_cons_of_mem _ he) hkey.1).mono ?_
    rintro key ⟨⟨hkey, hne⟩, hnot⟩ -
    exact ⟨hkey, by simpa [hne] using hnot⟩

/-- Templating leaves the placeholders whose keys are not in the map. -/
theorem replacePlaceholders {placeholderMap : AssocMap Text Text} (h : Grouped keys text)
    (hbrace : ∀ key ∈ placeholderMap, BraceFree key)
    (hvalue : ∀ key value, placeholderMap.lookup key = some value → keys key → '{' ∉ value) :
    Grouped (fun k => keys k ∧ k ∉ placeholderMap)
      (Contender.replacePlaceholders placeholderMap text) :=
  foldl_replaceAll h
    (fun entry hentry => hbrace entry.1 (AList.mem_keys.mpr (List.mem_map_of_mem hentry)))
    fun entry hentry => hvalue entry.1 entry.2 (AList.mem_lookup_iff.mpr hentry)

end Grouped

/-- A scan that succeeds has been through placeholders only. -/
theorem PlaceholderSource.grouped_of_scanPlaceholders {source : PlaceholderSource}
    {placeholderMap filled : AssocMap Text Text} {arg input : Text}
    (h : source.scanPlaceholders arg (input.count '{') input placeholderMap = .ok filled) :
    Grouped (fun key => key = senderKey ∨ key = setcodeKey ∨ key ∈ filled) input := by
  generalize hrounds : input.count '{' = rounds at h
  induction rounds generalizing input placeholderMap with
  | zero => exact .of_notMem (List.count_eq_zero.mp hrounds)
  | succ rounds ih =>
    obtain ⟨gap, body, rest, next, hgap, hbody, rfl, hlookup, hscan⟩ := scanPlaceholders_ok h
    have hle := le_count_of_scanPlaceholders hscan
    rw [count_group hgap] at hrounds
    have hopen : '{' ∉ body := List.count_eq_zero.mp (by omega)
    obtain ⟨-, hadded, -, -⟩ := lookupKey_ok hlookup
    have hkey : body = senderKey ∨ body = setcodeKey ∨ body ∈ filled :=
      hadded.imp_right (Or.imp_right (mem_of_scanPlaceholders hscan))
    have hgroup : gap ++ '{' :: (body ++ '}' :: rest) = gap ++ (placeholder body ++ rest) := by
      simp [placeholder]
    rw [hgroup]
    exact (Grouped.of_notMem hgap.1).append (.group ⟨hopen, hbody⟩ hkey (ih (by omega) hscan))

/-- The texts whose placeholders are in the map are made of groups. -/
theorem PlaceholderSource.grouped_of_foldlM {source : PlaceholderSource}
    {placeholderMap filled : AssocMap Text Text} {texts : List Text}
    (h : texts.foldlM source.findPlaceholderValues placeholderMap = .ok filled) :
    ∀ text ∈ texts,
      Grouped (fun key => key = senderKey ∨ key = setcodeKey ∨ key ∈ filled) text := by
  induction texts generalizing placeholderMap with
  | nil => simp
  | cons text texts ih =>
    rw [List.foldlM_cons, Except.bind_eq_ok_iff] at h
    obtain ⟨next, hnext, h⟩ := h
    rintro _ (_ | ⟨_, hmem⟩)
    · exact (grouped_of_scanPlaceholders hnext).mono fun key hkey _ =>
        hkey.imp_right (Or.imp_right (fills_of_foldlM h).mem)
    · exact ih h _ hmem

end Contender
