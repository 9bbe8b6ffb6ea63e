import Contender.Data.Text
import Mathlib.Data.List.Find
import Mathlib.Data.List.Nodup

/-!
# Replacing several patterns

The occurrences of several patterns can be replaced in one pass from left to right, or
one pattern after another. Replacing one after another reads what the earlier patterns
were replaced by, and so the two agree, in every order of the patterns, exactly when
nothing that is put in overlaps an occurrence of another pattern.
-/

namespace List

variable {α : Type*}

/-- Two lists agree as far as both of them reach. -/
def Comparable (l₁ l₂ : List α) : Prop := l₁ <+: l₂ ∨ l₂ <+: l₁

theorem Comparable.symm {l₁ l₂ : List α} (h : Comparable l₁ l₂) : Comparable l₂ l₁ := Or.symm h

/-- The beginnings of one list agree. -/
theorem Comparable.of_starts {l₁ l₂ l : List α} (h₁ : l₁ <+: l) (h₂ : l₂ <+: l) :
    Comparable l₁ l₂ := prefix_or_prefix_of_prefix h₁ h₂

/-- Two lists that agree are the beginnings of one. -/
theorem Comparable.exists_append {l₁ l₂ : List α} (h : Comparable l₁ l₂) :
    ∃ rest, l₂ <+: l₁ ++ rest := by
  rcases h with ⟨rest, h⟩ | h
  · exact ⟨rest, h ▸ prefix_refl _⟩
  · exact ⟨[], by simpa using h⟩

/-- Some list in which `v` occurs has an occurrence of `pat` that overlaps it: an
occurrence begins inside of `v`, or one that began before `v` reaches it. -/
def Meets (v pat : List α) : Prop :=
  (∃ d < v.length, Comparable (v.drop d) pat) ∨
    ∃ d, 0 < d ∧ d < pat.length ∧ Comparable v (pat.drop d)

/-- No two occurrences of the patterns overlap, in any list. -/
structure Apart (entries : List (List α × List α)) : Prop where
  nodup : (entries.map Prod.fst).Nodup
  ne_nil : ∀ e ∈ entries, e.1 ≠ []
  overlap : ∀ e ∈ entries, ∀ f ∈ entries, ∀ d < e.1.length,
    Comparable (e.1.drop d) f.1 → d = 0 ∧ e = f

/-- Besides, what is put in for a pattern does not overlap another one. A pattern that is
put in for itself changes nothing and is exempt. -/
structure Separated (entries : List (List α × List α)) : Prop extends Apart entries where
  values : ∀ e ∈ entries, ∀ f ∈ entries, e ≠ f → f.2 = f.1 ∨ ¬Meets e.2 f.1

section Apart

variable {entries entries' : List (List α × List α)} {e f : List α × List α}

theorem Apart.perm (h : Apart entries) (hperm : entries'.Perm entries) : Apart entries' where
  nodup := (hperm.map Prod.fst).nodup_iff.mpr h.nodup
  ne_nil := fun e he => h.ne_nil e (hperm.subset he)
  overlap := fun e he f hf => h.overlap e (hperm.subset he) f (hperm.subset hf)

theorem Apart.sublist (h : Apart entries) (hsub : entries'.Sublist entries) : Apart entries' where
  nodup := h.nodup.sublist (hsub.map Prod.fst)
  ne_nil := fun e he => h.ne_nil e (hsub.subset he)
  overlap := fun e he f hf => h.overlap e (hsub.subset he) f (hsub.subset hf)

theorem Separated.perm (h : Separated entries) (hperm : entries'.Perm entries) :
    Separated entries' where
  toApart := h.toApart.perm hperm
  values := fun e he f hf => h.values e (hperm.subset he) f (hperm.subset hf)

theorem Separated.sublist (h : Separated entries) (hsub : entries'.Sublist entries) :
    Separated entries' where
  toApart := h.toApart.sublist hsub
  values := fun e he f hf => h.values e (hsub.subset he) f (hsub.subset hf)

theorem Apart.length_pos (h : Apart entries) (he : e ∈ entries) : 0 < e.1.length :=
  length_pos_iff.mpr (h.ne_nil e he)

/-- At most one pattern begins at a place. -/
theorem Apart.unique (h : Apart entries) (he : e ∈ entries) (hf : f ∈ entries) {l : List α}
    (hel : e.1 <+: l) (hfl : f.1 <+: l) : e = f :=
  (h.overlap e he f hf 0 (h.length_pos he) (Comparable.of_starts hel hfl)).2

theorem Apart.not_meets (h : Apart entries) (he : e ∈ entries) (hf : f ∈ entries) (hne : e ≠ f) :
    ¬Meets e.1 f.1 := by
  rintro (⟨d, hd, hcomparable⟩ | ⟨d, -, hd, hcomparable⟩)
  · exact hne (h.overlap e he f hf d hd hcomparable).2
  · exact hne (h.overlap f hf e he d hd hcomparable.symm).2.symm

theorem Apart.ne_of_cons (h : Apart (e :: entries)) (hf : f ∈ entries) : e ≠ f := by
  rintro rfl
  exact (nodup_cons.mp h.nodup).1 (mem_map_of_mem hf)

end Apart

/-! ### Occurrences around a pattern -/

section Around

variable {entries : List (List α × List α)} {e f : List α × List α}

/-- What surrounds `v` where an occurrence of the pattern overlaps it. -/
theorem Meets.exists_around {v pat : List α} (h : Meets v pat) (hpat : pat ≠ []) :
    ∃ u w, u <+: pat ∧ u.length < pat.length ∧ w <:+ pat ∧ w.length < pat.length ∧
      pat <:+: u ++ (v ++ w) := by
  have hpos : 0 < pat.length := length_pos_iff.mpr hpat
  rcases h with ⟨d, hd, ⟨w, hw⟩ | hinside⟩ | ⟨d, hd, hlt, ⟨w, hw⟩ | ⟨t, ht⟩⟩
  · -- it begins in `v` and ends after it
    have hlength : (v.drop d).length + w.length = pat.length := by rw [← hw, length_append]
    have hdrop : (v.drop d).length = v.length - d := length_drop
    refine ⟨[], w, nil_prefix, hpos, ⟨v.drop d, hw⟩, by omega, v.take d, [], ?_⟩
    rw [← hw, append_nil, nil_append, ← append_assoc, take_append_drop]
  · exact ⟨[], [], nil_prefix, hpos, nil_suffix, hpos, by
      simpa using hinside.isInfix.trans (drop_suffix d v).isInfix⟩
  · -- it begins before `v` and ends after it
    have hlength : v.length + w.length = pat.length - d := by
      rw [← length_drop, ← hw, length_append]
    refine ⟨pat.take d, w, take_prefix d pat, by simp; omega, ?_, by omega, ?_⟩
    · have hsuffix : w <:+ pat.drop d := ⟨v, hw⟩
      exact hsuffix.trans (drop_suffix d pat)
    · rw [hw, take_append_drop]
  · refine ⟨pat.take d, [], take_prefix d pat, by simp; omega, nil_suffix, hpos, [], t, ?_⟩
    rw [nil_append, append_nil, ← ht, ← append_assoc, take_append_drop]

/-- A proper part of a pattern has no occurrence. -/
theorem Apart.not_prefix_drop (h : Apart entries) (hf : f ∈ entries) {d : Nat} {part : List α}
    (hpart : part <+: f.1.drop d) (hlt : part.length < f.1.length) :
    ∀ g ∈ entries, ¬g.1 <+: part := by
  intro g hg hstart
  have hpos : 0 < g.1.length := h.length_pos hg
  have hlength : part.length ≤ f.1.length - d := by simpa using hpart.length_le
  have hd : d < f.1.length := by have := hstart.length_le; omega
  obtain ⟨-, rfl⟩ := h.overlap f hf g hg d hd (.inr (hstart.trans hpart))
  exact absurd hstart.length_le (by omega)

/-- No occurrence begins in a proper beginning of a pattern that stands before another
one. -/
theorem Apart.not_prefix_before (h : Apart entries) (he : e ∈ entries) (hf : f ∈ entries)
    {u : List α} (hu : u <+: f.1) (hlt : u.length < f.1.length) (w : List α) :
    ∀ g ∈ entries, ∀ d < u.length, ¬g.1 <+: u.drop d ++ (e.1 ++ w) := by
  intro g hg d hd hstart
  have hdrop : (u.drop d).length = u.length - d := length_drop
  rcases Comparable.of_starts hstart (prefix_append (u.drop d) (e.1 ++ w)) with hinside | ⟨t, ht⟩
  · refine h.not_prefix_drop hf (hu.drop d) ?_ g hg hinside
    omega
  · -- it reaches the other pattern, which begins inside of it
    rw [← ht, prefix_append_right_inj] at hstart
    have hg' : g.1.drop (u.length - d) = t := by rw [← ht, ← hdrop, drop_left]
    by_cases hnil : t = []
    · subst hnil
      rw [append_nil] at ht
      refine h.not_prefix_drop hf (hu.drop d) ?_ g hg ?_
      · omega
      · rw [ht]
    · have hlong : u.length - d < g.1.length := by
        rw [← ht, length_append, hdrop]
        have := length_pos_iff.mpr hnil
        omega
      have := (h.overlap g hg e he (u.length - d) hlong
        (hg' ▸ Comparable.of_starts hstart (prefix_append _ _))).1
      omega

/-- A proper end of a pattern has no occurrence. -/
theorem Apart.not_infix_after (h : Apart entries) (hf : f ∈ entries) {w : List α}
    (hw : w <:+ f.1) (hlt : w.length < f.1.length) : ∀ g ∈ entries, ¬g.1 <:+: w := by
  rintro g hg ⟨s, t, hst⟩
  obtain ⟨u, hu⟩ := hw
  have hpart : g.1 ++ t <+: f.1.drop (u.length + s.length) := by
    rw [← hu, ← hst, ← drop_drop, drop_left, append_assoc, drop_left]
  refine h.not_prefix_drop hf hpart ?_ g hg (prefix_append _ _)
  rw [← hst] at hlt
  simp only [length_append] at hlt ⊢
  omega

theorem Apart.eq_of_infix_around (h : Apart entries) (he : e ∈ entries) (hf : f ∈ entries)
    {u w : List α} (hu : u <+: f.1) (hult : u.length < f.1.length)
    (hw : w <:+ f.1) (hwlt : w.length < f.1.length) :
    ∀ g ∈ entries, g.1 <:+: u ++ (e.1 ++ w) → e = g := by
  rintro g hg ⟨s, t, hst⟩
  have hstart : g.1 <+: (u ++ (e.1 ++ w)).drop s.length := by
    rw [← hst, append_assoc, drop_left]
    exact prefix_append _ _
  rcases lt_or_ge s.length u.length with hbefore | hafter
  · rw [drop_append_of_le_length hbefore.le] at hstart
    exact absurd hstart (h.not_prefix_before he hf hu hult w g hg s.length hbefore)
  · obtain ⟨d, hd⟩ := Nat.exists_eq_add_of_le hafter
    rw [hd, ← drop_drop, drop_left] at hstart
    rcases lt_or_ge d e.1.length with hinside | hbeyond
    · rw [drop_append_of_le_length hinside.le] at hstart
      exact (h.overlap e he g hg d hinside (Comparable.of_starts (prefix_append _ _) hstart)).2
    · obtain ⟨c, rfl⟩ := Nat.exists_eq_add_of_le hbeyond
      rw [← drop_drop, drop_left] at hstart
      exact absurd (hstart.isInfix.trans (drop_suffix c w).isInfix)
        (h.not_infix_after hf hw hwlt g hg)

/-- An occurrence of one pattern after another one lies behind it. -/
theorem Apart.infix_of_append (h : Apart entries) (he : e ∈ entries) (hf : f ∈ entries)
    (hne : e ≠ f) {rest : List α} (hin : f.1 <:+: e.1 ++ rest) : f.1 <:+: rest := by
  obtain ⟨s, t, hst⟩ := hin
  have hstart : f.1 <+: (e.1 ++ rest).drop s.length := by
    rw [← hst, append_assoc, drop_left]
    exact prefix_append _ _
  rcases lt_or_ge s.length e.1.length with hinside | hbehind
  · rw [drop_append_of_le_length hinside.le] at hstart
    exact absurd (h.overlap e he f hf s.length hinside
      (Comparable.of_starts (prefix_append _ _) hstart)).2 hne
  · obtain ⟨d, hd⟩ := Nat.exists_eq_add_of_le hbehind
    rw [hd, ← drop_drop, drop_left] at hstart
    exact hstart.isInfix.trans (drop_suffix d rest).isInfix

end Around

/-! ### Every occurrence replaced -/

/-- The second list is the first one with every occurrence of a pattern replaced: nothing
that is copied begins an occurrence, and no other occurrence overlaps one that is
replaced. -/
inductive EachReplaced (entries : List (List α × List α)) : List α → List α → Prop
  | nil : EachReplaced entries [] []
  | literal {a : α} {l out : List α} (hcopy : ∀ e ∈ entries, ¬e.1 <+: a :: l)
      (hrest : EachReplaced entries l out) : EachReplaced entries (a :: l) (a :: out)
  | hole {e : List α × List α} {l out : List α} (he : e ∈ entries)
      (hoverlap : ∀ f ∈ entries, ∀ d < e.1.length, f.1 <+: e.1.drop d ++ l → d = 0 ∧ e = f)
      (hrest : EachReplaced entries l out) : EachReplaced entries (e.1 ++ l) (e.2 ++ out)

section EachReplaced

variable {entries : List (List α × List α)} {e f : List α × List α} {l out : List α}

theorem EachReplaced.overlap (hr : EachReplaced entries l out) (he : e ∈ entries)
    (hf : f ∈ entries) (hne : e.1 ≠ []) (hel : e.1 <+: l) {d : Nat} (hd : d < e.1.length)
    (hfl : f.1 <+: l.drop d) (hhole : ∀ g ∈ entries, g.1 ≠ []) : d = 0 ∧ e = f := by
  cases hr with
  | nil => exact absurd (prefix_nil.mp hel) hne
  | literal hcopy _ => exact absurd hel (hcopy e he)
  | @hole g l out hg hoverlap _ =>
    have hpos : 0 < g.1.length := length_pos_iff.mpr (hhole g hg)
    obtain ⟨-, rfl⟩ := hoverlap e he 0 hpos hel
    refine hoverlap f hf d hd ?_
    rwa [drop_append_of_le_length hd.le] at hfl

/-- Patterns are apart when in every list all their occurrences can be replaced. -/
theorem apart_of_eachReplaced (hnodup : (entries.map Prod.fst).Nodup)
    (hne : ∀ e ∈ entries, e.1 ≠ []) (h : ∀ l, ∃ out, EachReplaced entries l out) :
    Apart entries := by
  refine ⟨hnodup, hne, fun e he f hf d hd hcomparable => ?_⟩
  obtain ⟨rest, hfirst⟩ := hcomparable.exists_append
  obtain ⟨out, hr⟩ := h (e.1 ++ rest)
  refine hr.overlap he hf (hne e he) (prefix_append _ _) hd ?_ hne
  rwa [drop_append_of_le_length hd.le]

end EachReplaced

variable [DecidableEq α]

/-! ### One pattern -/

section Pattern

variable {l pat new : List α}

/-- The elements of a replaced occurrence are passed over. -/
theorem replaceFrom_skip (pat new : List α) (skip : Nat) (l : List α) :
    replaceFrom pat new skip l = replaceAll (l.drop skip) pat new := by
  induction l generalizing skip with
  | nil => simp [replaceAll, replaceFrom]
  | cons a l ih =>
    cases skip with
    | zero => rfl
    | succ skip => simpa [replaceFrom] using ih skip

theorem replaceAll_append_self (hpat : pat ≠ []) (new rest : List α) :
    replaceAll (pat ++ rest) pat new = new ++ replaceAll rest pat new := by
  obtain ⟨a, tail, rfl⟩ := exists_cons_of_ne_nil hpat
  rw [replaceAll, cons_append, replaceFrom, if_pos (by simp [prefix_append])]
  simp [replaceFrom_skip]

theorem replaceAll_cons_of_not_start {a : α} (h : ¬pat <+: a :: l) (new : List α) :
    replaceAll (a :: l) pat new = a :: replaceAll l pat new := by
  rw [replaceAll, replaceFrom, if_neg h]
  rfl

/-- A part in which no occurrence begins is copied. -/
theorem replaceAll_append {v rest : List α} (h : ∀ d < v.length, ¬pat <+: v.drop d ++ rest)
    (new : List α) : replaceAll (v ++ rest) pat new = v ++ replaceAll rest pat new := by
  induction v with
  | nil => rfl
  | cons a v ih =>
    have hstart : ¬pat <+: a :: (v ++ rest) := h 0 (by simp)
    rw [cons_append, replaceAll_cons_of_not_start hstart,
      ih fun d hd => h (d + 1) (Nat.succ_lt_succ hd), cons_append]

theorem replaceAll_of_not_within (h : ¬pat <:+: l) (new : List α) : replaceAll l pat new = l := by
  have hstart : ∀ d < l.length, ¬pat <+: l.drop d ++ [] := by
    intro d _ hstart
    rw [append_nil] at hstart
    exact h (hstart.isInfix.trans (drop_suffix d l).isInfix)
  simpa [replaceAll, replaceFrom] using replaceAll_append hstart new

theorem replaceAll_self (hpat : pat ≠ []) (l : List α) : replaceAll l pat pat = l := by
  induction hn : l.length using Nat.strong_induction_on generalizing l with
  | _ n ih =>
    subst hn
    by_cases hstart : pat <+: l
    · obtain ⟨rest, rfl⟩ := hstart
      have hpos : 0 < pat.length := length_pos_iff.mpr hpat
      rw [replaceAll_append_self hpat, ih rest.length (by simp; omega) rest rfl]
    · cases l with
      | nil => rfl
      | cons a l => rw [replaceAll_cons_of_not_start hstart, ih l.length (by simp) l rfl]

/-- What the number of occurrences says about the length of the result. -/
theorem length_replaceAll (hpat : pat ≠ []) (new l : List α) :
    ∃ n, (pat <:+: l → 0 < n) ∧
      (replaceAll l pat new).length + n * pat.length = l.length + n * new.length := by
  have hpos : 0 < pat.length := length_pos_iff.mpr hpat
  induction hn : l.length using Nat.strong_induction_on generalizing l with
  | _ n ih =>
    subst hn
    by_cases hstart : pat <+: l
    · obtain ⟨rest, rfl⟩ := hstart
      obtain ⟨m, -, hm⟩ := ih rest.length (by simp; omega) rest rfl
      refine ⟨m + 1, fun _ => m.succ_pos, ?_⟩
      rw [replaceAll_append_self hpat, length_append, length_append, Nat.succ_mul, Nat.succ_mul]
      omega
    · cases l with
      | nil => exact ⟨0, fun h => absurd (infix_nil.mp h) hpat, by simp [replaceAll, replaceFrom]⟩
      | cons a l =>
        obtain ⟨m, hwithin, hm⟩ := ih l.length (by simp) l rfl
        refine ⟨m, fun h => hwithin ((infix_cons_iff.mp h).resolve_left hstart), ?_⟩
        rw [replaceAll_cons_of_not_start hstart, length_cons, length_cons]
        omega

/-- Replacing an occurrence by something else changes the list. -/
theorem replaceAll_ne_self (hpat : pat ≠ []) (hwithin : pat <:+: l) (hne : new ≠ pat) :
    replaceAll l pat new ≠ l := by
  intro heq
  -- the lengths of the pattern and of what is put in for it are the same
  have hlength : new.length = pat.length := by
    obtain ⟨n, hn, hcount⟩ := length_replaceAll hpat new l
    rw [heq, Nat.add_left_cancel_iff] at hcount
    exact (Nat.eq_of_mul_eq_mul_left (hn hwithin) hcount).symm
  induction l with
  | nil => exact hpat (infix_nil.mp hwithin)
  | cons a l ih =>
    by_cases hstart : pat <+: a :: l
    · obtain ⟨rest, hrest⟩ := hstart
      rw [← hrest, replaceAll_append_self hpat] at heq
      exact hne (append_inj heq hlength).1
    · rw [replaceAll_cons_of_not_start hstart] at heq
      exact ih ((infix_cons_iff.mp hwithin).resolve_left hstart) (cons_inj_right a |>.mp heq)

/-- The result begins with a pattern `q` only when the list does, or when what was put in
agrees with a part of `q`. -/
theorem prefix_replaceAll {q : List α} (h : q <+: replaceAll l pat new) :
    q <+: l ∨ ∃ d < q.length, Comparable new (q.drop d) := by
  induction l generalizing q with
  | nil => exact .inl h
  | cons a l ih =>
    cases q with
    | nil => exact .inl nil_prefix
    | cons b q =>
      by_cases hstart : pat <+: a :: l
      · rw [replaceAll, replaceFrom, if_pos hstart] at h
        exact .inr ⟨0, by simp, Comparable.of_starts (prefix_append new _) h⟩
      · rw [replaceAll_cons_of_not_start hstart, cons_prefix_cons] at h
        obtain ⟨rfl, h⟩ := h
        rcases ih h with hq | ⟨d, hd, hq⟩
        · exact .inl (cons_prefix_cons.mpr ⟨rfl, hq⟩)
        · exact .inr ⟨d + 1, Nat.succ_lt_succ hd, hq⟩

end Pattern

/-! ### One pass -/

/-- Replace the occurrences of the patterns, where the next `skip` elements belong to an
occurrence that has been replaced already. -/
def replaceEachFrom (entries : List (List α × List α)) : Nat → List α → List α
  | _, [] => []
  | skip + 1, _ :: rest => replaceEachFrom entries skip rest
  | 0, a :: rest =>
    match entries.find? fun e => e.1 <+: a :: rest with
    | some e => e.2 ++ replaceEachFrom entries (e.1.length - 1) rest
    | none => a :: replaceEachFrom entries 0 rest

/-- Replace every occurrence of the non-empty patterns in one pass, from left to right. -/
def replaceEach (l : List α) (entries : List (List α × List α)) : List α :=
  replaceEachFrom entries 0 l

/-- Replace the patterns one after another. -/
def replaceInTurn (l : List α) (entries : List (List α × List α)) : List α :=
  entries.foldl (fun l e => l.replaceAll e.1 e.2) l

section OnePass

variable {entries : List (List α × List α)} {e : List α × List α}

theorem replaceEachFrom_skip (entries : List (List α × List α)) (skip : Nat) (l : List α) :
    replaceEachFrom entries skip l = replaceEach (l.drop skip) entries := by
  induction l generalizing skip with
  | nil => simp [replaceEach, replaceEachFrom]
  | cons a l ih =>
    cases skip with
    | zero => rfl
    | succ skip => simpa [replaceEachFrom] using ih skip

theorem replaceEach_nil_entries (l : List α) : replaceEach l [] = l := by
  induction l with
  | nil => rfl
  | cons a l ih => exact congrArg (a :: ·) ih

theorem replaceEach_append_self (h : Apart entries) (he : e ∈ entries) (rest : List α) :
    replaceEach (e.1 ++ rest) entries = e.2 ++ replaceEach rest entries := by
  have hfind : (entries.find? fun f => f.1 <+: e.1 ++ rest) = some e := by
    cases hfind : entries.find? fun f => f.1 <+: e.1 ++ rest with
    | none => exact absurd (prefix_append e.1 rest) (by simpa using find?_eq_none.mp hfind e he)
    | some f =>
      have hf : f.1 <+: e.1 ++ rest := by simpa using find?_some hfind
      rw [h.unique (mem_of_find?_eq_some hfind) he hf (prefix_append e.1 rest)]
  obtain ⟨a, tail, hpat⟩ := exists_cons_of_ne_nil (h.ne_nil e he)
  rw [hpat, cons_append] at hfind ⊢
  rw [replaceEach, replaceEachFrom, hfind]
  simp [replaceEachFrom_skip, hpat]

theorem replaceEach_cons_of_not_start {a : α} {l : List α}
    (h : ∀ e ∈ entries, ¬e.1 <+: a :: l) :
    replaceEach (a :: l) entries = a :: replaceEach l entries := by
  have hfind : (entries.find? fun e => e.1 <+: a :: l) = none := by simpa using h
  rw [replaceEach, replaceEachFrom, hfind]
  rfl

/-- A part in which no pattern begins is copied. -/
theorem replaceEach_append {v rest : List α}
    (h : ∀ e ∈ entries, ∀ d < v.length, ¬e.1 <+: v.drop d ++ rest) :
    replaceEach (v ++ rest) entries = v ++ replaceEach rest entries := by
  induction v with
  | nil => rfl
  | cons a v ih =>
    have hstart : ∀ e ∈ entries, ¬e.1 <+: a :: (v ++ rest) := fun e he => h e he 0 (by simp)
    rw [cons_append, replaceEach_cons_of_not_start hstart,
      ih fun e he d hd => h e he (d + 1) (Nat.succ_lt_succ hd), cons_append]

/-- One pass does not depend on the order of the patterns. -/
theorem replaceEach_perm {entries' : List (List α × List α)} (h : Apart entries)
    (hperm : entries'.Perm entries) (l : List α) :
    replaceEach l entries' = replaceEach l entries := by
  suffices hfrom : ∀ skip, replaceEachFrom entries' skip l = replaceEachFrom entries skip l from
    hfrom 0
  induction l with
  | nil => simp [replaceEachFrom]
  | cons a l ih =>
    rintro (_ | skip)
    · have hfind : (entries'.find? fun e => e.1 <+: a :: l) =
          entries.find? fun e => e.1 <+: a :: l := by
        refine find?_eq_find?_of_perm hperm ?_
        rintro e ⟨he, hel⟩ f ⟨hf, hfl⟩
        exact h.unique (hperm.subset he) (hperm.subset hf) (by simpa using hel) (by simpa using hfl)
      simp only [replaceEachFrom, hfind, ih]
    · simpa [replaceEachFrom] using ih skip

end OnePass

/-! ### Turns -/

section Turns

variable {entries : List (List α × List α)} {e : List α × List α}

/-- One pattern can be replaced before the others when what is put in for it does not
overlap them. -/
theorem replaceEach_cons (h : Apart (e :: entries)) (hvalue : ∀ f ∈ entries, ¬Meets e.2 f.1)
    (l : List α) : replaceEach l (e :: entries) = replaceEach (l.replaceAll e.1 e.2) entries := by
  have htail : Apart entries := h.sublist (sublist_cons_self e entries)
  induction hn : l.length using Nat.strong_induction_on generalizing l with
  | _ n ih =>
    subst hn
    by_cases hself : e.1 <+: l
    · -- the pattern itself: no other one begins in what is put in
      obtain ⟨rest, rfl⟩ := hself
      have hpos : 0 < e.1.length := h.length_pos mem_cons_self
      have hcopy : ∀ f ∈ entries, ∀ d < e.2.length,
          ¬f.1 <+: e.2.drop d ++ rest.replaceAll e.1 e.2 := fun f hf d hd hstart =>
        hvalue f hf (.inl ⟨d, hd, Comparable.of_starts (prefix_append _ _) hstart⟩)
      rw [replaceEach_append_self h mem_cons_self,
        replaceAll_append_self (h.ne_nil e mem_cons_self), replaceEach_append hcopy,
        ih rest.length (by simp; omega) rest rfl]
    · by_cases hother : ∃ f ∈ entries, f.1 <+: l
      · -- another pattern: the first one does not begin in it
        obtain ⟨f, hf, rest, rfl⟩ := hother
        have hpos : 0 < f.1.length := htail.length_pos hf
        have hmem : f ∈ e :: entries := mem_cons_of_mem e hf
        have hcopy : ∀ d < f.1.length, ¬e.1 <+: f.1.drop d ++ rest := fun d hd hstart =>
          h.ne_of_cons hf (h.overlap f hmem e mem_cons_self d hd
            (Comparable.of_starts (prefix_append _ _) hstart)).2.symm
        rw [replaceEach_append_self h hmem, replaceAll_append hcopy,
          replaceEach_append_self htail hf, ih rest.length (by simp; omega) rest rfl]
      · cases l with
        | nil => rfl
        | cons a l =>
          push Not at hother
          -- a pattern that begins here afterwards would reach something that was put in
          have hafter : ∀ f ∈ entries, ¬f.1 <+: a :: l.replaceAll e.1 e.2 := by
            intro f hf hstart
            obtain ⟨b, q, hpat⟩ := exists_cons_of_ne_nil (htail.ne_nil f hf)
            rw [hpat, cons_prefix_cons] at hstart
            obtain ⟨rfl, hq⟩ := hstart
            rcases prefix_replaceAll hq with hq | ⟨d, hd, hq⟩
            · exact hother f hf (hpat ▸ cons_prefix_cons.mpr ⟨rfl, hq⟩)
            · refine hvalue f hf (.inr ⟨d + 1, Nat.succ_pos d, ?_, ?_⟩)
              · simpa [hpat] using hd
              · simpa [hpat] using hq
          rw [replaceAll_cons_of_not_start hself, replaceEach_cons_of_not_start hafter,
            replaceEach_cons_of_not_start, ih l.length (by simp) l rfl]
          rintro f (_ | ⟨_, hf⟩)
          · exact hself
          · exact hother f hf

/-- The entries that change something. -/
def effective (entries : List (List α × List α)) : List (List α × List α) :=
  entries.filter fun e => e.2 ≠ e.1

theorem replaceInTurn_effective (h : ∀ e ∈ entries, e.1 ≠ []) (l : List α) :
    replaceInTurn l (effective entries) = replaceInTurn l entries := by
  induction entries generalizing l with
  | nil => rfl
  | cons e entries ih =>
    have hrest := ih fun f hf => h f (mem_cons_of_mem e hf)
    by_cases hself : e.2 = e.1
    · have hid : l.replaceAll e.1 e.1 = l := replaceAll_self (h e mem_cons_self) l
      simpa [effective, replaceInTurn, hself, hid] using hrest l
    · simpa [effective, replaceInTurn, hself] using hrest (l.replaceAll e.1 e.2)

theorem replaceEach_effective (h : Apart entries) (l : List α) :
    replaceEach l (effective entries) = replaceEach l entries := by
  have hperm : (entries.filter (fun e => e.2 = e.1) ++ effective entries).Perm entries := by
    simpa [effective] using filter_append_perm (fun e : List α × List α => e.2 = e.1) entries
  rw [← replaceEach_perm h hperm]
  have hapart := h.perm hperm
  have hself : ∀ e ∈ entries.filter (fun e => e.2 = e.1), e.2 = e.1 := by simp
  generalize entries.filter (fun e => e.2 = e.1) = same at hapart hself
  induction same generalizing l with
  | nil => rfl
  | cons e same ih =>
    have hvalue : ∀ f ∈ same ++ effective entries, ¬Meets e.2 f.1 := by
      intro f hf
      rw [hself e mem_cons_self]
      exact hapart.not_meets mem_cons_self (mem_cons_of_mem e hf) (hapart.ne_of_cons hf)
    have hid : l.replaceAll e.1 e.2 = l := by
      rw [hself e mem_cons_self, replaceAll_self (hapart.ne_nil e mem_cons_self)]
    have hdrop := replaceEach_cons hapart hvalue l
    rw [hid] at hdrop
    refine Eq.trans ?_ hdrop.symm
    exact ih l (hapart.sublist (sublist_cons_self e _)) fun f hf => hself f (mem_cons_of_mem e hf)

/-- **One pass and turns agree** when nothing that is put in overlaps another pattern. -/
theorem Separated.replaceInTurn_eq (h : Separated entries) (l : List α) :
    replaceInTurn l entries = replaceEach l entries := by
  rw [← replaceInTurn_effective h.ne_nil, ← replaceEach_effective h.toApart]
  have hsep : Separated (effective entries) := h.sublist filter_sublist
  have hchanges : ∀ e ∈ effective entries, e.2 ≠ e.1 := by simp [effective]
  generalize effective entries = entries at hsep hchanges
  induction entries generalizing l with
  | nil => exact (replaceEach_nil_entries l).symm
  | cons e entries ih =>
    have hvalue : ∀ f ∈ entries, ¬Meets e.2 f.1 := fun f hf =>
      (hsep.values e mem_cons_self f (mem_cons_of_mem e hf) (hsep.ne_of_cons hf)).resolve_left
        (hchanges f (mem_cons_of_mem e hf))
    rw [replaceEach_cons hsep.toApart hvalue]
    exact ih (l.replaceAll e.1 e.2) (hsep.sublist (sublist_cons_self e entries))
      fun f hf => hchanges f (mem_cons_of_mem e hf)

end Turns

/-! ### All orders -/

section Orders

variable {entries : List (List α × List α)} {e f : List α × List α} {l out : List α}

theorem Apart.eachReplaced (h : Apart entries) (l : List α) :
    EachReplaced entries l (replaceEach l entries) := by
  induction hn : l.length using Nat.strong_induction_on generalizing l with
  | _ n ih =>
    subst hn
    by_cases hstart : ∃ e ∈ entries, e.1 <+: l
    · obtain ⟨e, he, rest, rfl⟩ := hstart
      have hpos : 0 < e.1.length := h.length_pos he
      rw [replaceEach_append_self h he]
      exact .hole he (fun f hf d hd hfirst =>
        h.overlap e he f hf d hd (Comparable.of_starts (prefix_append _ _) hfirst))
        (ih rest.length (by simp; omega) rest rfl)
    · push Not at hstart
      cases l with
      | nil => exact .nil
      | cons a l =>
        rw [replaceEach_cons_of_not_start hstart]
        exact .literal hstart (ih l.length (by simp) l rfl)

/-- When the patterns are apart, every occurrence is replaced in one way only. -/
theorem EachReplaced.eq_replaceEach (h : Apart entries) (hr : EachReplaced entries l out) :
    out = replaceEach l entries := by
  induction hr with
  | nil => rfl
  | literal hcopy _ ih => rw [replaceEach_cons_of_not_start hcopy, ← ih]
  | hole he _ _ ih => rw [replaceEach_append_self h he, ← ih]

theorem Apart.replaceEach_around (h : Apart entries) (he : e ∈ entries) (hf : f ∈ entries)
    {u w : List α} (hu : u <+: f.1) (hult : u.length < f.1.length)
    (hw : w <:+ f.1) (hwlt : w.length < f.1.length) :
    replaceEach (u ++ (e.1 ++ w)) entries = u ++ (e.2 ++ w) := by
  have hrest : replaceEach w entries = w := by
    have hcopy : ∀ g ∈ entries, ∀ d < w.length, ¬g.1 <+: w.drop d ++ [] := by
      intro g hg d _ hstart
      rw [append_nil] at hstart
      exact h.not_infix_after hf hw hwlt g hg (hstart.isInfix.trans (drop_suffix d w).isInfix)
    simpa [replaceEach, replaceEachFrom] using replaceEach_append hcopy
  rw [replaceEach_append (h.not_prefix_before he hf hu hult w), replaceEach_append_self h he, hrest]

theorem Apart.replaceAll_around (h : Apart entries) (he : e ∈ entries) (hf : f ∈ entries)
    {u w : List α} (hu : u <+: f.1) (hult : u.length < f.1.length)
    (hw : w <:+ f.1) (hwlt : w.length < f.1.length) :
    replaceAll (u ++ (e.1 ++ w)) e.1 e.2 = u ++ (e.2 ++ w) := by
  rw [replaceAll_append (h.not_prefix_before he hf hu hult w e he),
    replaceAll_append_self (h.ne_nil e he),
    replaceAll_of_not_within (h.not_infix_after hf hw hwlt e he)]

/-- Replacing one pattern leaves the occurrences of another one. -/
theorem Apart.infix_replaceAll (h : Apart [e, f]) (hin : f.1 <:+: l) :
    f.1 <:+: l.replaceAll e.1 e.2 := by
  have he : e ∈ [e, f] := mem_cons_self
  have hf : f ∈ [e, f] := mem_cons_of_mem e mem_cons_self
  have hne : e ≠ f := h.ne_of_cons mem_cons_self
  induction hn : l.length using Nat.strong_induction_on generalizing l with
  | _ n ih =>
    subst hn
    by_cases hother : f.1 <+: l
    · obtain ⟨rest, rfl⟩ := hother
      have hcopy : ∀ d < f.1.length, ¬e.1 <+: f.1.drop d ++ rest := fun d hd hstart =>
        hne (h.overlap f hf e he d hd (Comparable.of_starts (prefix_append _ _) hstart)).2.symm
      rw [replaceAll_append hcopy]
      exact (prefix_append _ _).isInfix
    · by_cases hself : e.1 <+: l
      · obtain ⟨rest, rfl⟩ := hself
        have hpos : 0 < e.1.length := h.length_pos he
        rw [replaceAll_append_self (h.ne_nil e he)]
        exact (ih rest.length (by simp; omega) (h.infix_of_append he hf hne hin) rfl).trans
          (suffix_append _ _).isInfix
      · cases l with
        | nil => exact absurd (infix_nil.mp hin) (h.ne_nil f hf)
        | cons a l =>
          rw [replaceAll_cons_of_not_start hself]
          exact (ih l.length (by simp) ((infix_cons_iff.mp hin).resolve_left hother) rfl).trans
            (suffix_cons _ _).isInfix

/-- Where only one of the patterns occurs, one pass replaces that one. -/
theorem Apart.replaceEach_eq_replaceAll (h : Apart entries) (he : e ∈ entries)
    (hothers : ∀ g ∈ entries, g ≠ e → ¬g.1 <:+: l) :
    replaceEach l entries = l.replaceAll e.1 e.2 := by
  induction hn : l.length using Nat.strong_induction_on generalizing l with
  | _ n ih =>
    subst hn
    by_cases hself : e.1 <+: l
    · obtain ⟨rest, rfl⟩ := hself
      have hpos : 0 < e.1.length := h.length_pos he
      have hrest : ∀ g ∈ entries, g ≠ e → ¬g.1 <:+: rest := fun g hg hne hin =>
        hothers g hg hne (hin.trans (suffix_append _ _).isInfix)
      rw [replaceEach_append_self h he, replaceAll_append_self (h.ne_nil e he),
        ih rest.length (by simp; omega) hrest rfl]
    · cases l with
      | nil => rfl
      | cons a l =>
        have hcopy : ∀ g ∈ entries, ¬g.1 <+: a :: l := by
          intro g hg hstart
          by_cases hge : g = e
          · exact hself (hge ▸ hstart)
          · exact hothers g hg hge hstart.isInfix
        have hrest : ∀ g ∈ entries, g ≠ e → ¬g.1 <:+: l := fun g hg hne hin =>
          hothers g hg hne (hin.trans (suffix_cons _ _).isInfix)
        rw [replaceEach_cons_of_not_start hcopy, replaceAll_cons_of_not_start hself,
          ih l.length (by simp) hrest rfl]

/-- Patterns that do not occur can be passed over. -/
theorem replaceInTurn_of_not_within (h : ∀ e ∈ entries, ¬e.1 <:+: l) :
    replaceInTurn l entries = l := by
  induction entries with
  | nil => rfl
  | cons e entries ih =>
    have hself : l.replaceAll e.1 e.2 = l := replaceAll_of_not_within (h e mem_cons_self) e.2
    rw [replaceInTurn, foldl_cons, hself]
    exact ih fun f hf => h f (mem_cons_of_mem e hf)

/-- A value that overlaps another pattern shows in one of the orders. -/
theorem Apart.values_of_turns (h : Apart entries)
    (hturns : ∀ order, order.Perm entries → ∀ l, replaceInTurn l order = replaceEach l entries)
    (he : e ∈ entries) (hf : f ∈ entries) (hne : e ≠ f) : f.2 = f.1 ∨ ¬Meets e.2 f.1 := by
  by_contra hcon
  push Not at hcon
  obtain ⟨hchanges, hmeets⟩ := hcon
  obtain ⟨u, w, hu, hult, hw, hwlt, hwithin⟩ := hmeets.exists_around (h.ne_nil f hf)
  have hnodup : entries.Nodup := h.nodup.of_map
  -- the other patterns first, and the one that is made up last
  let others := entries.filter fun g => g ≠ e ∧ g ≠ f
  have hperm : (others ++ [e, f]).Perm entries := by
    refine (perm_ext_iff_of_nodup ?_ hnodup).mpr fun g => ?_
    · simp [others, nodup_append, hnodup.filter, hne]
    · by_cases hge : g = e <;> by_cases hgf : g = f <;> simp [others, hge, hgf, he, hf]
  have hothers : replaceInTurn (u ++ (e.1 ++ w)) others = u ++ (e.1 ++ w) := by
    refine replaceInTurn_of_not_within fun g hg hoccurs => ?_
    obtain ⟨hmem, hge⟩ := mem_filter.mp hg
    simp only [ne_eq, decide_eq_true_eq] at hge
    exact hge.1 (h.eq_of_infix_around he hf hu hult hw hwlt g hmem hoccurs).symm
  have hturn := hturns _ hperm (u ++ (e.1 ++ w))
  rw [h.replaceEach_around he hf hu hult hw hwlt, replaceInTurn, foldl_append,
    show others.foldl _ _ = _ from hothers] at hturn
  simp only [foldl_cons, foldl_nil, h.replaceAll_around he hf hu hult hw hwlt] at hturn
  exact replaceAll_ne_self (h.ne_nil f hf) hwithin hchanges hturn

/-- **Replacing in turn.** The result is the list with every occurrence replaced, for
every list and in every order of the patterns, exactly when the entries are separated. -/
theorem eachReplaced_iff_separated (hnodup : (entries.map Prod.fst).Nodup)
    (hne : ∀ e ∈ entries, e.1 ≠ []) :
    (∀ l, ∃ out, EachReplaced entries l out ∧
        ∀ order, order.Perm entries → replaceInTurn l order = out) ↔ Separated entries := by
  constructor
  · intro h
    have hapart : Apart entries := apart_of_eachReplaced hnodup hne fun l =>
      let ⟨out, hr, _⟩ := h l
      ⟨out, hr⟩
    refine ⟨hapart, fun e he f hf hef => hapart.values_of_turns (fun order hperm l => ?_) he hf hef⟩
    obtain ⟨out, hr, hturns⟩ := h l
    rw [hturns order hperm, hr.eq_replaceEach hapart]
  · intro h l
    refine ⟨replaceEach l entries, h.eachReplaced l, fun order hperm => ?_⟩
    rw [(h.perm hperm).replaceInTurn_eq, replaceEach_perm h.toApart hperm]

end Orders

end List
