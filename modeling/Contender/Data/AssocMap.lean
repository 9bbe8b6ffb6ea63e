import Mathlib.Data.List.AList

/-!
# Finite maps as association lists

Mathlib's `AList` at a constant value type, with the three bulk operations a
hash map offers on top of lookup, insert and erase: reading off the values,
erasing a list of keys, and retaining the entries that pass a test. The order of
the entries stands for the iteration order of the map.
-/

/-- A finite map from `κ` to `ν`. -/
abbrev AssocMap (κ ν : Type*) := AList fun _ : κ => ν

namespace AList

variable {κ ν : Type*}

/-- The stored values, in iteration order. -/
def values (m : AssocMap κ ν) : List ν := m.entries.map Sigma.snd

/-- Keep the entries that pass the test. -/
def retain (p : κ → ν → Bool) (m : AssocMap κ ν) : AssocMap κ ν :=
  ⟨m.entries.filter fun e => p e.1 e.2,
    m.nodupKeys.sublist List.filter_sublist⟩

theorem length_retain_le (p : κ → ν → Bool) (m : AssocMap κ ν) :
    (m.retain p).entries.length ≤ m.entries.length := List.length_filter_le _ _

variable [DecidableEq κ]

/-- Erase each key of the list. -/
def eraseAll (ks : List κ) (m : AssocMap κ ν) : AssocMap κ ν :=
  ks.foldl (fun m k => m.erase k) m

/-- Insert each entry of the list in turn. -/
def insertAll (es : List (κ × ν)) (m : AssocMap κ ν) : AssocMap κ ν :=
  es.foldl (fun m e => m.insert e.1 e.2) m

theorem mem_values {m : AssocMap κ ν} {v : ν} : v ∈ m.values ↔ ∃ k, m.lookup k = some v := by
  constructor
  · intro h
    obtain ⟨⟨k, w⟩, hmem, rfl⟩ := List.mem_map.mp h
    exact ⟨k, mem_lookup_iff.mpr hmem⟩
  · rintro ⟨k, hk⟩
    exact List.mem_map.mpr ⟨⟨k, v⟩, mem_lookup_iff.mp hk, rfl⟩

theorem mem_iff_lookup {m : AssocMap κ ν} {k : κ} : k ∈ m ↔ ∃ v, m.lookup k = some v := by
  rw [← lookup_isSome, Option.isSome_iff_exists]

theorem lookup_insert_eq_update (m : AssocMap κ ν) (k : κ) (v : ν) :
    (fun j => (m.insert k v).lookup j) = Function.update (fun j => m.lookup j) k (some v) := by
  funext j
  by_cases hj : j = k
  · rw [hj, Function.update_self, lookup_insert]
  · rw [Function.update_of_ne hj, lookup_insert_ne hj]

theorem lookup_erase_eq_update (m : AssocMap κ ν) (k : κ) :
    (fun j => (m.erase k).lookup j) = Function.update (fun j => m.lookup j) k none := by
  funext j
  by_cases hj : j = k
  · rw [hj, Function.update_self, lookup_erase]
  · rw [Function.update_of_ne hj, lookup_erase_ne hj]

theorem lookup_eraseAll (ks : List κ) (m : AssocMap κ ν) (k : κ) :
    (m.eraseAll ks).lookup k = if k ∈ ks then none else m.lookup k := by
  induction ks generalizing m with
  | nil => simp [eraseAll]
  | cons a ks ih =>
    change ((m.erase a).eraseAll ks).lookup k = _
    rw [ih]
    by_cases hmem : k ∈ ks
    · simp [hmem]
    · by_cases hka : k = a
      · subst hka
        simp
      · simp [hmem, hka, lookup_erase_ne hka]

theorem lookup_retain_eq_some {p : κ → ν → Bool} {m : AssocMap κ ν} {k : κ} {v : ν} :
    (m.retain p).lookup k = some v ↔ m.lookup k = some v ∧ p k v = true := by
  rw [← Option.mem_def, mem_lookup_iff, ← Option.mem_def, mem_lookup_iff]
  exact List.mem_filter

theorem mem_of_mem_retain {p : κ → ν → Bool} {m : AssocMap κ ν} {k : κ} (h : k ∈ m.retain p) :
    k ∈ m := by
  obtain ⟨v, hv⟩ := mem_iff_lookup.mp h
  exact mem_iff_lookup.mpr ⟨v, (lookup_retain_eq_some.mp hv).1⟩

theorem length_erase_le (k : κ) (m : AssocMap κ ν) :
    (m.erase k).entries.length ≤ m.entries.length := (List.kerase_sublist k m.entries).length_le

theorem length_insert_le (k : κ) (v : ν) (m : AssocMap κ ν) :
    (m.insert k v).entries.length ≤ m.entries.length + 1 :=
  Nat.succ_le_succ (length_erase_le k m)

theorem length_eraseAll_le (ks : List κ) (m : AssocMap κ ν) :
    (m.eraseAll ks).entries.length ≤ m.entries.length := by
  induction ks generalizing m with
  | nil => exact le_rfl
  | cons k ks ih => exact Nat.le_trans (ih (m.erase k)) (length_erase_le k m)

theorem length_values_eraseAll_le (ks : List κ) (m : AssocMap κ ν) :
    (m.eraseAll ks).values.length ≤ m.values.length := by
  simpa [values] using length_eraseAll_le ks m

theorem mem_eraseAll {ks : List κ} {m : AssocMap κ ν} {k : κ} :
    k ∈ m.eraseAll ks ↔ k ∈ m ∧ k ∉ ks := by
  rw [mem_iff_lookup, mem_iff_lookup]
  constructor
  · rintro ⟨v, hv⟩
    rw [lookup_eraseAll] at hv
    split_ifs at hv with hmem
    exact ⟨⟨v, hv⟩, hmem⟩
  · rintro ⟨⟨v, hv⟩, hmem⟩
    exact ⟨v, by rw [lookup_eraseAll, if_neg hmem]; exact hv⟩

private theorem dlookup_kreplace (k : κ) (v : ν) (l : List (Sigma fun _ : κ => ν)) (j : κ) :
    (List.kreplace k v l).dlookup j =
      if j = k then (l.dlookup k).map fun _ => v else l.dlookup j := by
  induction l with
  | nil => simp [List.kreplace]
  | cons e l ih =>
    obtain ⟨i, w⟩ := e
    unfold List.kreplace at ih ⊢
    by_cases hki : k = i
    · subst hki
      rw [List.lookmap_cons_some _ _ (b := ⟨k, v⟩) (by simp)]
      by_cases hj : j = k
      · subst hj
        simp
      · rw [if_neg hj, List.dlookup_cons_ne _ _ hj]
        exact (List.dlookup_cons_ne l ⟨k, w⟩ hj).symm
    · rw [List.lookmap_cons_none _ _ (by simp [hki])]
      by_cases hji : j = i
      · subst hji
        simp [Ne.symm hki]
      · have hrest : List.dlookup j (⟨i, w⟩ :: l) = List.dlookup j l :=
          List.dlookup_cons_ne l ⟨i, w⟩ hji
        rw [List.dlookup_cons_ne _ _ hji, ih, hrest, List.dlookup_cons_ne _ _ hki]

theorem lookup_replace (k : κ) (v : ν) (m : AssocMap κ ν) (j : κ) :
    (m.replace k v).lookup j = if j = k then (m.lookup k).map fun _ => v else m.lookup j :=
  dlookup_kreplace k v m.entries j

theorem lookup_insertAll_of_notMem {es : List (κ × ν)} {k : κ} (hk : k ∉ es.map Prod.fst)
    (m : AssocMap κ ν) : (m.insertAll es).lookup k = m.lookup k := by
  induction es generalizing m with
  | nil => rfl
  | cons e es ih =>
    rw [List.map_cons, List.mem_cons, not_or] at hk
    exact (ih hk.2 (m.insert e.1 e.2)).trans (lookup_insert_ne hk.1)

/-- A key that the list has gets one of the values it has there. -/
theorem exists_lookup_insertAll {es : List (κ × ν)} {k : κ} (hk : k ∈ es.map Prod.fst)
    (m : AssocMap κ ν) : ∃ v, (k, v) ∈ es ∧ (m.insertAll es).lookup k = some v := by
  induction es generalizing m with
  | nil => exact absurd hk List.not_mem_nil
  | cons e es ih =>
    by_cases hrest : k ∈ es.map Prod.fst
    · obtain ⟨v, hv, hlookup⟩ := ih hrest (m.insert e.1 e.2)
      exact ⟨v, List.mem_cons_of_mem _ hv, hlookup⟩
    · obtain rfl : k = e.1 := (List.mem_cons.mp hk).resolve_right hrest
      refine ⟨e.2, List.mem_cons_self, ?_⟩
      exact (lookup_insertAll_of_notMem hrest (m.insert e.1 e.2)).trans (lookup_insert m)

/-- Among what is listed entry by entry, what belongs to a key comes from its value. -/
theorem filter_flatMap_entries {γ : Type*} {f : κ → ν → List γ} (key : γ → κ)
    (hkey : ∀ k v, ∀ x ∈ f k v, key x = k) (m : AssocMap κ ν) (k : κ) :
    (m.entries.flatMap fun e => f e.1 e.2).filter (fun x => key x = k) =
      (m.lookup k).elim [] (f k) := by
  obtain ⟨entries, hnodup⟩ := m
  change (entries.flatMap fun e => f e.1 e.2).filter _ = (entries.dlookup k).elim [] (f k)
  induction entries with
  | nil => rfl
  | cons e entries ih =>
    obtain ⟨i, v⟩ := e
    rw [List.nodupKeys_cons] at hnodup
    have hrest := ih hnodup.2
    rw [List.flatMap_cons, List.filter_append, hrest]
    by_cases hik : k = i
    · subst hik
      have hall : (f k v).filter (fun x => key x = k) = f k v :=
        List.filter_eq_self.mpr fun x hx => by simpa using hkey k v x hx
      have hnone : entries.dlookup k = none := List.dlookup_eq_none.mpr hnodup.1
      rw [hall, hnone, List.dlookup_cons_eq]
      simp
    · have hnone : (f i v).filter (fun x => key x = k) = [] := by
        rw [List.filter_eq_nil_iff]
        intro x hx
        simpa [hkey i v x hx] using Ne.symm hik
      have hlookup : List.dlookup k (⟨i, v⟩ :: entries) = List.dlookup k entries :=
        List.dlookup_cons_ne entries ⟨i, v⟩ hik
      rw [hnone, List.nil_append, hlookup]

end AList
