import Mathlib.Data.List.Forall2

/-!
# Fallible traversals

A traversal in `Option` or `Except` succeeds exactly when every element does, and
its result is then matched with the input element by element.
-/

namespace Except

universe u

variable {α β : Type u} {ε : Type*}

theorem bind_eq_ok_iff {x : Except ε α} {f : α → Except ε β} {b : β} :
    x >>= f = .ok b ↔ ∃ a, x = .ok a ∧ f a = .ok b := by
  cases x <;> simp [bind, Except.bind]

theorem map_eq_ok_iff {x : Except ε α} {f : α → β} {b : β} :
    x.map f = .ok b ↔ ∃ a, x = .ok a ∧ f a = b := by
  cases x <;> simp [Except.map]

theorem map_eq_error_iff {x : Except ε α} {f : α → β} {e : ε} :
    x.map f = .error e ↔ x = .error e := by
  cases x <;> simp [Except.map]

theorem mapError_eq_ok_iff {ε' : Type*} {x : Except ε α} {f : ε → ε'} {a : α} :
    x.mapError f = .ok a ↔ x = .ok a := by
  cases x <;> simp [Except.mapError]

@[simp] theorem pure_eq_ok_iff {a b : α} : (pure a : Except ε α) = .ok b ↔ a = b := by
  simp [pure, Except.pure]

end Except

namespace List

variable {α β ε : Type*} {l : List α}

theorem mapM_eq_some_iff {f : α → Option β} {r : List β} :
    l.mapM f = some r ↔ Forall₂ (fun x y => f x = some y) l r := by
  induction l generalizing r with
  | nil => cases r <;> simp
  | cons x l ih =>
    rw [mapM_cons]
    cases r with
    | nil => cases f x <;> cases l.mapM f <;> simp
    | cons y r =>
      rw [forall₂_cons, ← ih]
      cases f x <;> cases l.mapM f <;> simp

theorem mapM_isSome {f : α → Option β} : (l.mapM f).isSome ↔ ∀ x ∈ l, (f x).isSome := by
  induction l with
  | nil => simp
  | cons x l ih =>
    rw [mapM_cons, forall_mem_cons, ← ih]
    cases f x <;> cases l.mapM f <;> simp

theorem mapM_eq_some_map {f : α → Option β} {g : α → β} (h : ∀ x ∈ l, f x = some (g x)) :
    l.mapM f = some (l.map g) := by
  rw [mapM_eq_some_iff, forall₂_map_right_iff, forall₂_same]
  exact h

/-- What is computed from each element alone can be computed before it is added up. -/
theorem foldlM_map_eq {σ : Type*} (f : α → Option β) (g : σ → β → σ) (s : σ) :
    l.foldlM (fun s x => (f x).map (g s)) s = (l.mapM f).map (foldl g s) := by
  induction l generalizing s with
  | nil => rfl
  | cons x l ih =>
    rw [foldlM_cons, mapM_cons]
    cases f x with
    | none => rfl
    | some y =>
      change l.foldlM _ (g s y) = _
      rw [ih]
      cases l.mapM f <;> rfl

theorem mapM_eq_ok_iff {f : α → Except ε β} {r : List β} :
    l.mapM f = .ok r ↔ Forall₂ (fun x y => f x = .ok y) l r := by
  induction l generalizing r with
  | nil => cases r <;> simp [pure, Except.pure]
  | cons x l ih =>
    rw [mapM_cons]
    cases r with
    | nil =>
      cases f x <;> cases l.mapM f <;> simp [bind, Except.bind, pure, Except.pure]
    | cons y r =>
      rw [forall₂_cons, ← ih]
      cases f x <;> cases l.mapM f <;> simp [bind, Except.bind, pure, Except.pure]

theorem exists_mapM_eq_ok {f : α → Except ε β} (h : ∀ x ∈ l, ∃ y, f x = .ok y) :
    ∃ r, l.mapM f = .ok r := by
  induction l with
  | nil => exact ⟨[], mapM_eq_ok_iff.mpr .nil⟩
  | cons x l ih =>
    obtain ⟨y, hy⟩ := h x mem_cons_self
    obtain ⟨r, hr⟩ := ih fun x' hx' => h x' (mem_cons_of_mem x hx')
    exact ⟨y :: r, mapM_eq_ok_iff.mpr (.cons hy (mapM_eq_ok_iff.mp hr))⟩

/-- A traversal fails with the error of an element. -/
theorem exists_of_mapM_eq_error {f : α → Except ε β} {e : ε} (h : l.mapM f = .error e) :
    ∃ x ∈ l, f x = .error e := by
  induction l with
  | nil => simp [pure, Except.pure] at h
  | cons x l ih =>
    rw [mapM_cons] at h
    cases hx : f x with
    | error e' =>
      simp only [hx, bind, Except.bind, Except.error.injEq] at h
      exact ⟨x, mem_cons_self, h ▸ hx⟩
    | ok y =>
      cases hl : l.mapM f with
      | error e' =>
        simp only [hx, hl, bind, Except.bind, Except.error.injEq] at h
        obtain ⟨x', hmem, hx'⟩ := ih (h ▸ hl)
        exact ⟨x', mem_cons_of_mem x hmem, hx'⟩
      | ok r => simp [hx, hl, bind, Except.bind, pure, Except.pure] at h

theorem mapM_cons_of_eq_error {f : α → Except ε β} {x : α} {e : ε} (h : f x = .error e)
    (l : List α) : (x :: l).mapM f = .error e := by
  rw [mapM_cons, h]
  rfl

/-- The results that are there are counted by the inputs that have one. -/
theorem length_filterMap_of_mapM_eq_ok {f : α → Except ε (Option β)} {r : List (Option β)}
    {q : α → Prop} [DecidablePred q] (h : l.mapM f = .ok r)
    (hq : ∀ x y, f x = .ok y → (y.isSome ↔ q x)) : (r.filterMap id).length = l.countP q := by
  induction mapM_eq_ok_iff.mp h with
  | nil => rfl
  | @cons x y l r hxy hrest ih =>
    have htail := ih (mapM_eq_ok_iff.mpr hrest)
    have hhead := hq x y hxy
    cases y with
    | none =>
      have hnot : ¬ q x := fun hx => absurd (hhead.mpr hx) (by simp)
      rw [filterMap_cons_none rfl, htail, countP_cons_of_neg (by simpa using hnot)]
    | some b =>
      have hx : q x := hhead.mp rfl
      rw [countP_cons_of_pos (by simpa using hx), ← htail]
      rfl

/-- What a fold has built so far is tied to the elements it has consumed. -/
theorem foldlM_ok_invariant {σ : Type*} {f : σ → α → Except ε σ} {p : List α → σ → Prop}
    (step : ∀ done a s t, p done s → f s a = .ok t → p (done ++ [a]) t) {done : List α} {s t : σ}
    (init : p done s) (h : l.foldlM f s = .ok t) : p (done ++ l) t := by
  induction l generalizing done s with
  | nil =>
    rw [foldlM_nil, Except.pure_eq_ok_iff] at h
    rwa [append_nil, ← h]
  | cons a l ih =>
    rw [foldlM_cons, Except.bind_eq_ok_iff] at h
    obtain ⟨u, hhead, htail⟩ := h
    rw [append_cons]
    exact ih (step done a s u init hhead) htail

/-- What every element keeps, the fold keeps. -/
theorem foldlM_ok_of_forall_mem {σ : Type*} {f : σ → α → Except ε σ} {p : σ → Prop}
    (step : ∀ a ∈ l, ∀ s t, p s → f s a = .ok t → p t) {s t : σ} (init : p s)
    (h : l.foldlM f s = .ok t) : p t := by
  induction l generalizing s with
  | nil =>
    rw [foldlM_nil, Except.pure_eq_ok_iff] at h
    exact h ▸ init
  | cons a l ih =>
    rw [foldlM_cons, Except.bind_eq_ok_iff] at h
    obtain ⟨u, hhead, htail⟩ := h
    have hu := step a mem_cons_self s u init hhead
    exact ih (fun b hb => step b (mem_cons_of_mem a hb)) hu htail

/-- A loop whose rounds succeed under an invariant succeeds. -/
theorem exists_foldlM_ok {σ : Type*} {f : σ → α → Except ε σ} {p : σ → Prop}
    (step : ∀ a ∈ l, ∀ s, p s → ∃ t, f s a = .ok t ∧ p t) {s : σ} (init : p s) :
    ∃ t, l.foldlM f s = .ok t ∧ p t := by
  induction l generalizing s with
  | nil => exact ⟨s, rfl, init⟩
  | cons a l ih =>
    obtain ⟨t, hstep, ht⟩ := step a mem_cons_self s init
    obtain ⟨u, hrest, hu⟩ := ih (fun b hb => step b (mem_cons_of_mem a hb)) ht
    refine ⟨u, ?_, hu⟩
    rw [foldlM_cons, hstep]
    exact hrest

theorem forM_cons_eq_bind (f : α → Except ε PUnit) (a : α) (l : List α) :
    (a :: l).forM f = (f a >>= fun _ => l.forM f) :=
  rfl

/-- Checks in turn either all pass, or end with the first that fails. -/
theorem forM_cases (f : α → Except ε PUnit) (l : List α) :
    (l.forM f = .ok ⟨⟩ ∧ ∀ a ∈ l, f a = .ok ⟨⟩) ∨
      ∃ before a after e, l = before ++ a :: after ∧ (∀ b ∈ before, f b = .ok ⟨⟩) ∧
        f a = .error e ∧ l.forM f = .error e := by
  induction l with
  | nil => exact .inl ⟨rfl, nofun⟩
  | cons a l ih =>
    cases ha : f a with
    | error e =>
      refine .inr ⟨[], a, l, e, rfl, nofun, ha, ?_⟩
      rw [forM_cons_eq_bind, ha]
      rfl
    | ok u =>
      have hrun : (a :: l).forM f = l.forM f := by
        rw [forM_cons_eq_bind, ha]
        rfl
      rcases ih with ⟨hok, hall⟩ | ⟨before, b, after, e, rfl, hbefore, hb, herr⟩
      · exact .inl ⟨hrun.trans hok, forall_mem_cons.mpr ⟨ha, hall⟩⟩
      · exact .inr ⟨a :: before, b, after, e, rfl, forall_mem_cons.mpr ⟨ha, hbefore⟩, hb,
          hrun.trans herr⟩

/-- A loop in a loop is one loop over all the elements. -/
theorem foldlM_flatMap {m : Type u → Type*} [Monad m] [LawfulMonad m] {σ : Type u} {β : Type*}
    (f : α → List β) (g : σ → β → m σ) (l : List α) (s : σ) :
    (l.flatMap f).foldlM g s = l.foldlM (fun s a => (f a).foldlM g s) s := by
  induction l generalizing s with
  | nil => rfl
  | cons a l ih =>
    rw [flatMap_cons, foldlM_append, foldlM_cons]
    exact bind_congr ih

/-- Checks within checks are one run of checks. -/
theorem forM_forM_eq_forM_flatMap {β γ : Type*} (g : γ → Except ε PUnit) (f : α → List β)
    (k : α → β → γ) (l : List α) :
    (l.forM fun a => (f a).forM fun b => g (k a b)) =
      (l.flatMap fun a => (f a).map (k a)).forM g := by
  have happend (r t : List γ) : (r ++ t).forM g = r.forM g >>= fun _ => t.forM g := by
    induction r with
    | nil => rfl
    | cons c r ih =>
      rw [cons_append, forM_cons_eq_bind, forM_cons_eq_bind, ih]
      cases g c <;> rfl
  induction l with
  | nil => rfl
  | cons a l ih =>
    have hmap : ((f a).map (k a)).forM g = (f a).forM fun b => g (k a b) := by
      induction f a with
      | nil => rfl
      | cons b r ihr => rw [map_cons, forM_cons_eq_bind, forM_cons_eq_bind, ihr]
    rw [forM_cons_eq_bind, flatMap_cons, happend, ih, hmap]

/-- Each result stands where its input stands. -/
theorem Forall₂.getElem?_right {R : α → β → Prop} {r : List β} (h : Forall₂ R l r) {j : Nat}
    {y : β} (hy : r[j]? = some y) : ∃ x, l[j]? = some x ∧ R x y := by
  induction h generalizing j with
  | nil => simp at hy
  | cons hxy _ ih =>
    cases j with
    | zero =>
      obtain rfl := Option.some.inj hy
      exact ⟨_, rfl, hxy⟩
    | succ j => exact ih hy

/-- Reading a field off the results reads it off the inputs, when the traversal
copies it. -/
theorem Forall₂.map_eq {γ : Type*} {R : α → β → Prop} {r : List β} {g : α → γ} {k : β → γ}
    (h : Forall₂ R l r) (copied : ∀ x y, R x y → k y = g x) : r.map k = l.map g := by
  induction h with
  | nil => rfl
  | cons hxy _ ih => rw [map_cons, map_cons, copied _ _ hxy, ih]

/-- Every result comes from an input. -/
theorem Forall₂.exists_of_mem_right {R : α → β → Prop} {r : List β} (h : Forall₂ R l r) {y : β}
    (hy : y ∈ r) : ∃ x ∈ l, R x y := by
  induction h with
  | nil => exact absurd hy not_mem_nil
  | cons hxy _ ih =>
    rcases mem_cons.mp hy with rfl | hy
    · exact ⟨_, mem_cons_self, hxy⟩
    · obtain ⟨x, hx, hR⟩ := ih hy
      exact ⟨x, mem_cons_of_mem _ hx, hR⟩

/-- Every input has its result. -/
theorem Forall₂.exists_of_mem_left {R : α → β → Prop} {r : List β} (h : Forall₂ R l r) {x : α}
    (hx : x ∈ l) : ∃ y ∈ r, R x y := by
  induction h with
  | nil => exact absurd hx not_mem_nil
  | cons hxy _ ih =>
    rcases mem_cons.mp hx with rfl | hx
    · exact ⟨_, mem_cons_self, hxy⟩
    · obtain ⟨y, hy, hR⟩ := ih hx
      exact ⟨y, mem_cons_of_mem _ hy, hR⟩

/-- The concatenated results of a traversal are the elements of the results. -/
theorem flatten_mapM_eq_ok {f : α → Except ε (List β)} {r : List β}
    (h : (l.mapM f).map flatten = .ok r) :
    (∀ x ∈ l, ∃ ys, f x = .ok ys ∧ ys ⊆ r) ∧ ∀ y ∈ r, ∃ x ∈ l, ∃ ys, f x = .ok ys ∧ y ∈ ys := by
  obtain ⟨results, hmap, rfl⟩ := Except.map_eq_ok_iff.mp h
  have hforall := mapM_eq_ok_iff.mp hmap
  refine ⟨fun x hx => ?_, fun y hy => ?_⟩
  · obtain ⟨ys, hys, hf⟩ := hforall.exists_of_mem_left hx
    exact ⟨ys, hf, fun y hy => mem_flatten.mpr ⟨ys, hys, hy⟩⟩
  · obtain ⟨ys, hys, hy⟩ := mem_flatten.mp hy
    obtain ⟨x, hx, hf⟩ := hforall.exists_of_mem_right hys
    exact ⟨x, hx, ys, hf, hy⟩

/-- Two lists that correspond both ways do so element by element. -/
theorem Forall₂.exists_of_flip {R : α → β → Prop} {S : β → α → Prop} {r : List β}
    (h : Forall₂ R l r) (h' : Forall₂ S r l) {x : α} (hx : x ∈ l) : ∃ y, R x y ∧ S y x := by
  induction h with
  | nil => exact absurd hx not_mem_nil
  | cons hxy _ ih =>
    obtain ⟨hyx, hrest⟩ := forall₂_cons.mp h'
    rcases mem_cons.mp hx with rfl | hx
    · exact ⟨_, hxy, hyx⟩
    · exact ih hrest hx

/-- A field that every element has, read off element by element. -/
theorem filterMap_of_map_eq {f : α → Option β} {values : List β}
    (h : l.map f = values.map some) : l.filterMap f = values := by
  calc l.filterMap f = (l.map f).filterMap id := by rw [filterMap_map]; rfl
    _ = (values.map some).filterMap id := by rw [h]
    _ = values := by simp

theorem length_filterMap_of_map_eq {f : α → Option β} {l' : List α}
    {values : List β} (h : l.map f = values.map some) (hsub : l'.Sublist l) :
    (l'.filterMap f).length = l'.length := by
  rw [length_filterMap_eq_countP, countP_eq_length]
  intro x hx
  have hmem : f x ∈ values.map some := h ▸ mem_map_of_mem (hsub.subset hx)
  obtain ⟨y, -, hy⟩ := mem_map.mp hmem
  rw [← hy]
  rfl

/-- The part of an indexed list before an element is as long as its index says. -/
theorem length_of_zipIdx_eq_append {done rest : List (α × ℕ)} {a : α} {i : ℕ}
    (h : l.zipIdx = done ++ (a, i) :: rest) : done.length = i := by
  have hat : l.zipIdx[done.length]? = some (a, i) := by
    rw [h, getElem?_append_right (Nat.le_refl _)]
    simp
  rw [getElem?_zipIdx] at hat
  obtain ⟨b, -, hpair⟩ := Option.map_eq_some_iff.mp hat
  have hindex := congrArg Prod.snd hpair
  simpa using hindex

/-- The numbers before a number of a range are the range up to it. -/
theorem eq_range_of_range_eq_append {n i : ℕ} {done rest : List ℕ}
    (h : range n = done ++ i :: rest) : done = range i := by
  have hat : (range n)[done.length]? = some i := by
    rw [h, getElem?_append_right (Nat.le_refl _)]
    simp
  obtain ⟨hlt, hindex⟩ := getElem?_eq_some_iff.mp hat
  rw [getElem_range] at hindex
  rw [length_range] at hlt
  calc done = (range n).take done.length := by rw [h, take_left]
    _ = range i := by rw [take_range, hindex, Nat.min_eq_left (Nat.le_of_lt (hindex ▸ hlt))]

end List

namespace Option

universe v

theorem mapM_eq_ok_iff {α β : Type v} {ε : Type*} {f : α → Except ε β} {o : Option α}
    {r : Option β} :
    o.mapM f = .ok r ↔ (o = none ∧ r = none) ∨ ∃ a b, o = some a ∧ f a = .ok b ∧ r = some b := by
  cases o with
  | none =>
    rw [Option.mapM_none, Except.pure_eq_ok_iff]
    simp [eq_comm]
  | some a =>
    change (f a).map some = .ok r ↔ _
    rw [Except.map_eq_ok_iff]
    simp [eq_comm]

end Option
