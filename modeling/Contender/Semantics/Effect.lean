import Mathlib.Data.List.Forall2

/-!
# Programs with errors and state

`EStateM ε σ α` is a program that reads and writes a state `σ` and ends with a
value or an error; a program that fails keeps the writes it made before. The
rules below take a successful run of a compound program apart, so that a proof
about a `do` block never unfolds the monad.
-/

namespace EStateM

universe u

variable {ε σ α β : Type u}

@[simp] theorem pure_eq_ok {a b : α} {s t : σ} :
    (pure a : EStateM ε σ α) s = .ok b t ↔ a = b ∧ s = t := by
  simp [pure, EStateM.pure]

theorem bind_eq_ok {x : EStateM ε σ α} {f : α → EStateM ε σ β} {s t : σ} {b : β} :
    (x >>= f) s = .ok b t ↔ ∃ a u, x s = .ok a u ∧ f a u = .ok b t := by
  simp only [bind, EStateM.bind]
  cases x s <;> simp

@[simp] theorem get_eq_ok {s t u : σ} :
    (get : EStateM ε σ σ) s = .ok t u ↔ s = t ∧ s = u := by
  change (Result.ok s s : Result ε σ σ) = .ok t u ↔ _
  rw [Result.ok.injEq]

theorem run_get_bind (f : σ → EStateM ε σ α) (s : σ) :
    ((get : EStateM ε σ σ) >>= f) s = f s s := rfl

@[simp] theorem modify_eq_ok {f : σ → σ} {s t : σ} {b : PUnit} :
    (modify f : EStateM ε σ PUnit) s = .ok b t ↔ f s = t := by
  change (Result.ok PUnit.unit (f s) : Result ε σ PUnit) = .ok b t ↔ _
  rw [Result.ok.injEq]
  exact and_iff_right rfl

@[simp] theorem throw_eq_ok {e : ε} {s t : σ} {b : α} :
    ¬(throw e : EStateM ε σ α) s = .ok b t := by
  change ¬(Result.error e s : Result ε σ α) = .ok b t
  exact nofun

theorem map_eq_ok {x : EStateM ε σ α} {f : α → β} {s t : σ} {b : β} :
    (f <$> x) s = .ok b t ↔ ∃ a, x s = .ok a t ∧ f a = b := by
  rw [map_eq_pure_bind, bind_eq_ok]
  constructor
  · rintro ⟨a, u, ha, hpure⟩
    obtain ⟨rfl, rfl⟩ := pure_eq_ok.mp hpure
    exact ⟨a, ha, rfl⟩
  · rintro ⟨a, ha, rfl⟩
    exact ⟨a, t, ha, pure_eq_ok.mpr ⟨rfl, rfl⟩⟩

/-- Mapping the result of every step maps the list of results. -/
theorem mapM_map {γ : Type u} (f : β → γ) (g : α → EStateM ε σ β) (l : List α) :
    l.mapM (fun a => f <$> g a) = List.map f <$> l.mapM g := by
  induction l with
  | nil => simp
  | cons a l ih =>
    rw [List.mapM_cons, List.mapM_cons, ih]
    simp

/-- A program that runs a step on each element of a list succeeds exactly when
the steps succeed one after another. -/
theorem mapM_cons_eq_ok {f : α → EStateM ε σ β} {a : α} {l : List α} {bs : List β} {s t : σ} :
    (a :: l).mapM f s = .ok bs t ↔
      ∃ b u bs', f a s = .ok b u ∧ l.mapM f u = .ok bs' t ∧ b :: bs' = bs := by
  rw [List.mapM_cons]
  simp only [bind_eq_ok, pure_eq_ok]
  constructor
  · rintro ⟨b, u, hb, bs', v, hbs, rfl, rfl⟩
    exact ⟨b, u, bs', hb, hbs, rfl⟩
  · rintro ⟨b, u, bs', hb, hbs, rfl⟩
    exact ⟨b, u, hb, bs', t, hbs, rfl, rfl⟩

theorem mapM_nil_eq_ok {f : α → EStateM ε σ β} {bs : List β} {s t : σ} :
    ([] : List α).mapM f s = .ok bs t ↔ [] = bs ∧ s = t := by
  rw [List.mapM_nil, pure_eq_ok]

/-- Every element is related to its result in the way the step relates them. -/
theorem forall₂_of_mapM_eq_ok {R : α → β → Prop} {f : α → EStateM ε σ β}
    (hf : ∀ a s b t, f a s = .ok b t → R a b) {l : List α} {bs : List β} {s t : σ}
    (h : l.mapM f s = .ok bs t) : List.Forall₂ R l bs := by
  induction l generalizing s bs with
  | nil =>
    obtain ⟨rfl, -⟩ := mapM_nil_eq_ok.mp h
    exact .nil
  | cons a l ih =>
    obtain ⟨b, u, bs', hb, hbs, rfl⟩ := mapM_cons_eq_ok.mp h
    exact .cons (hf a s b u hb) (ih hbs)

/-- Every element has one result. -/
theorem length_of_mapM_eq_ok {f : α → EStateM ε σ β} {l : List α} {bs : List β} {s t : σ}
    (h : l.mapM f s = .ok bs t) : bs.length = l.length :=
  (forall₂_of_mapM_eq_ok (R := fun _ _ => True) (fun _ _ _ _ _ => trivial) h).length_eq.symm

/-- Two lists are gone through one after the other. -/
theorem mapM_append_eq_ok {f : α → EStateM ε σ β} {l m : List α} {bs : List β} {s t : σ} :
    (l ++ m).mapM f s = .ok bs t ↔
      ∃ u ls ms, l.mapM f s = .ok ls u ∧ m.mapM f u = .ok ms t ∧ ls ++ ms = bs := by
  induction l generalizing s bs with
  | nil =>
    simp only [List.nil_append, mapM_nil_eq_ok]
    constructor
    · intro h
      exact ⟨s, [], bs, ⟨rfl, rfl⟩, h, rfl⟩
    · rintro ⟨u, ls, ms, ⟨rfl, rfl⟩, h, rfl⟩
      exact h
  | cons a l ih =>
    simp only [List.cons_append, mapM_cons_eq_ok, ih]
    constructor
    · rintro ⟨b, v, _, hb, ⟨u, ls, ms, hls, hms, rfl⟩, rfl⟩
      exact ⟨u, b :: ls, ms, ⟨b, v, ls, hb, hls, rfl⟩, hms, rfl⟩
    · rintro ⟨u, _, ms, ⟨b, v, ls, hb, hls, rfl⟩, hms, rfl⟩
      exact ⟨b, v, ls ++ ms, hb, ⟨u, ls, ms, hls, hms, rfl⟩, rfl⟩

/-- What every step of a loop keeps holds after the loop. -/
theorem forM_ok_invariant {I : σ → Prop} {f : α → EStateM ε σ PUnit} {l : List α}
    (step : ∀ a ∈ l, ∀ s t, I s → f a s = .ok ⟨⟩ t → I t) {s t : σ} (hs : I s)
    (h : l.forM f s = .ok ⟨⟩ t) : I t := by
  induction l generalizing s with
  | nil =>
    obtain ⟨-, rfl⟩ := pure_eq_ok.mp h
    exact hs
  | cons a l ih =>
    obtain ⟨⟨⟩, u, ha, hl⟩ := bind_eq_ok.mp h
    have hu := step a List.mem_cons_self s u hs ha
    exact ih (fun b hb => step b (List.mem_cons_of_mem a hb)) hu hl

theorem bind_of_ok {x : EStateM ε σ α} {f : α → EStateM ε σ β} {s t : σ} {a : α}
    (h : x s = .ok a t) : (x >>= f) s = f a t := by
  simp only [bind, EStateM.bind, h]

/-! ### Failed runs -/

theorem bind_of_error {x : EStateM ε σ α} {f : α → EStateM ε σ β} {s t : σ} {e : ε}
    (h : x s = .error e t) : (x >>= f) s = .error e t := by
  simp only [bind, EStateM.bind, h]

@[simp] theorem pure_eq_error {a : α} {e : ε} {s t : σ} :
    ¬(pure a : EStateM ε σ α) s = .error e t := by
  change ¬(Result.ok a s : Result ε σ α) = .error e t
  exact nofun

theorem bind_eq_error {x : EStateM ε σ α} {f : α → EStateM ε σ β} {s t : σ} {e : ε} :
    (x >>= f) s = .error e t ↔
      x s = .error e t ∨ ∃ a u, x s = .ok a u ∧ f a u = .error e t := by
  simp only [bind, EStateM.bind]
  cases x s <;> simp

@[simp] theorem get_eq_error {e : ε} {s t : σ} : ¬(get : EStateM ε σ σ) s = .error e t := by
  change ¬(Result.ok s s : Result ε σ σ) = .error e t
  exact nofun

@[simp] theorem modify_eq_error {f : σ → σ} {e : ε} {s t : σ} :
    ¬(modify f : EStateM ε σ PUnit) s = .error e t := by
  change ¬(Result.ok PUnit.unit (f s) : Result ε σ PUnit) = .error e t
  exact nofun

@[simp] theorem throw_eq_error {e e' : ε} {s t : σ} :
    (throw e : EStateM ε σ α) s = .error e' t ↔ e = e' ∧ s = t := by
  change (Result.error e s : Result ε σ α) = .error e' t ↔ _
  rw [Result.error.injEq]

/-- The state a run ends in, with or without an error. -/
def Result.state : Result ε σ α → σ
  | .ok _ s => s
  | .error _ s => s

/-- The run ends without an error. -/
def Result.isOk : Result ε σ α → Bool
  | .ok _ _ => true
  | .error _ _ => false

theorem Result.exists_of_isOk {r : Result ε σ α} (h : r.isOk = true) : ∃ a s, r = .ok a s := by
  cases r with
  | ok a s => exact ⟨a, s, rfl⟩
  | error e s => cases h

/-- However a run of the program ends, the part `part` of the state is as it was
at the start. -/
def Keeps {γ : Type*} (part : σ → γ) (x : EStateM ε σ α) : Prop :=
  ∀ s, part (x s).state = part s

namespace Keeps

variable {γ : Type*} {part : σ → γ}

theorem of_ok {x : EStateM ε σ α} (h : Keeps part x) {s t : σ} {a : α} (hrun : x s = .ok a t) :
    part t = part s := by
  have := h s
  rwa [hrun] at this

theorem of_error {x : EStateM ε σ α} (h : Keeps part x) {s t : σ} {e : ε}
    (hrun : x s = .error e t) : part t = part s := by
  have := h s
  rwa [hrun] at this

theorem pure (a : α) : Keeps part (Pure.pure a : EStateM ε σ α) := fun _ => rfl

theorem throw (e : ε) : Keeps part (MonadExcept.throw e : EStateM ε σ α) := fun _ => rfl

theorem get : Keeps part (MonadState.get : EStateM ε σ σ) := fun _ => rfl

theorem update {f : σ → σ} (h : ∀ s, part (f s) = part s) :
    Keeps part (modify f : EStateM ε σ PUnit) := h

theorem bind {x : EStateM ε σ α} {f : α → EStateM ε σ β} (hx : Keeps part x)
    (hf : ∀ a, Keeps part (f a)) : Keeps part (x >>= f) := by
  intro s
  have hxs := hx s
  simp only [Bind.bind, EStateM.bind]
  cases hrun : x s with
  | ok a t =>
    rw [hrun] at hxs
    exact (hf a t).trans hxs
  | error e t =>
    rw [hrun] at hxs
    exact hxs

theorem mapM {f : α → EStateM ε σ β} (hf : ∀ a, Keeps part (f a)) (l : List α) :
    Keeps part (l.mapM f) := by
  induction l with
  | nil =>
    rw [List.mapM_nil]
    exact pure _
  | cons a l ih =>
    rw [List.mapM_cons]
    exact (hf a).bind fun _ => ih.bind fun _ => pure _

end Keeps

/-- However a run of the program ends, its last state is related to its first
one. -/
def Relates (R : σ → σ → Prop) (x : EStateM ε σ α) : Prop := ∀ s, R s (x s).state

namespace Relates

variable {R : σ → σ → Prop}

theorem of_keeps {γ : Type*} {part : σ → γ} {x : EStateM ε σ α}
    (hpart : ∀ s t, part t = part s → R s t) (h : Keeps part x) : Relates R x :=
  fun s => hpart s _ (h s)

/-- Two programs one after the other: the second one may not be reached. -/
theorem comp {S T : σ → σ → Prop} {x : EStateM ε σ α} {f : α → EStateM ε σ β}
    (hx : Relates R x) (hf : ∀ a, Relates S (f a)) (hleft : ∀ s t, R s t → T s t)
    (hboth : ∀ s t u, R s t → S t u → T s u) : Relates T (x >>= f) := by
  intro s
  have hxs := hx s
  simp only [Bind.bind, EStateM.bind]
  cases hrun : x s with
  | ok a t =>
    rw [hrun] at hxs
    exact hboth s t _ hxs (hf a t)
  | error e t =>
    rw [hrun] at hxs
    exact hleft s t hxs

theorem bind [IsTrans σ R] {x : EStateM ε σ α} {f : α → EStateM ε σ β} (hx : Relates R x)
    (hf : ∀ a, Relates R (f a)) : Relates R (x >>= f) :=
  hx.comp hf (fun _ _ h => h) fun _ _ _ => trans_of R

theorem mapM [IsTrans σ R] [Std.Refl R] {f : α → EStateM ε σ β} (hf : ∀ a, Relates R (f a))
    (l : List α) : Relates R (l.mapM f) := by
  induction l with
  | nil =>
    rw [List.mapM_nil]
    exact fun s => refl_of R s
  | cons a l ih =>
    rw [List.mapM_cons]
    exact (hf a).bind fun _ => ih.bind fun _ s => refl_of R s

end Relates

/-- Every value the program returns satisfies `P`. -/
def Returns (P : α → Prop) (x : EStateM ε σ α) : Prop := ∀ s a t, x s = .ok a t → P a

namespace Returns

theorem pure {P : α → Prop} {a : α} (h : P a) : Returns P (Pure.pure a : EStateM ε σ α) := by
  intro s b t hrun
  obtain ⟨rfl, -⟩ := pure_eq_ok.mp hrun
  exact h

theorem bind {P : α → Prop} {Q : β → Prop} {x : EStateM ε σ α} {f : α → EStateM ε σ β}
    (hx : Returns P x) (hf : ∀ a, P a → Returns Q (f a)) : Returns Q (x >>= f) := by
  intro s b t hrun
  obtain ⟨a, u, ha, hb⟩ := bind_eq_ok.mp hrun
  exact hf a (hx s a u ha) u b t hb

theorem true (x : EStateM ε σ α) : Returns (fun _ => True) x := fun _ _ _ _ => trivial

end Returns

/-- From a state that satisfies `P`, a run that succeeds ends in one that satisfies `Q`, and a
run that fails in one that satisfies `E`. -/
def Triple (P : σ → Prop) (x : EStateM ε σ α) (Q E : σ → Prop) : Prop :=
  ∀ s, P s → match x s with
    | .ok _ t => Q t
    | .error _ t => E t

namespace Triple

variable {P Q R E : σ → Prop}

theorem pure (h : ∀ s, P s → Q s) (a : α) : Triple P (Pure.pure a : EStateM ε σ α) Q E := h

theorem throw (h : ∀ s, P s → E s) (e : ε) :
    Triple P (MonadExcept.throw e : EStateM ε σ α) Q E := h

theorem update {f : σ → σ} (h : ∀ s, P s → Q (f s)) :
    Triple P (modify f : EStateM ε σ PUnit) Q E := h

theorem bind {x : EStateM ε σ α} {f : α → EStateM ε σ β} (hx : Triple P x Q E)
    (hf : ∀ a, Triple Q (f a) R E) : Triple P (x >>= f) R E := by
  intro s hs
  have hxs := hx s hs
  simp only [Bind.bind, EStateM.bind]
  cases hrun : x s with
  | ok a t =>
    rw [hrun] at hxs
    exact hf a t hxs
  | error e t =>
    rw [hrun] at hxs
    exact hxs

theorem get (h : ∀ s, P s → Q s) : Triple P (MonadState.get : EStateM ε σ σ) Q E := h

/-- What reads a part of the state only holds still when the program keeps that part. -/
theorem of_keeps {γ : Type*} {part : σ → γ} {p : γ → Prop} {x : EStateM ε σ α}
    (h : Keeps part x) :
    Triple (fun s => p (part s)) x (fun s => p (part s)) fun s => p (part s) := by
  intro s hs
  cases hrun : x s with
  | ok a t =>
    change p (part t)
    rw [h.of_ok hrun]
    exact hs
  | error e t =>
    change p (part t)
    rw [h.of_error hrun]
    exact hs

theorem mono {Q' E' : σ → Prop} {x : EStateM ε σ α} (h : Triple P x Q E) (hQ : ∀ s, Q s → Q' s)
    (hE : ∀ s, E s → E' s) : Triple P x Q' E' := by
  intro s hs
  have hxs := h s hs
  cases hrun : x s with
  | ok a t =>
    rw [hrun] at hxs
    exact hQ t hxs
  | error e t =>
    rw [hrun] at hxs
    exact hE t hxs

theorem of_ok {x : EStateM ε σ α} (h : Triple P x Q E) {s t : σ} {a : α} (hs : P s)
    (hrun : x s = .ok a t) : Q t := by
  have hxs := h s hs
  rwa [hrun] at hxs

theorem of_error {x : EStateM ε σ α} (h : Triple P x Q E) {s t : σ} {e : ε} (hs : P s)
    (hrun : x s = .error e t) : E t := by
  have hxs := h s hs
  rwa [hrun] at hxs

/-- The rest of a program, by what the run before it gives. -/
theorem bind_run {x : EStateM ε σ α} {f : α → EStateM ε σ β} {s : σ}
    (herror : ∀ e t, x s = .error e t → E t)
    (hok : ∀ a t, x s = .ok a t → Triple (· = t) (f a) Q E) : Triple (· = s) (x >>= f) Q E := by
  intro u hu
  rw [hu]
  cases hrun : x s with
  | ok a t =>
    rw [bind_of_ok hrun]
    exact hok a t hrun t rfl
  | error e t =>
    rw [bind_of_error hrun]
    exact herror e t hrun

/-- A loop, by what holds after each part of the list. -/
theorem forM {I : List α → σ → Prop} {f : α → EStateM ε σ PUnit} {l : List α}
    (hf : ∀ done a rest, l = done ++ a :: rest → Triple (I done) (f a) (I (done ++ [a])) E) :
    Triple (I []) (l.forM f) (I l) E := by
  have hrest : ∀ rest done, l = done ++ rest → Triple (I done) (rest.forM f) (I l) E := by
    intro rest
    induction rest with
    | nil =>
      intro done hl
      rw [List.append_nil] at hl
      exact pure (fun _ hs => hl ▸ hs) _
    | cons a rest ih =>
      intro done hl
      exact bind (hf done a rest hl) fun _ => ih (done ++ [a]) (by rw [hl, List.append_cons])
  exact hrest l [] rfl

/-- However the run ends, what holds in both cases holds of its last state. -/
theorem state {x : EStateM ε σ α} (h : Triple P x Q E) (hQ : ∀ s, Q s → R s)
    (hE : ∀ s, E s → R s) {s : σ} (hs : P s) : R (x s).state := by
  have hxs := h s hs
  cases hrun : x s with
  | ok a t =>
    rw [hrun] at hxs
    exact hQ t hxs
  | error e t =>
    rw [hrun] at hxs
    exact hE t hxs

end Triple

end EStateM
