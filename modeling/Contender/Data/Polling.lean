import Mathlib.Data.Seq.Defs

/-!
# Polling until a verdict

The same question is asked again until an answer has a verdict. The answers are a finite or
infinite sequence; behind the end of a finite one the question stays open.
-/

namespace Contender.Polling

open Stream'

variable {α β : Type*}

/-- The verdict that the first `n` answers reach. -/
def poll (verdict : α → Option β) : ℕ → Seq α → Option β
  | 0, _ => none
  | n + 1, answers =>
    match answers.head with
    | none => none
    | some a =>
      match verdict a with
      | some b => some b
      | none => poll verdict n answers.tail

/-- `a` is the answer at place `n`, and the first with the property `p`. -/
structure FirstAt (p : α → Prop) (answers : Seq α) (n : ℕ) (a : α) : Prop where
  answer : answers.get? n = some a
  holds : p a
  before : ∀ m < n, ∀ b, answers.get? m = some b → ¬ p b

variable {p : α → Prop} {verdict : α → Option β} {answers : Seq α} {n : ℕ} {a : α}

theorem FirstAt.tail (h : FirstAt p answers (n + 1) a) : FirstAt p answers.tail n a where
  answer := by rw [Seq.get?_tail, h.answer]
  holds := h.holds
  before m hm b hb := h.before (m + 1) (by omega) b (by rw [← Seq.get?_tail, hb])

/-- Either some answer is the first with the property, or none has it. -/
theorem exists_firstAt_or (p : α → Prop) (answers : Seq α) :
    (∃ n a, FirstAt p answers n a) ∨ ∀ n a, answers.get? n = some a → ¬ p a := by
  classical
  by_cases hex : ∃ n a, answers.get? n = some a ∧ p a
  · obtain ⟨a, hanswer, holds⟩ := Nat.find_spec hex
    refine .inl ⟨Nat.find hex, a, hanswer, holds, fun m hm b hb hp => ?_⟩
    exact Nat.find_min hex hm ⟨b, hb, hp⟩
  · exact .inr fun n a ha hp => hex ⟨n, a, ha, hp⟩

/-- Without a verdict on any answer the question stays open. -/
theorem poll_eq_none (h : ∀ m < n, ∀ b, answers.get? m = some b → verdict b = none) :
    poll verdict n answers = none := by
  induction n generalizing answers with
  | zero => rfl
  | succ n ih =>
    unfold poll
    split
    · rfl
    · rename_i a ha
      rw [h 0 (by omega) a ha]
      exact ih fun m hm b hb => h (m + 1) (by omega) b (by rw [← Seq.get?_tail, hb])

/-- Before the first answer that can have a verdict there is none. -/
theorem FirstAt.poll_eq_none (h : FirstAt p answers n a) (hp : ∀ b, ¬ p b → verdict b = none)
    {k : ℕ} (hk : k ≤ n) : poll verdict k answers = none :=
  Polling.poll_eq_none fun m hm b hb => hp b (h.before m (by omega) b hb)

/-- The first answer that can have a verdict is read in the round of its place. -/
theorem FirstAt.poll_succ (h : FirstAt p answers n a) (hp : ∀ b, ¬ p b → verdict b = none) :
    poll verdict (n + 1) answers = verdict a := by
  induction n generalizing answers with
  | zero =>
    have hhead : answers.head = some a := h.answer
    cases hb : verdict a <;> simp only [poll, hhead, hb]
  | succ n ih =>
    cases hhead : answers.head with
    | none =>
      -- a sequence that has ended has no later answer
      have := answers.le_stable (Nat.zero_le (n + 1)) hhead
      rw [h.answer] at this
      cases this
    | some c =>
      have hc : verdict c = none := hp c (h.before 0 (by omega) c hhead)
      rw [poll]
      simp only [hhead, hc]
      exact ih h.tail

/-- A verdict is the one on some answer. -/
theorem exists_of_poll_eq_some {b : β} (h : poll verdict n answers = some b) :
    ∃ m a, answers.get? m = some a ∧ verdict a = some b := by
  induction n generalizing answers with
  | zero => cases h
  | succ n ih =>
    rw [poll] at h
    split at h
    · cases h
    rename_i a ha
    split at h
    · rename_i c hc
      exact ⟨0, a, ha, hc.trans h⟩
    · obtain ⟨m, c, hc, hb⟩ := ih h
      rw [Seq.get?_tail] at hc
      exact ⟨m + 1, c, hc, hb⟩

/-- A verdict stands in all later rounds. -/
theorem poll_mono {b : β} {m : ℕ} (h : poll verdict n answers = some b) (hle : n ≤ m) :
    poll verdict m answers = some b := by
  induction n generalizing answers m with
  | zero => cases h
  | succ n ih =>
    obtain ⟨m, rfl⟩ : ∃ k, m = k + 1 := ⟨m - 1, by omega⟩
    rw [poll] at h ⊢
    cases hhead : answers.head with
    | none => simp only [hhead, reduceCtorEq] at h
    | some a =>
      simp only [hhead] at h ⊢
      cases hb : verdict a with
      | none => rw [hb] at h; exact ih h (by omega)
      | some c => rwa [hb] at h

/-- The outcomes of the polling: none yet, or the verdict on the first answer that has one. -/
theorem FirstAt.poll_cases (h : FirstAt p answers n a) (hp : ∀ b, ¬ p b → verdict b = none)
    (ha : (verdict a).isSome) (k : ℕ) :
    poll verdict k answers = none ∨ poll verdict k answers = verdict a := by
  rcases le_or_gt k n with hle | hlt
  · exact .inl (h.poll_eq_none hp hle)
  · obtain ⟨b, hb⟩ := Option.isSome_iff_exists.mp ha
    exact .inr (hb ▸ poll_mono (hb ▸ h.poll_succ hp) hlt)

end Contender.Polling
