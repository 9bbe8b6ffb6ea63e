import Mathlib.Data.Prod.Lex
import Mathlib.Order.OrderIsoNat

/-!
# Progress along driven runs

A deterministic system is driven by an infinite sequence of inputs. A run may pause: an
input may be idle in the state where it comes. When a well-founded potential never grows,
and falls with every input that is not idle, the run reaches its goal unless it pauses
forever.

The potentials here are triples of numbers in lexicographic order: how often the system
still has to go around, how much of the current round is left, and how many steps the
current stop takes.
-/

namespace Semantics.Progress

variable {σ ι μ : Type*}

/-- The states of the run that the inputs drive. -/
def trace (next : σ → ι → σ) (s : σ) (inputs : ℕ → ι) : ℕ → σ
  | 0 => s
  | n + 1 => next (trace next s inputs n) (inputs n)

variable {next : σ → ι → σ} {s : σ} {inputs : ℕ → ι}

/-- A predicate that every input keeps holds along the run. -/
theorem trace_invariant {I : σ → Prop} (preserved : ∀ s i, I s → I (next s i)) (hs : I s)
    (n : ℕ) : I (trace next s inputs n) := by
  induction n with
  | zero => exact hs
  | succ n ih => exact preserved _ _ ih

/-- A goal that is kept is kept from the moment it is reached. -/
theorem trace_of_le {goal : σ → Prop} (absorbing : ∀ s i, goal s → goal (next s i)) {n m : ℕ}
    (hn : goal (trace next s inputs n)) (hle : n ≤ m) : goal (trace next s inputs m) := by
  induction m, hle using Nat.le_induction with
  | base => exact hn
  | succ m _ ih => exact absorbing _ _ ih

/-- The potential before and after an input: it does not grow, and it falls unless the
input is idle. -/
structure Descends [Preorder μ] (idle : Prop) (before after : μ) : Prop where
  le : after ≤ before
  lt : ¬ idle → after < before

/-- A potential that falls descends, idle or not. -/
theorem Descends.of_lt [Preorder μ] {idle : Prop} {before after : μ} (h : after < before) :
    Descends idle before after :=
  ⟨h.le, fun _ => h⟩

/-- An idle input need only keep the potential from growing. -/
theorem Descends.of_idle [Preorder μ] {idle : Prop} {before after : μ} (hidle : idle)
    (h : after ≤ before) : Descends idle before after :=
  ⟨h, fun hnot => absurd hidle hnot⟩

/-- **Progress.** A run whose potential descends until the goal is reached gets there
exactly when it does not pause forever. -/
theorem reaches_iff [PartialOrder μ] [WellFoundedLT μ] {I goal : σ → Prop}
    {idle : σ → ι → Prop} (potential : σ → μ) (preserved : ∀ s i, I s → I (next s i))
    (absorbing : ∀ s i, goal s → goal (next s i)) (active : ∀ s i, goal s → ¬ idle s i)
    (descends : ∀ s i, I s → ¬ goal s →
      Descends (idle s i) (potential s) (potential (next s i)))
    (hs : I s) :
    (∃ n, goal (trace next s inputs n)) ↔
      ∀ n, ∃ m, n ≤ m ∧ ¬ idle (trace next s inputs m) (inputs m) := by
  constructor
  · rintro ⟨n, hn⟩ start
    have hlater := trace_of_le absorbing hn (Nat.le_max_right start n)
    exact ⟨max start n, Nat.le_max_left _ _, active _ _ hlater⟩
  · intro hrecurs
    by_contra hnever
    push Not at hnever
    have hdescends : ∀ n, Descends (idle (trace next s inputs n) (inputs n))
        (potential (trace next s inputs n)) (potential (trace next s inputs (n + 1))) :=
      fun n => descends _ _ (trace_invariant preserved hs n) (hnever n)
    -- the potential becomes constant, and then every input is idle
    have hantitone : Antitone fun n => potential (trace next s inputs n) :=
      antitone_nat_of_succ_le fun n => (hdescends n).le
    obtain ⟨n, hconst⟩ := WellFoundedLT.antitone_chain_condition hantitone
    obtain ⟨m, hle, hbusy⟩ := hrecurs n
    have hlt := (hdescends m).lt hbusy
    have hsame := (hconst m hle).symm.trans (hconst (m + 1) (hle.trans m.le_succ))
    exact hlt.ne hsame.symm

/-! ### Rounds, what is left of one, and the steps of a stop -/

/-- Lexicographic triples. -/
abbrev Rounds := ℕ ×ₗ ℕ ×ₗ ℕ

/-- `rounds` rounds are left, `left` is left of the current one, and the current stop takes
`steps` steps. -/
def rounds (rounds left steps : ℕ) : Rounds := toLex (rounds, toLex (left, steps))

variable {w w' r r' i i' : ℕ}

theorem rounds_lt_of_rounds (hw : w' < w) : rounds w' r' i' < rounds w r i := by
  simp [rounds, Prod.Lex.toLex_lt_toLex, hw]

theorem rounds_lt_of_left (hw : w' ≤ w) (hr : r' < r) : rounds w' r' i' < rounds w r i := by
  rcases hw.lt_or_eq with hw | rfl
  · exact rounds_lt_of_rounds hw
  · simp [rounds, Prod.Lex.toLex_lt_toLex, hr]

theorem rounds_lt_of_steps (hw : w' ≤ w) (hr : r' ≤ r) (hi : i' < i) :
    rounds w' r' i' < rounds w r i := by
  rcases hw.lt_or_eq with hw | rfl
  · exact rounds_lt_of_rounds hw
  rcases hr.lt_or_eq with hr | rfl
  · exact rounds_lt_of_left le_rfl hr
  · simp [rounds, Prod.Lex.toLex_lt_toLex, hi]

theorem rounds_le (hw : w' ≤ w) (hr : r' ≤ r) (hi : i' ≤ i) :
    rounds w' r' i' ≤ rounds w r i := by
  rcases hi.lt_or_eq with hi | rfl
  · exact (rounds_lt_of_steps hw hr hi).le
  rcases hr.lt_or_eq with hr | rfl
  · exact (rounds_lt_of_left hw hr).le
  rcases hw.lt_or_eq with hw | rfl
  · exact (rounds_lt_of_rounds hw).le
  · exact le_rfl

end Semantics.Progress
