import Mathlib.Data.List.Basic
import Mathlib.Logic.Function.Basic

/-!
# Spending from several balances

Debits are taken from the balances of an account one after the other, and each must be covered
by what is left at its turn. Nothing is ever paid in, so it is enough to look at the sums: the
debits are all covered exactly when their sum is, asset by asset.

## Main results

* `foldlM_withdraw_eq_some_iff` — what the debits leave
-/

namespace Spending

variable {α : Type*} [DecidableEq α]

/-- Take a debit away, if the balance covers it. -/
def withdraw (balance : α → ℕ) (debit : α × ℕ) : Option (α → ℕ) :=
  if debit.2 ≤ balance debit.1 then
    some (Function.update balance debit.1 (balance debit.1 - debit.2))
  else none

/-- The sum of the debits of an asset. -/
def spent : List (α × ℕ) → α → ℕ
  | [], _ => 0
  | debit :: debits, asset => (if debit.1 = asset then debit.2 else 0) + spent debits asset

@[simp] theorem spent_nil (asset : α) : spent [] asset = 0 := rfl

@[simp] theorem spent_cons (debit : α × ℕ) (debits : List (α × ℕ)) (asset : α) :
    spent (debit :: debits) asset = (if debit.1 = asset then debit.2 else 0) + spent debits asset :=
  rfl

@[simp] theorem spent_append (debits debits' : List (α × ℕ)) (asset : α) :
    spent (debits ++ debits') asset = spent debits asset + spent debits' asset := by
  induction debits with
  | nil => simp
  | cons debit debits ih => rw [List.cons_append, spent_cons, spent_cons, ih, Nat.add_assoc]

theorem withdraw_eq_some_iff {balance left : α → ℕ} {debit : α × ℕ} :
    withdraw balance debit = some left ↔
      ∀ asset, balance asset = left asset + if debit.1 = asset then debit.2 else 0 := by
  unfold withdraw
  constructor
  · intro h asset
    split_ifs at h with hle
    obtain rfl := Option.some.inj h
    by_cases hasset : debit.1 = asset
    · subst hasset
      rw [Function.update_self, if_pos rfl, Nat.sub_add_cancel hle]
    · rw [Function.update_of_ne (Ne.symm hasset), if_neg hasset, Nat.add_zero]
  · intro h
    have hdebit := h debit.1
    rw [if_pos rfl] at hdebit
    rw [if_pos (by omega), Option.some.injEq]
    funext asset
    by_cases hasset : debit.1 = asset
    · subst hasset
      rw [Function.update_self]
      omega
    · rw [Function.update_of_ne (Ne.symm hasset), h asset, if_neg hasset, Nat.add_zero]

/-- The debits are covered one after the other exactly when the balance is what they leave
together with their sum. -/
theorem foldlM_withdraw_eq_some_iff {balance left : α → ℕ} {debits : List (α × ℕ)} :
    debits.foldlM withdraw balance = some left ↔
      ∀ asset, balance asset = left asset + spent debits asset := by
  induction debits generalizing balance with
  | nil =>
    simp only [List.foldlM_nil, spent_nil, Nat.add_zero]
    exact ⟨fun h asset => congrFun (Option.some.inj h) asset, fun h => congrArg some (funext h)⟩
  | cons debit debits ih =>
    rw [List.foldlM_cons, Option.bind_eq_bind, Option.bind_eq_some_iff]
    simp only [ih, withdraw_eq_some_iff, spent_cons]
    constructor
    · rintro ⟨mid, hfirst, hrest⟩ asset
      have := hfirst asset
      have := hrest asset
      omega
    · intro h
      refine ⟨fun asset => left asset + spent debits asset, fun asset => ?_, fun _ => rfl⟩
      rw [h asset, Nat.add_assoc, Nat.add_comm (spent debits asset)]

end Spending
