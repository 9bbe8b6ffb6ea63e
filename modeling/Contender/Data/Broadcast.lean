import Mathlib.Data.List.Infix
import Mathlib.Data.List.TakeDrop

/-!
# Broadcast channels with a bounded buffer

All receivers of a channel get the values that are sent after they subscribed, each in its own
time. The channel keeps the last `capacity` values only. A receiver that falls further behind is
told how many values it has missed, and goes on with the oldest one that is left.

The channel is given by all values sent on it so far, and a receiver by the position of its next
value.

## Main results

* `Reads.eq_of_no_skips` — a receiver that has never lagged has got all values since it subscribed
* `Reads.sublist_drop` — what it has got are values since it subscribed, in their order
-/

namespace Broadcast

open List

variable {α : Type*}

/-- What a call of `recv` finds. -/
inductive Received (α : Type*)
  | value (a : α)
  | lagged (missed : ℕ)
  | empty
  deriving DecidableEq, Repr

/-- Take the next value, if the channel still has it. -/
def recv (capacity : ℕ) (sent : List α) (next : ℕ) : Received α :=
  if next < sent.length - capacity then .lagged (sent.length - capacity - next)
  else
    match sent[next]? with
    | some a => .value a
    | none => .empty

/-- A receiver that subscribed at `start` has got these values, and missed as many. -/
structure Reads (sent : List α) (start next : ℕ) (got : List α) (missed : ℕ) : Prop where
  start_le : start ≤ next
  le_length : next ≤ sent.length
  sublist : got <+ (sent.take next).drop start
  count : got.length + missed = next - start

variable {capacity start next missed n : ℕ} {sent got : List α} {a : α}

theorem recv_eq_value (h : recv capacity sent next = .value a) : sent[next]? = some a := by
  unfold recv at h
  split_ifs at h
  split at h
  case h_1 hget =>
    cases h
    exact hget
  case h_2 => cases h

theorem recv_eq_lagged (h : recv capacity sent next = .lagged n) :
    next + n = sent.length - capacity ∧ 0 < n := by
  unfold recv at h
  split_ifs at h with hlt
  · obtain rfl := Received.lagged.inj h
    omega
  · split at h <;> cases h

theorem reads_subscribe (sent : List α) : Reads sent sent.length sent.length [] 0 where
  start_le := le_rfl
  le_length := le_rfl
  sublist := List.nil_sublist _
  count := (Nat.sub_self _).symm

theorem Reads.send (h : Reads sent start next got missed) (rest : List α) :
    Reads (sent ++ rest) start next got missed where
  start_le := h.start_le
  le_length := h.le_length.trans (List.length_append ▸ Nat.le_add_right _ _)
  sublist := by
    rw [List.take_append_of_le_length h.le_length]
    exact h.sublist
  count := h.count

theorem Reads.value (h : Reads sent start next got missed) (hget : sent[next]? = some a) :
    Reads sent start (next + 1) (got ++ [a]) missed where
  start_le := h.start_le.trans (Nat.le_succ _)
  le_length := (List.getElem?_eq_some_iff.mp hget).1
  sublist := by
    have hlt := (List.getElem?_eq_some_iff.mp hget).1
    have hle : start ≤ (sent.take next).length := by
      rw [List.length_take]
      exact le_min h.start_le (h.start_le.trans hlt.le)
    rw [List.take_add_one, hget, Option.toList_some, List.drop_append_of_le_length hle]
    exact h.sublist.append (List.Sublist.refl _)
  count := by
    have hcount := h.count
    have hstart := h.start_le
    rw [List.length_append, List.length_singleton]
    omega

theorem Reads.lagged (h : Reads sent start next got missed) (hle : next + n ≤ sent.length) :
    Reads sent start (next + n) got (missed + n) where
  start_le := h.start_le.trans (Nat.le_add_right _ _)
  le_length := hle
  sublist := by
    have hahead : sent.take next <+: sent.take (next + n) :=
      List.take_prefix_take_left (Nat.le_add_right _ _)
    exact h.sublist.trans (hahead.sublist.drop start)
  count := by
    have hcount := h.count
    have hstart := h.start_le
    omega

/-- Without a lag, nothing is missing. -/
theorem Reads.eq_of_no_skips (h : Reads sent start next got 0) :
    got = (sent.take next).drop start := by
  refine h.sublist.eq_of_length ?_
  have hcount := h.count
  have hle := h.le_length
  rw [List.length_drop, List.length_take, min_eq_left hle]
  omega

/-- What has been got is among the values sent since the subscription, in their order. -/
theorem Reads.sublist_drop (h : Reads sent start next got missed) : got <+ sent.drop start :=
  h.sublist.trans ((List.take_sublist _ _).drop start)

theorem Reads.prefix_of_no_skips (h : Reads sent start next got 0) : got <+: sent.drop start := by
  rw [h.eq_of_no_skips, List.drop_take]
  exact List.take_prefix _ _

end Broadcast
