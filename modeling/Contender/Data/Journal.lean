import Mathlib.Data.List.Induction
import Mathlib.Data.List.Pairwise
import Mathlib.Logic.Function.Basic

/-!
# Stores that miss some writes

A journal lists the writes to a store in their order: a value for a key, or its erasure. Some of
the writes do not land in a second store, which should have what the first one has.

## Main results

* `replay_landed_iff` — the stores agree at a key exactly when the last write to it landed, or was
  an erasure, like the last one that landed
-/

namespace Journal

/-- A write of the value of a key, where `none` erases it. -/
structure Entry (κ ν : Type*) where
  key : κ
  value : Option ν
  landed : Bool
  deriving DecidableEq, Repr

variable {κ ν : Type*} [DecidableEq κ] {journal : List (Entry κ ν)} {e f : Entry κ ν} {k : κ}

/-- The store after all the writes. -/
def replay (journal : List (Entry κ ν)) : κ → Option ν :=
  journal.foldl (fun store e => Function.update store e.key e.value) fun _ => none

/-- The writes that land in the second store. -/
def landed (journal : List (Entry κ ν)) : List (Entry κ ν) := journal.filter Entry.landed

/-- The last write to a key. -/
def lastOn (journal : List (Entry κ ν)) (k : κ) : Option (Entry κ ν) :=
  (journal.filter fun e => e.key = k).getLast?

/-- No value is written twice. -/
def Fresh (journal : List (Entry κ ν)) : Prop :=
  journal.Pairwise fun e f => ∀ v ∈ e.value, v ∉ f.value

/-- The last write to the key landed, or it was an erasure, and so was the last one that
landed. -/
def InSync (journal : List (Entry κ ν)) (k : κ) : Prop :=
  ∀ e ∈ lastOn journal k, e.landed ∨
    e.value = none ∧ ∀ f ∈ lastOn (landed journal) k, f.value = none

theorem replay_concat (journal : List (Entry κ ν)) (e : Entry κ ν) :
    replay (journal ++ [e]) = Function.update (replay journal) e.key e.value := by
  rw [replay, List.foldl_append, List.foldl_cons, List.foldl_nil]
  rfl

omit [DecidableEq κ] in
theorem landed_concat (journal : List (Entry κ ν)) (e : Entry κ ν) :
    landed (journal ++ [e]) = if e.landed then landed journal ++ [e] else landed journal := by
  rw [landed, List.filter_append, List.filter_cons, List.filter_nil]
  split_ifs
  · rfl
  · exact List.append_nil _

theorem lastOn_concat (journal : List (Entry κ ν)) (e : Entry κ ν) (k : κ) :
    lastOn (journal ++ [e]) k = if e.key = k then some e else lastOn journal k := by
  rw [lastOn, List.filter_append, List.filter_cons, List.filter_nil]
  by_cases hk : e.key = k
  · rw [if_pos (decide_eq_true hk), if_pos hk, List.getLast?_concat]
  · rw [if_neg (by simpa using hk), if_neg hk, List.append_nil]
    rfl

/-- The last write to a key decides its value. -/
theorem replay_eq_bind (journal : List (Entry κ ν)) (k : κ) :
    replay journal k = (lastOn journal k).bind Entry.value := by
  induction journal using List.reverseRecOn with
  | nil => rfl
  | append_singleton journal e ih =>
    rw [replay_concat, lastOn_concat]
    split_ifs with hk
    · rw [← hk, Function.update_self, Option.bind_some]
    · rw [Function.update_of_ne (Ne.symm hk), ih]

theorem mem_of_mem_lastOn (h : e ∈ lastOn journal k) : e ∈ journal :=
  (List.mem_filter.mp (List.mem_of_mem_getLast? h)).1

theorem key_of_mem_lastOn (h : e ∈ lastOn journal k) : e.key = k :=
  of_decide_eq_true (List.mem_filter.mp (List.mem_of_mem_getLast? h)).2

/-- A last write that landed is the last one that landed. -/
theorem lastOn_landed (h : lastOn journal k = some e) (hlanded : e.landed) :
    lastOn (landed journal) k = some e := by
  induction journal using List.reverseRecOn with
  | nil => cases h
  | append_singleton journal f ih =>
    rw [lastOn_concat] at h
    rw [landed_concat]
    split_ifs at h with hk
    · obtain rfl := Option.some.inj h
      rw [if_pos hlanded, lastOn_concat, if_pos hk]
    · split_ifs
      · rw [lastOn_concat, if_neg hk, ih h]
      · exact ih h

theorem landed_of_mem_lastOn (h : e ∈ lastOn (landed journal) k) : e.landed :=
  (List.mem_filter.mp (mem_of_mem_lastOn h)).2

omit [DecidableEq κ] in
theorem Fresh.notMem (h : Fresh journal) (he : e ∈ journal) (hf : f ∈ journal) (hne : e ≠ f) {v : ν}
    (hv : v ∈ e.value) : v ∉ f.value := by
  have : Std.Symm fun e f : Entry κ ν => ∀ v ∈ e.value, v ∉ f.value :=
    ⟨fun e f hef v hvf hve => hef v hve hvf⟩
  exact List.Pairwise.forall h he hf hne v hv

omit [DecidableEq κ] in
theorem Fresh.concat (h : Fresh journal) (he : ∀ v ∈ e.value, ∀ f ∈ journal, v ∉ f.value) :
    Fresh (journal ++ [e]) := by
  refine List.pairwise_append.mpr ⟨h, List.pairwise_singleton _ _, fun f hf g hg v hv hmem => ?_⟩
  obtain rfl := List.mem_singleton.mp hg
  exact he v hmem f hf hv

/-- A value that the second store has after more writes is one that it had before, if it was written
before. -/
theorem replay_landed_of_append {rest : List (Entry κ ν)} {v : ν} (hfresh : Fresh (journal ++ rest))
    (he : e ∈ journal) (hv : v ∈ e.value) (h : replay (landed (journal ++ rest)) k = some v) :
    replay (landed journal) k = some v := by
  induction rest using List.reverseRecOn with
  | nil => rwa [List.append_nil] at h
  | append_singleton rest f ih =>
    rw [← List.append_assoc] at h hfresh
    obtain ⟨hbefore, -, hcross⟩ := List.pairwise_append.mp hfresh
    rw [landed_concat] at h
    split_ifs at h
    · rw [replay_concat] at h
      by_cases hk : k = f.key
      · rw [hk, Function.update_self] at h
        exact (hcross e (List.mem_append_left _ he) f (List.mem_singleton_self f) v hv h).elim
      · rw [Function.update_of_ne hk] at h
        exact ih hbefore h
    · exact ih hbefore h

/-- **Agreement.** The store of the writes that landed has the value of the full store exactly when
the last write to the key landed, or was an erasure, like the last one that landed. -/
theorem replay_landed_iff (hfresh : Fresh journal) (k : κ) :
    replay (landed journal) k = replay journal k ↔ InSync journal k := by
  rw [replay_eq_bind, replay_eq_bind]
  cases hlast : lastOn journal k with
  | none =>
    have hnone : lastOn (landed journal) k = none := by
      rw [lastOn, List.getLast?_eq_none_iff, List.filter_eq_nil_iff] at hlast ⊢
      exact fun e he => hlast e (List.mem_filter.mp he).1
    rw [hnone]
    exact iff_of_true rfl (by rw [InSync, hlast]; nofun)
  | some e =>
    have hsync : InSync journal k ↔ e.landed ∨
        e.value = none ∧ ∀ f ∈ lastOn (landed journal) k, f.value = none := by
      rw [InSync, hlast]
      simp only [Option.mem_some_iff, forall_eq']
    rw [hsync, Option.bind_some]
    by_cases hlanded : e.landed
    · rw [lastOn_landed hlast hlanded, Option.bind_some]
      exact iff_of_true rfl (.inl hlanded)
    · cases hvalue : e.value with
      | none =>
        simp only [hlanded, Bool.false_eq_true, true_and, false_or]
        exact Option.bind_eq_none_iff
      | some v =>
        -- the value was written only once, and has not landed
        refine iff_of_false (fun hsame => ?_) (by simp [hlanded])
        obtain ⟨f, hf, hv⟩ := Option.bind_eq_some_iff.mp hsame
        have hne : e ≠ f := by
          rintro rfl
          exact hlanded (landed_of_mem_lastOn hf)
        have hmem : f ∈ journal := (List.mem_filter.mp (mem_of_mem_lastOn hf)).1
        exact hfresh.notMem (mem_of_mem_lastOn hlast) hmem hne hvalue hv

/-- When all writes land, the stores agree. -/
theorem inSync_of_forall_landed (h : ∀ e ∈ journal, e.landed) (k : κ) : InSync journal k :=
  fun e he => .inl (h e (mem_of_mem_lastOn he))

end Journal
