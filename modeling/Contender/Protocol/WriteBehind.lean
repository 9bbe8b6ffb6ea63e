import Mathlib.Data.Set.Insert
import Mathlib.Data.List.Nodup
import Mathlib.Logic.Function.Basic
import Contender.Semantics.Execution

/-!
# Write-behind buffers

Keys are accepted into a buffer under the current tag. Workers copy the buffer,
save some of the copied keys to an append-only store under the tag they started
with, and later have the buffer drop the keys they saved. At most one worker, the
reader, is served by the buffer at a time; a replaced worker goes on with the copy
it holds, but the removals it asked for are forgotten. The buffer can also be
dumped into the store at once.

The saving of a key and its removal from the buffer are separate steps, so the
store may see a key twice, or under a tag it was not accepted with. The two guards
below exclude exactly the steps that start such an overlap.

## Main results

* `buffered_or_stored` — a key that is owed stays in the buffer until it is stored
* `nodup_keys` — without overlapping dumps and replacements, no key is stored twice
* `store_attributed` — when tags change between batches only, every key is stored
  under the tag it was accepted with
* `secured_of_run` — a key stays in the buffer until it is stored under the current tag
-/

namespace Protocol.WriteBehind

open Semantics

/-- A worker: the tag of its batch, the keys of the copy it may still save, and
the keys it saved whose removal the buffer has not seen yet. -/
structure Worker (κ ρ : Type*) where
  tag : Option ρ
  holding : List κ
  saved : List κ

namespace Worker

variable {κ ρ : Type*}

/-- A worker between two batches. -/
def idle : Worker κ ρ := ⟨none, [], []⟩

/-- The pending removals of a worker that is no longer served are lost. -/
def forget (w : Worker κ ρ) : Worker κ ρ := { w with saved := [] }

end Worker

/-- The buffer, its workers and the store. `accepted` records each accepted key
with the tag that was current. -/
structure State (κ ρ ι : Type*) where
  buffer : Set κ
  tag : Option ρ
  reader : Option ι
  workers : ι → Worker κ ρ
  store : List (ρ × κ)
  accepted : List (κ × Option ρ)

inductive Op (κ ρ ι : Type*)
  | accept (k : κ)
  | withdraw (k : κ)
  | clear
  | dump (r : ρ) (ks : List κ)
  | retag (r : ρ)
  | start (w : ι) (ks : List κ)
  | refresh (w : ι) (ks : List κ)
  | save (w : ι) (r : ρ) (ks : List κ)
  | settle (w : ι)
  | release (w : ι)
  | replace (w : ι)
  | halt

variable {κ ρ ι : Type*}

/-- The operations a worker takes part in. -/
def Op.ByWorker : Op κ ρ ι → Prop
  | .start _ _ => True
  | .refresh _ _ => True
  | .save _ _ _ => True
  | .settle _ => True
  | .release _ => True
  | _ => False

namespace State

/-- The stored keys. -/
def keys (s : State κ ρ ι) : List κ := s.store.map Prod.snd

/-- A list that enumerates the buffer. -/
def Enumerates (s : State κ ρ ι) (ks : List κ) : Prop := ks.Nodup ∧ ∀ k, k ∈ ks ↔ k ∈ s.buffer

/-- Nothing has been accepted yet. -/
structure Initial (s : State κ ρ ι) : Prop where
  buffer : s.buffer = ∅
  workers : ∀ w, s.workers w = .idle
  store : s.store = []

/-- When an operation can be taken. -/
def Enabled (s : State κ ρ ι) : Op κ ρ ι → Prop
  | .dump _ ks => s.Enumerates ks
  | .start w ks => s.reader = some w ∧ (s.workers w).saved = [] ∧ s.Enumerates ks
  | .refresh w ks =>
    s.reader = some w ∧ (s.workers w).saved = [] ∧ s.Enumerates ks ∧ (s.workers w).tag ≠ none
  | .save w r ks =>
    (s.workers w).tag = some r ∧ (s.workers w).saved = [] ∧ ks.Sublist (s.workers w).holding
  | .settle w => s.reader = some w
  | .release w => (s.workers w).saved = []
  | .replace w => s.workers w = .idle
  | _ => True

variable [DecidableEq ι]

/-- The effect of an operation. -/
def exec (s : State κ ρ ι) : Op κ ρ ι → State κ ρ ι
  | .accept k =>
    { s with buffer := insert k s.buffer, accepted := s.accepted ++ [(k, s.tag)] }
  | .withdraw k => { s with buffer := s.buffer \ {k} }
  | .clear => { s with buffer := ∅ }
  | .dump r ks => { s with buffer := ∅, store := s.store ++ ks.map fun k => (r, k) }
  | .retag r => { s with tag := some r }
  | .start w ks => { s with workers := Function.update s.workers w ⟨s.tag, ks, []⟩ }
  | .refresh w ks =>
    { s with workers := Function.update s.workers w { s.workers w with holding := ks } }
  | .save w r ks =>
    { s with
      store := s.store ++ ks.map fun k => (r, k)
      workers := Function.update s.workers w
        ⟨some r, [], if s.reader = some w then ks else []⟩ }
  | .settle w =>
    { s with
      buffer := s.buffer \ {k | k ∈ (s.workers w).saved}
      workers := Function.update s.workers w (s.workers w).forget }
  | .release w => { s with workers := Function.update s.workers w .idle }
  | .replace w => { s with reader := some w, workers := fun v => (s.workers v).forget }
  | .halt =>
    { s with
      buffer := ∅
      tag := none
      reader := none
      workers := fun v => (s.workers v).forget }

open Classical in
/-- The transition function of the protocol. -/
noncomputable def step (s : State κ ρ ι) (op : Op κ ρ ι) : Option (State κ ρ ι) :=
  if s.Enabled op then some (s.exec op) else none

theorem step_eq_some {s t : State κ ρ ι} {op : Op κ ρ ι} :
    s.step op = some t ↔ s.Enabled op ∧ s.exec op = t := by
  unfold step
  split_ifs with h <;> simp [h]

end State

variable [DecidableEq ι] {s t : State κ ρ ι}

open State

@[simp] private theorem keys_append (store : List (ρ × κ)) (r : ρ) (ks : List κ) :
    (store ++ ks.map fun k => (r, k)).map Prod.snd = store.map Prod.snd ++ ks := by
  rw [List.map_append, List.map_map]
  congr 1
  exact List.map_id ks

/-! ## Removals name stored keys -/

/-- Every key whose removal is pending has been stored. -/
def SavedStored (s : State κ ρ ι) : Prop := ∀ w, ∀ k ∈ (s.workers w).saved, k ∈ s.keys

omit [DecidableEq ι] in
theorem State.Initial.savedStored (hinit : s.Initial) : SavedStored s := by
  intro w k hk
  rw [hinit.workers w] at hk
  exact absurd hk List.not_mem_nil

theorem savedStored_exec {op : Op κ ρ ι} (hinv : SavedStored s) : SavedStored (s.exec op) := by
  -- an operation that changes one worker is checked at that worker only
  have hupdate : ∀ (w : ι) (u : Worker κ ρ), (∀ k ∈ u.saved, k ∈ s.keys) →
      ∀ v, ∀ k ∈ (Function.update s.workers w u v).saved, k ∈ s.keys := fun w u hu =>
    (Function.forall_update_iff s.workers fun _ u => ∀ k ∈ u.saved, k ∈ s.keys).mpr
      ⟨hu, fun v _ => hinv v⟩
  cases op with
  | dump r ks =>
    intro v k hk
    simp only [exec, keys, keys_append, List.mem_append]
    exact Or.inl (hinv v k hk)
  -- the saved keys are stored by the same operation
  | save w r ks =>
    refine (Function.forall_update_iff s.workers fun _ u => ∀ k ∈ u.saved, k ∈ _).mpr
      ⟨fun k hk => ?_, fun v _ k hk => ?_⟩
    · simp only [exec, keys, keys_append, List.mem_append]
      split_ifs at hk
      · exact Or.inr hk
      · exact absurd hk List.not_mem_nil
    · simp only [exec, keys, keys_append, List.mem_append]
      exact Or.inl (hinv v k hk)
  | start w ks => exact hupdate w _ (by simp)
  | refresh w ks => exact hupdate w _ (hinv w)
  | settle w => exact hupdate w _ (by simp [Worker.forget])
  | release w => exact hupdate w _ (by simp [Worker.idle])
  | replace w => exact fun v k hk => absurd hk (by simp [exec, Worker.forget])
  | halt => exact fun v k hk => absurd hk (by simp [exec, Worker.forget])
  | _ => exact hinv

/-- A removal only ever names stored keys. -/
theorem saved_mem_keys {ops : List (Op κ ρ ι)} (hinv : SavedStored s)
    (hrun : Execution.run State.step s ops = some t) : SavedStored t := by
  refine Execution.invariant (I := SavedStored) ?_ hinv hrun (Execution.along_true _ _)
  intro u op v _ hstep hu
  obtain ⟨-, rfl⟩ := step_eq_some.mp hstep
  exact savedStored_exec hu

/-! ## No key is lost -/

/-- Whether a key is owed to the store after an operation: it was accepted, and not
given up since. -/
def Op.owes (k : κ) (owed : Prop) : Op κ ρ ι → Prop
  | .accept j => k = j ∨ owed
  | .withdraw j => k ≠ j ∧ owed
  | .clear => False
  | .halt => False
  | _ => owed

omit [DecidableEq ι] in
/-- What the workers do leaves the owed keys alone. -/
theorem owes_of_byWorker {ops : List (Op κ ρ ι)} (hops : ∀ op ∈ ops, op.ByWorker) (k : κ)
    (owed : Prop) : ops.foldl (fun owed op => op.owes k owed) owed = owed := by
  induction ops with
  | nil => rfl
  | cons op ops ih =>
    obtain ⟨hop, hrest⟩ := List.forall_mem_cons.mp hops
    have howes : op.owes k owed = owed := by
      cases op <;> first | rfl | exact hop.elim
    rw [List.foldl_cons, howes, ih hrest]

theorem kept_exec {op : Op κ ρ ι} (hsaved : SavedStored s) (enabled : s.Enabled op) {k : κ}
    {owed : Prop} (hkept : owed → k ∈ s.buffer ∨ k ∈ s.keys) (howed : op.owes k owed) :
    k ∈ (s.exec op).buffer ∨ k ∈ (s.exec op).keys := by
  cases op with
  | accept j =>
    rcases howed with rfl | howed
    · exact Or.inl (Set.mem_insert _ _)
    · exact (hkept howed).imp_left (Set.mem_insert_of_mem _)
  | withdraw j => exact (hkept howed.2).imp_left fun hbuf => ⟨hbuf, howed.1⟩
  | clear => exact howed.elim
  | halt => exact howed.elim
  | dump r ks =>
    right
    simp only [exec, keys, keys_append, List.mem_append]
    exact (hkept howed).elim (fun hbuf => Or.inr ((enabled.2 k).mpr hbuf)) Or.inl
  | save w r ks =>
    apply (hkept howed).imp_right
    intro hkey
    simp only [exec, keys, keys_append, List.mem_append]
    exact Or.inl hkey
  -- a key leaves the buffer only once it is stored
  | settle w =>
    rcases hkept howed with hbuf | hkey
    · by_cases hmem : k ∈ (s.workers w).saved
      · exact Or.inr (hsaved w k hmem)
      · exact Or.inl ⟨hbuf, hmem⟩
    · exact Or.inr hkey
  | _ => exact hkept howed

/-- A key that is owed stays in the buffer until it is stored. -/
theorem buffered_or_stored {ops : List (Op κ ρ ι)} (hsaved : SavedStored s) {k : κ}
    {owed : Prop} (hkept : owed → k ∈ s.buffer ∨ k ∈ s.keys)
    (hrun : Execution.run State.step s ops = some t)
    (howed : ops.foldl (fun owed op => op.owes k owed) owed) : k ∈ t.buffer ∨ k ∈ t.keys := by
  induction ops generalizing s owed with
  | nil =>
    obtain rfl : s = t := Option.some.inj hrun
    exact hkept howed
  | cons op ops ih =>
    obtain ⟨u, hstep, hrest⟩ := Execution.run_cons_eq_some.mp hrun
    obtain ⟨henabled, rfl⟩ := step_eq_some.mp hstep
    exact ih (savedStored_exec hsaved) (kept_exec hsaved henabled hkept) hrest howed

/-! ## No key is stored twice -/

/-- The accepted keys. -/
def State.acceptedKeys (s : State κ ρ ι) : List κ := s.accepted.map Prod.fst

/-- The reader neither holds nor is about to remove a buffered key. -/
def Quiet (s : State κ ρ ι) : Prop :=
  ∀ w, s.reader = some w → ∀ k ∈ s.buffer, k ∉ (s.workers w).holding ∧ k ∉ (s.workers w).saved

/-- Dumps and replacements wait until the reader is quiet. -/
def Exclusive (s : State κ ρ ι) : Op κ ρ ι → Prop
  | .dump _ _ => Quiet s
  | .replace _ => Quiet s
  | _ => True

/-- What keeps the stored keys distinct: a key may be saved by one worker at most,
and a buffered key that is stored already is about to be removed. -/
structure Distinct (s : State κ ρ ι) : Prop where
  accepted_buffer : ∀ k ∈ s.buffer, k ∈ s.acceptedKeys
  accepted_holding : ∀ w, ∀ k ∈ (s.workers w).holding, k ∈ s.acceptedKeys
  accepted_keys : ∀ k ∈ s.keys, k ∈ s.acceptedKeys
  nodup_holding : ∀ w, (s.workers w).holding.Nodup
  unsaved : ∀ w, ∀ k ∈ (s.workers w).holding, k ∉ s.keys
  disjoint : ∀ v w, v ≠ w → ∀ k ∈ (s.workers v).holding, k ∉ (s.workers w).holding
  detached : ∀ w, s.reader ≠ some w → ∀ k ∈ (s.workers w).holding, k ∉ s.buffer
  removing : ∀ k ∈ s.buffer, k ∈ s.keys → ∃ w, s.reader = some w ∧ k ∈ (s.workers w).saved
  nodup : s.keys.Nodup

omit [DecidableEq ι] in
theorem State.Initial.distinct (hinit : s.Initial) : Distinct s := by
  have hkeys : s.keys = [] := by rw [keys, hinit.store]; rfl
  constructor
  all_goals simp [hinit.buffer, hinit.workers, hkeys, Worker.idle]

namespace Distinct

omit [DecidableEq ι] in
/-- Keys may leave the buffer. -/
private theorem shrink (hinv : Distinct s) {b : Set κ} (hsub : b ⊆ s.buffer) :
    Distinct { s with buffer := b } where
  accepted_buffer k hk := hinv.accepted_buffer k (hsub hk)
  accepted_holding := hinv.accepted_holding
  accepted_keys := hinv.accepted_keys
  nodup_holding := hinv.nodup_holding
  unsaved := hinv.unsaved
  disjoint := hinv.disjoint
  detached w hw k hk hbuf := hinv.detached w hw k hk (hsub hbuf)
  removing k hk := hinv.removing k (hsub hk)
  nodup := hinv.nodup

/-- A fresh key may enter the buffer. -/
private theorem accept (hinv : Distinct s) {k : κ} (hfresh : k ∉ s.acceptedKeys) :
    Distinct (s.exec (.accept k)) where
  accepted_buffer j hj := by
    have hold : j = k ∨ j ∈ s.buffer := hj
    rcases hold with rfl | hold
    · simp [exec, acceptedKeys]
    · have hacc := hinv.accepted_buffer j hold
      simp only [exec, acceptedKeys, List.map_append, List.mem_append]
      exact Or.inl hacc
  accepted_holding w j hj := by
    have hacc := hinv.accepted_holding w j hj
    simp only [exec, acceptedKeys, List.map_append, List.mem_append]
    exact Or.inl hacc
  accepted_keys j hj := by
    have hacc := hinv.accepted_keys j hj
    simp only [exec, acceptedKeys, List.map_append, List.mem_append]
    exact Or.inl hacc
  nodup_holding := hinv.nodup_holding
  unsaved := hinv.unsaved
  disjoint := hinv.disjoint
  detached w hw j hj hbuf := by
    rcases (hbuf : j = k ∨ j ∈ s.buffer) with rfl | hbuf
    · exact hfresh (hinv.accepted_holding w j hj)
    · exact hinv.detached w hw j hj hbuf
  removing j hj hkey := by
    rcases (hj : j = k ∨ j ∈ s.buffer) with rfl | hj
    · exact absurd (hinv.accepted_keys j hkey) hfresh
    · exact hinv.removing j hj hkey
  nodup := hinv.nodup

omit [DecidableEq ι] in
/-- New keys may be stored that nobody holds, and that are about to leave the
buffer if they are in it. -/
private theorem append (hinv : Distinct s) {r : ρ} {ks : List κ} (hnodup : ks.Nodup)
    (hknown : ∀ k ∈ ks, k ∈ s.acceptedKeys) (hnew : ∀ k ∈ ks, k ∉ s.keys)
    (hunheld : ∀ k ∈ ks, ∀ w, k ∉ (s.workers w).holding)
    (hleaving : ∀ k ∈ ks, k ∈ s.buffer → ∃ w, s.reader = some w ∧ k ∈ (s.workers w).saved) :
    Distinct { s with store := s.store ++ ks.map fun k => (r, k) } where
  accepted_buffer := hinv.accepted_buffer
  accepted_holding := hinv.accepted_holding
  accepted_keys k hk := by
    rw [keys, keys_append, List.mem_append] at hk
    exact hk.elim (hinv.accepted_keys k) (hknown k)
  nodup_holding := hinv.nodup_holding
  unsaved w k hk hkey := by
    rw [keys, keys_append, List.mem_append] at hkey
    exact hkey.elim (hinv.unsaved w k hk) fun hks => hunheld k hks w hk
  disjoint := hinv.disjoint
  detached := hinv.detached
  removing k hk hkey := by
    rw [keys, keys_append, List.mem_append] at hkey
    exact hkey.elim (hinv.removing k hk) fun hks => hleaving k hks hk
  nodup := by
    rw [keys, keys_append]
    exact hinv.nodup.append hnodup fun k hkey hks => hnew k hks hkey

/-- A worker may take a copy of the buffer once its removals are done. -/
private theorem copy (hinv : Distinct s) {w : ι} {ks : List κ} {r : Option ρ}
    (hreader : s.reader = some w) (hdone : (s.workers w).saved = [])
    (henum : s.Enumerates ks) :
    Distinct { s with workers := Function.update s.workers w ⟨r, ks, []⟩ } where
  accepted_buffer := hinv.accepted_buffer
  accepted_holding :=
    (Function.forall_update_iff s.workers fun _ u => ∀ k ∈ u.holding, k ∈ s.acceptedKeys).mpr
      ⟨fun k hk => hinv.accepted_buffer k ((henum.2 k).mp hk),
        fun v _ => hinv.accepted_holding v⟩
  accepted_keys := hinv.accepted_keys
  nodup_holding :=
    (Function.forall_update_iff s.workers fun _ u => u.holding.Nodup).mpr
      ⟨henum.1, fun v _ => hinv.nodup_holding v⟩
  unsaved := by
    refine (Function.forall_update_iff s.workers fun _ u => ∀ k ∈ u.holding, k ∉ s.keys).mpr
      ⟨fun k hk hkey => ?_, fun v _ => hinv.unsaved v⟩
    -- a buffered key that is stored would be waiting for its removal
    obtain ⟨v, hv, hsaved⟩ := hinv.removing k ((henum.2 k).mp hk) hkey
    obtain rfl : w = v := Option.some.inj (hreader.symm.trans hv)
    rw [hdone] at hsaved
    exact absurd hsaved List.not_mem_nil
  disjoint u v huv k hu hv := by
    have hother : ∀ x, x ≠ w → k ∈ (s.workers x).holding → k ∉ ks := by
      intro x hx hk hks
      refine hinv.detached x ?_ k hk ((henum.2 k).mp hks)
      rw [hreader]
      exact fun h => hx (Option.some.inj h).symm
    dsimp only at hu hv
    by_cases hu' : u = w
    · subst hu'
      rw [Function.update_of_ne huv.symm] at hv
      exact hother v huv.symm hv (by simpa using hu)
    · rw [Function.update_of_ne hu'] at hu
      by_cases hv' : v = w
      · subst hv'
        exact hother u hu' hu (by simpa using hv)
      · rw [Function.update_of_ne hv'] at hv
        exact hinv.disjoint u v huv k hu hv
  detached :=
    (Function.forall_update_iff s.workers
      fun v u => s.reader ≠ some v → ∀ k ∈ u.holding, k ∉ s.buffer).mpr
      ⟨fun hne => absurd hreader hne, fun v _ => hinv.detached v⟩
  removing k hk hkey := by
    obtain ⟨v, hv, hsaved⟩ := hinv.removing k hk hkey
    obtain rfl : w = v := Option.some.inj (hreader.symm.trans hv)
    rw [hdone] at hsaved
    exact absurd hsaved List.not_mem_nil
  nodup := hinv.nodup

/-- A worker may give up its copy, as long as no removal is lost. -/
private theorem drop (hinv : Distinct s) {w : ι} {u : Worker κ ρ}
    (hsub : u.holding.Sublist (s.workers w).holding)
    (hkept : ∀ k ∈ s.buffer, k ∈ s.keys → k ∈ (s.workers w).saved → k ∈ u.saved) :
    Distinct { s with workers := Function.update s.workers w u } where
  accepted_buffer := hinv.accepted_buffer
  accepted_holding :=
    (Function.forall_update_iff s.workers fun _ u => ∀ k ∈ u.holding, k ∈ s.acceptedKeys).mpr
      ⟨fun k hk => hinv.accepted_holding w k (hsub.subset hk),
        fun v _ => hinv.accepted_holding v⟩
  accepted_keys := hinv.accepted_keys
  nodup_holding :=
    (Function.forall_update_iff s.workers fun _ u => u.holding.Nodup).mpr
      ⟨hsub.nodup (hinv.nodup_holding w), fun v _ => hinv.nodup_holding v⟩
  unsaved :=
    (Function.forall_update_iff s.workers fun _ u => ∀ k ∈ u.holding, k ∉ s.keys).mpr
      ⟨fun k hk => hinv.unsaved w k (hsub.subset hk), fun v _ => hinv.unsaved v⟩
  disjoint x y hxy k hx hy := by
    have hold : ∀ z, k ∈ (Function.update s.workers w u z).holding →
        k ∈ (s.workers z).holding := by
      intro z
      by_cases hz : z = w
      · subst hz
        rw [Function.update_self]
        exact fun hk => hsub.subset hk
      · rw [Function.update_of_ne hz]
        exact id
    exact hinv.disjoint x y hxy k (hold x hx) (hold y hy)
  detached :=
    (Function.forall_update_iff s.workers
      fun v u => s.reader ≠ some v → ∀ k ∈ u.holding, k ∉ s.buffer).mpr
      ⟨fun hne k hk => hinv.detached w hne k (hsub.subset hk), fun v _ => hinv.detached v⟩
  removing k hk hkey := by
    obtain ⟨v, hv, hsaved⟩ := hinv.removing k hk hkey
    refine ⟨v, hv, ?_⟩
    dsimp only
    by_cases hvw : v = w
    · subst hvw
      rw [Function.update_self]
      exact hkept k hk hkey hsaved
    · rw [Function.update_of_ne hvw]
      exact hsaved
  nodup := hinv.nodup

omit [DecidableEq ι] in
/-- The buffer may turn to another worker that holds nothing, once no buffered key
is stored and none is held by the worker it leaves. -/
private theorem detach (hinv : Distinct s) {next : Option ι} {tag : Option ρ}
    (hclean : ∀ k ∈ s.buffer, k ∉ s.keys)
    (hleft : ∀ w, next ≠ some w → ∀ k ∈ (s.workers w).holding, k ∉ s.buffer) :
    Distinct { s with
      tag := tag
      reader := next
      workers := fun v => (s.workers v).forget } where
  accepted_buffer := hinv.accepted_buffer
  accepted_holding := hinv.accepted_holding
  accepted_keys := hinv.accepted_keys
  nodup_holding := hinv.nodup_holding
  unsaved := hinv.unsaved
  disjoint := hinv.disjoint
  detached := hleft
  removing k hk hkey := absurd hkey (hclean k hk)
  nodup := hinv.nodup

omit [DecidableEq ι] in
/-- While the reader is quiet, the buffered keys are stored nowhere and held by
nobody. -/
private theorem of_quiet (hinv : Distinct s) (quiet : Quiet s) {k : κ} (hk : k ∈ s.buffer) :
    k ∉ s.keys ∧ ∀ w, k ∉ (s.workers w).holding := by
  constructor
  · intro hkey
    obtain ⟨w, hw, hsaved⟩ := hinv.removing k hk hkey
    exact (quiet w hw k hk).2 hsaved
  · intro w hheld
    by_cases hw : s.reader = some w
    · exact (quiet w hw k hk).1 hheld
    · exact hinv.detached w hw k hheld hk

end Distinct

theorem distinct_exec {op : Op κ ρ ι} (hinv : Distinct s) (enabled : s.Enabled op)
    (exclusive : Exclusive s op) (hfresh : (s.exec op).acceptedKeys.Nodup) :
    Distinct (s.exec op) := by
  cases op with
  | accept k =>
    apply hinv.accept
    intro hmem
    simp only [exec, acceptedKeys, List.map_append] at hfresh
    exact (List.nodup_append.mp hfresh).2.2 k hmem k (by simp) rfl
  | withdraw k => exact hinv.shrink fun _ hj => hj.1
  | clear => exact hinv.shrink (Set.empty_subset _)
  | dump r ks =>
    have hcleared := hinv.shrink (Set.empty_subset _)
    have hbuf : ∀ k ∈ ks, k ∈ s.buffer := fun k hk => (enabled.2 k).mp hk
    exact hcleared.append enabled.1 (fun k hk => hinv.accepted_buffer k (hbuf k hk))
      (fun k hk => (hinv.of_quiet exclusive (hbuf k hk)).1)
      (fun k hk => (hinv.of_quiet exclusive (hbuf k hk)).2)
      (fun k _ hempty => absurd hempty (Set.notMem_empty k))
  | retag r => exact ⟨hinv.1, hinv.2, hinv.3, hinv.4, hinv.5, hinv.6, hinv.7, hinv.8, hinv.9⟩
  | start w ks =>
    obtain ⟨hreader, hdone, henum⟩ := enabled
    exact hinv.copy hreader hdone henum
  | refresh w ks =>
    obtain ⟨hreader, hdone, henum, -⟩ := enabled
    have hcopy := hinv.copy (r := (s.workers w).tag) hreader hdone henum
    rw [← hdone] at hcopy
    exact hcopy
  | save w r ks =>
    obtain ⟨-, hdone, hsub⟩ := enabled
    have hdrop := hinv.drop (w := w)
      (u := ⟨some r, [], if s.reader = some w then ks else []⟩) (List.nil_sublist _)
      fun k _ _ hsaved => by
        rw [hdone] at hsaved
        exact absurd hsaved List.not_mem_nil
    have hheld : ∀ k ∈ ks, k ∈ (s.workers w).holding := fun k hk => hsub.subset hk
    refine hdrop.append (hsub.nodup (hinv.nodup_holding w))
      (fun k hk => hinv.accepted_holding w k (hheld k hk))
      (fun k hk => hinv.unsaved w k (hheld k hk)) (fun k hk => ?_) fun k hk hbuf => ?_
    · refine (Function.forall_update_iff s.workers fun _ u => k ∉ u.holding).mpr
        ⟨List.not_mem_nil, fun v hv => ?_⟩
      exact hinv.disjoint w v hv.symm k (hheld k hk)
    · have hreader : s.reader = some w := by
        by_contra hne
        exact hinv.detached w hne k (hheld k hk) hbuf
      exact ⟨w, hreader, by simpa [hreader] using hk⟩
  | settle w =>
    have hshrunk := hinv.shrink (b := s.buffer \ {k | k ∈ (s.workers w).saved})
      fun _ hj => hj.1
    exact hshrunk.drop (w := w) (u := (s.workers w).forget) (List.Sublist.refl _)
      fun k hk _ hsaved => absurd hsaved hk.2
  | release w =>
    apply hinv.drop (List.nil_sublist _)
    intro k _ _ hsaved
    rw [enabled] at hsaved
    exact absurd hsaved List.not_mem_nil
  | replace w =>
    exact hinv.detach (fun k hk => (hinv.of_quiet exclusive hk).1)
      fun v _ k hk hbuf => (hinv.of_quiet exclusive hbuf).2 v hk
  | halt =>
    have hcleared := hinv.shrink (Set.empty_subset _)
    exact hcleared.detach (fun k hk => absurd hk (Set.notMem_empty k))
      fun v _ k _ => Set.notMem_empty k

/-- Accepted keys stay accepted. -/
theorem acceptedKeys_prefix_exec (s : State κ ρ ι) (op : Op κ ρ ι) :
    s.acceptedKeys <+: (s.exec op).acceptedKeys := by
  cases op with
  | accept k =>
    simp only [exec, acceptedKeys, List.map_append]
    exact List.prefix_append _ _
  | _ => exact List.prefix_rfl

/-- Without overlapping dumps and replacements, no key that is accepted once is
stored twice. -/
theorem nodup_keys {ops : List (Op κ ρ ι)} (hinv : Distinct s)
    (hrun : Execution.run State.step s ops = some t)
    (exclusive : Execution.Along State.step Exclusive s ops) (honce : t.acceptedKeys.Nodup) :
    t.keys.Nodup := by
  refine (Execution.invariant (I := fun u => u.acceptedKeys.Nodup → Distinct u) ?_
    (fun _ => hinv) hrun exclusive honce).nodup
  intro u op v hok hstep hu hv
  obtain ⟨henabled, rfl⟩ := step_eq_some.mp hstep
  have hbefore := (acceptedKeys_prefix_exec u op).sublist.nodup hv
  exact distinct_exec (hu hbefore) henabled hok hv

/-! ## Every key is stored under its tag -/

/-- Tags change while the buffer is empty and the reader is between two batches,
and a dump uses the current tag. -/
def BetweenBatches (s : State κ ρ ι) : Op κ ρ ι → Prop
  | .retag _ => s.buffer = ∅ ∧ ∀ w, s.reader = some w → (s.workers w).tag = none
  | .dump r _ => s.tag = some r
  | _ => True

/-- What ties the stored tags to the accepted ones: the buffered keys were accepted
under the current tag, the held keys under the tag of the batch, and the reader's
batch has the current tag. -/
structure Attributed (s : State κ ρ ι) : Prop where
  buffered : ∀ k ∈ s.buffer, (k, s.tag) ∈ s.accepted
  held : ∀ w, ∀ k ∈ (s.workers w).holding, (k, (s.workers w).tag) ∈ s.accepted
  current : ∀ w, s.reader = some w → (s.workers w).tag = none ∨ (s.workers w).tag = s.tag
  stored : ∀ r k, (r, k) ∈ s.store → (k, some r) ∈ s.accepted

omit [DecidableEq ι] in
theorem State.Initial.attributed (hinit : s.Initial) : Attributed s := by
  constructor
  all_goals simp [hinit.buffer, hinit.workers, hinit.store, Worker.idle]

namespace Attributed

/-- A worker may be changed as long as its own copy and batch stay attributed. -/
private theorem update (hinv : Attributed s) {w : ι} {u : Worker κ ρ}
    (hheld : ∀ k ∈ u.holding, (k, u.tag) ∈ s.accepted)
    (hcurrent : s.reader = some w → u.tag = none ∨ u.tag = s.tag) :
    Attributed { s with workers := Function.update s.workers w u } where
  buffered := hinv.buffered
  held := (Function.forall_update_iff s.workers
    fun _ u => ∀ k ∈ u.holding, (k, u.tag) ∈ s.accepted).mpr ⟨hheld, fun v _ => hinv.held v⟩
  current := (Function.forall_update_iff s.workers
    fun v u => s.reader = some v → u.tag = none ∨ u.tag = s.tag).mpr
    ⟨hcurrent, fun v _ => hinv.current v⟩
  stored := hinv.stored

omit [DecidableEq ι] in
/-- Keys may be stored under the tag they were accepted with. -/
private theorem append (hinv : Attributed s) {r : ρ} {ks : List κ}
    (hks : ∀ k ∈ ks, (k, some r) ∈ s.accepted) :
    Attributed { s with store := s.store ++ ks.map fun k => (r, k) } where
  buffered := hinv.buffered
  held := hinv.held
  current := hinv.current
  stored q j hj := by
    rcases List.mem_append.mp hj with hj | hj
    · exact hinv.stored q j hj
    · obtain ⟨i, hi, heq⟩ := List.mem_map.mp hj
      obtain ⟨rfl, rfl⟩ := Prod.mk.inj heq
      exact hks i hi

omit [DecidableEq ι] in
/-- Keys may leave the buffer. -/
private theorem shrink (hinv : Attributed s) {b : Set κ} (hsub : b ⊆ s.buffer) :
    Attributed { s with buffer := b } :=
  ⟨fun k hk => hinv.buffered k (hsub hk), hinv.held, hinv.current, hinv.stored⟩

end Attributed

theorem attributed_exec {op : Op κ ρ ι} (hinv : Attributed s) (enabled : s.Enabled op)
    (between : BetweenBatches s op) : Attributed (s.exec op) := by
  cases op with
  | accept k =>
    have hmono : ∀ e ∈ s.accepted, e ∈ s.accepted ++ [(k, s.tag)] := fun e he =>
      List.mem_append_left _ he
    refine ⟨fun j hj => ?_, fun w j hj => hmono _ (hinv.held w j hj), hinv.current,
      fun r j hj => hmono _ (hinv.stored r j hj)⟩
    rcases (hj : j = k ∨ j ∈ s.buffer) with rfl | hj
    · exact List.mem_append_right _ (List.mem_singleton_self _)
    · exact hmono _ (hinv.buffered j hj)
  | withdraw k => exact hinv.shrink fun _ hj => hj.1
  | clear => exact hinv.shrink (Set.empty_subset _)
  | dump r ks =>
    have hcleared := hinv.shrink (Set.empty_subset _)
    apply hcleared.append
    intro k hk
    have hbuf := hinv.buffered k ((enabled.2 k).mp hk)
    rwa [show s.tag = some r from between] at hbuf
  | retag r =>
    refine ⟨fun j hj => ?_, hinv.held, fun w hw => Or.inl (between.2 w hw), hinv.stored⟩
    have hempty : j ∈ s.buffer := hj
    rw [between.1] at hempty
    exact absurd hempty (Set.notMem_empty j)
  | start w ks =>
    obtain ⟨hreader, -, henum⟩ := enabled
    exact hinv.update (fun k hk => hinv.buffered k ((henum.2 k).mp hk)) fun _ => Or.inr rfl
  | refresh w ks =>
    obtain ⟨hreader, -, henum, htag⟩ := enabled
    -- the batch in progress still has the current tag
    have hcurrent : (s.workers w).tag = s.tag := (hinv.current w hreader).resolve_left htag
    refine hinv.update (fun k hk => ?_) fun _ => Or.inr hcurrent
    rw [hcurrent]
    exact hinv.buffered k ((henum.2 k).mp hk)
  | save w r ks =>
    obtain ⟨htag, -, hsub⟩ := enabled
    have hsaved := hinv.append (r := r) fun k (hk : k ∈ ks) => by
      have hheld := hinv.held w k (hsub.subset hk)
      rwa [htag] at hheld
    refine hsaved.update (fun k hk => absurd hk List.not_mem_nil) fun hw => ?_
    have hcurrent := hinv.current w hw
    rwa [htag] at hcurrent
  | settle w =>
    have hshrunk := hinv.shrink (b := s.buffer \ {k | k ∈ (s.workers w).saved})
      fun _ hj => hj.1
    exact hshrunk.update (hinv.held w) (hinv.current w)
  | release w => exact hinv.update (fun k hk => absurd hk List.not_mem_nil) fun _ => Or.inl rfl
  | replace w =>
    refine ⟨hinv.buffered, hinv.held, fun v hv => Or.inl ?_, hinv.stored⟩
    obtain rfl : w = v := Option.some.inj hv
    have hidle : s.workers w = .idle := enabled
    change (s.workers w).tag = none
    rw [hidle]
    rfl
  | halt =>
    exact ⟨fun j hj => absurd hj (Set.notMem_empty j), hinv.held,
      fun w hw => absurd hw (by simp [exec]), hinv.stored⟩

/-- When tags change between batches only, every key is stored under the tag it was
accepted with. -/
theorem store_attributed {ops : List (Op κ ρ ι)} (hinv : Attributed s)
    (hrun : Execution.run State.step s ops = some t)
    (between : Execution.Along State.step BetweenBatches s ops) : Attributed t := by
  refine Execution.invariant ?_ hinv hrun between
  intro u op v hok hstep hu
  obtain ⟨henabled, rfl⟩ := step_eq_some.mp hstep
  exact attributed_exec hu henabled hok

/-! ## No key of the current tag is lost -/

/-- Tags change while the reader is between two batches, and a dump uses the current
tag. -/
def BetweenTags (s : State κ ρ ι) : Op κ ρ ι → Prop
  | .retag _ => ∀ w, s.reader = some w → (s.workers w).tag = none
  | .dump r _ => s.tag = some r
  | _ => True

/-- The reader's batch has the current tag, and so have the keys in the store that it is
about to remove. -/
structure Tagged (s : State κ ρ ι) : Prop where
  current : ∀ w, s.reader = some w → (s.workers w).tag = none ∨ (s.workers w).tag = s.tag
  saved : ∀ w, s.reader = some w → ∀ k ∈ (s.workers w).saved, ∃ r, s.tag = some r ∧
    (r, k) ∈ s.store
  idle : ∀ w, (s.workers w).tag = none → (s.workers w).saved = []

omit [DecidableEq ι] in
theorem State.Initial.tagged (hinit : s.Initial) : Tagged s := by
  constructor
  all_goals simp [hinit.workers, Worker.idle]

namespace Tagged

/-- A worker may be changed for one whose batch and removals have the current tag. -/
private theorem update (hinv : Tagged s) {w : ι} {u : Worker κ ρ}
    (hcurrent : s.reader = some w → u.tag = none ∨ u.tag = s.tag)
    (hsaved : s.reader = some w → ∀ k ∈ u.saved, ∃ r, s.tag = some r ∧ (r, k) ∈ s.store)
    (hidle : u.tag = none → u.saved = []) :
    Tagged { s with workers := Function.update s.workers w u } where
  current := (Function.forall_update_iff s.workers
    fun v u => s.reader = some v → u.tag = none ∨ u.tag = s.tag).mpr
    ⟨hcurrent, fun v _ => hinv.current v⟩
  saved := (Function.forall_update_iff s.workers fun v u => s.reader = some v →
    ∀ k ∈ u.saved, ∃ r, s.tag = some r ∧ (r, k) ∈ s.store).mpr ⟨hsaved, fun v _ => hinv.saved v⟩
  idle := (Function.forall_update_iff s.workers
    fun _ u => u.tag = none → u.saved = []).mpr ⟨hidle, fun v _ => hinv.idle v⟩

omit [DecidableEq ι] in
/-- Rows may be added to the store. -/
private theorem append (hinv : Tagged s) (rows : List (ρ × κ)) :
    Tagged { s with store := s.store ++ rows } where
  current := hinv.current
  saved w hw k hk := by
    obtain ⟨r, hr, hstored⟩ := hinv.saved w hw k hk
    exact ⟨r, hr, List.mem_append_left _ hstored⟩
  idle := hinv.idle

omit [DecidableEq ι] in
/-- The keys in the buffer do not matter. -/
private theorem rebuffer (hinv : Tagged s) (b : Set κ) : Tagged { s with buffer := b } :=
  ⟨hinv.current, hinv.saved, hinv.idle⟩

end Tagged

theorem tagged_exec {op : Op κ ρ ι} (hinv : Tagged s) (enabled : s.Enabled op)
    (between : BetweenTags s op) : Tagged (s.exec op) := by
  cases op with
  | accept k => exact ⟨hinv.current, hinv.saved, hinv.idle⟩
  | withdraw k => exact hinv.rebuffer _
  | clear => exact hinv.rebuffer _
  | dump r ks => exact (hinv.rebuffer ∅).append _
  -- a reader without a batch has nothing to remove
  | retag r =>
    refine ⟨fun w hw => Or.inl (between w hw), fun w hw k hk => ?_, hinv.idle⟩
    have hnone : k ∈ (s.workers w).saved := hk
    rw [hinv.idle w (between w hw)] at hnone
    exact absurd hnone List.not_mem_nil
  | start w ks =>
    exact hinv.update (fun _ => Or.inr rfl) (fun _ k hk => absurd hk List.not_mem_nil) fun _ => rfl
  | refresh w ks => exact hinv.update (hinv.current w) (hinv.saved w) (hinv.idle w)
  | save w r ks =>
    obtain ⟨htag, -, -⟩ := enabled
    have hcurrent : s.reader = some w → s.tag = some r := fun hw => by
      rcases hinv.current w hw with hnone | heq
      · rw [htag] at hnone
        cases hnone
      · rw [← heq, htag]
    refine (hinv.append _).update (fun hw => Or.inr (hcurrent hw).symm) (fun hw k hk => ?_)
      fun h => by cases h
    refine ⟨r, hcurrent hw, List.mem_append_right _ ?_⟩
    dsimp only at hk
    split_ifs at hk with hreader
    · exact List.mem_map_of_mem hk
    · exact absurd hw hreader
  | settle w =>
    exact (hinv.rebuffer _).update (hinv.current w) (fun _ k hk => absurd hk List.not_mem_nil)
      fun _ => rfl
  | release w =>
    exact hinv.update (fun _ => Or.inl rfl) (fun _ k hk => absurd hk List.not_mem_nil) fun _ => rfl
  | replace w =>
    refine ⟨fun v hv => Or.inl ?_, fun v _ k hk => absurd hk List.not_mem_nil, fun _ _ => rfl⟩
    obtain rfl : w = v := Option.some.inj hv
    have hidle : s.workers w = .idle := enabled
    change (s.workers w).tag = none
    rw [hidle]
    rfl
  | halt =>
    exact ⟨fun w hw => absurd hw (by simp [exec]), fun w hw => absurd hw (by simp [exec]),
      fun _ _ => rfl⟩

theorem tagged_of_run {ops : List (Op κ ρ ι)} (hinv : Tagged s)
    (hrun : Execution.run State.step s ops = some t)
    (between : Execution.Along State.step BetweenTags s ops) : Tagged t := by
  refine Execution.invariant ?_ hinv hrun between
  intro u op v hok hstep hu
  obtain ⟨henabled, rfl⟩ := step_eq_some.mp hstep
  exact tagged_exec hu henabled hok

/-- The store only grows. -/
theorem mem_store_of_run {ops : List (Op κ ρ ι)} (hrun : Execution.run State.step s ops = some t)
    {row : ρ × κ} (hrow : row ∈ s.store) : row ∈ t.store := by
  refine Execution.invariant (I := fun u => row ∈ u.store) ?_ hrow hrun (Execution.along_true _ _)
  intro u op v _ hstep hu
  obtain ⟨-, rfl⟩ := step_eq_some.mp hstep
  cases op with
  | dump r ks => exact List.mem_append_left _ hu
  | save w r ks => exact List.mem_append_left _ hu
  | _ => exact hu

/-- The key is in the buffer, or stored under the current tag. -/
def Secured (s : State κ ρ ι) (k : κ) : Prop :=
  k ∈ s.buffer ∨ ∃ r, s.tag = some r ∧ (r, k) ∈ s.store

/-- The operations that neither give up a key nor change the tag. -/
def Op.Keeps : Op κ ρ ι → Prop
  | .withdraw _ | .clear | .dump _ _ | .retag _ | .halt => False
  | _ => True

omit [DecidableEq ι] in
theorem Op.ByWorker.keeps {op : Op κ ρ ι} (h : op.ByWorker) : op.Keeps := by
  cases op <;> trivial

theorem tag_exec {op : Op κ ρ ι} (hop : op.Keeps) : (s.exec op).tag = s.tag := by
  cases op <;> first | rfl | exact hop.elim

theorem secured_accept (s : State κ ρ ι) (k : κ) : Secured (s.exec (.accept k)) k :=
  Or.inl (Set.mem_insert _ _)

theorem secured_exec {op : Op κ ρ ι} (hinv : Tagged s) (enabled : s.Enabled op)
    (hop : op.Keeps) {k : κ} (hk : Secured s k) : Secured (s.exec op) k := by
  cases op with
  | accept j => exact hk.imp_left (Set.mem_insert_of_mem _)
  | save w r ks =>
    apply hk.imp_right
    rintro ⟨q, hq, hstored⟩
    exact ⟨q, hq, List.mem_append_left _ hstored⟩
  -- a key that leaves the buffer has been stored under the current tag
  | settle w =>
    rcases hk with hbuf | hstored
    · by_cases hmem : k ∈ (s.workers w).saved
      · exact Or.inr (hinv.saved w enabled k hmem)
      · exact Or.inl ⟨hbuf, hmem⟩
    · exact Or.inr hstored
  | start w ks => exact hk
  | refresh w ks => exact hk
  | release w => exact hk
  | replace w => exact hk
  | _ => exact hop.elim

/-- A key stays in the buffer until it is stored under the current tag, which does not
change meanwhile. -/
theorem secured_of_run {ops : List (Op κ ρ ι)} (hinv : Tagged s)
    (hrun : Execution.run State.step s ops = some t) (hops : ∀ op ∈ ops, op.Keeps) :
    t.tag = s.tag ∧ ∀ k, Secured s k → Secured t k := by
  induction ops generalizing s with
  | nil =>
    obtain rfl : s = t := Option.some.inj hrun
    exact ⟨rfl, fun _ hk => hk⟩
  | cons op ops ih =>
    obtain ⟨hop, hrest⟩ := List.forall_mem_cons.mp hops
    obtain ⟨u, hstep, hrun⟩ := Execution.run_cons_eq_some.mp hrun
    obtain ⟨henabled, rfl⟩ := step_eq_some.mp hstep
    have hbetween : BetweenTags s op := by cases op <;> trivial
    obtain ⟨htag, hkept⟩ := ih (tagged_exec hinv henabled hbetween) hrun hrest
    exact ⟨htag.trans (tag_exec hop), fun k hk => hkept k (secured_exec hinv henabled hop hk)⟩

end Protocol.WriteBehind
