import Mathlib.Algebra.Order.BigOperators.Group.Finset
import Mathlib.Data.Fintype.Card
import Mathlib.Logic.Function.Basic
import Contender.Semantics.Execution

/-!
# Borrowing from a pool

Clients share a fixed set of resources. Each client runs the programs of its queue one
after the other; a program borrows resources, acts through the one it borrowed last, and
gives them back in the opposite order. A program that fails gives back everything it
holds. A client that borrows a second resource keeps the first while it waits, so the
clients can starve each other.

## Main results

* `not_starved` — clients whose depths exceed one by less than the number of resources
  together never starve each other
* `exists_starved` — as many clients with nested borrowings as there are resources can
-/

namespace Protocol.NestedBorrowing

open Semantics

inductive Instr (α : Type*)
  | acquire
  | act (a : α)
  | release
deriving DecidableEq

/-- The programs a client has not begun, what is left of the current one, and the
resources it holds, the last one first. -/
structure Client (ρ α : Type*) where
  queue : List (List (Instr α))
  program : List (Instr α)
  held : List ρ

/-- What the actions work on, who holds which resource, and the clients. -/
structure State (σ ι ρ α : Type*) where
  store : σ
  holder : ρ → Option ι
  clients : ι → Client ρ α

inductive Label (ι ρ ω : Type*)
  | start (i : ι)
  | acquire (i : ι) (r : ρ)
  | act (i : ι) (o : ω)
  | release (i : ι)
  | fail (i : ι)

variable {σ ι ρ α ω : Type*}

/-- Nothing is borrowed, and every client has its work before it. -/
def initial (store : σ) (work : ι → List (List (Instr α))) : State σ ι ρ α where
  store := store
  holder _ := none
  clients i := ⟨work i, [], []⟩

variable [DecidableEq ι] [DecidableEq ρ]

def State.setClient (s : State σ ι ρ α) (i : ι) (c : Client ρ α) : State σ ι ρ α :=
  { s with clients := Function.update s.clients i c }

def State.setHolder (s : State σ ι ρ α) (r : ρ) (i : Option ι) : State σ ι ρ α :=
  { s with holder := Function.update s.holder r i }

/-- A client gives back everything it holds. -/
def State.drop (s : State σ ι ρ α) (i : ι) : State σ ι ρ α :=
  { s with holder := fun r => if s.holder r = some i then none else s.holder r }

omit [DecidableEq ρ] in
@[simp] theorem State.clients_setClient_self (s : State σ ι ρ α) (i : ι) (c : Client ρ α) :
    (s.setClient i c).clients i = c :=
  Function.update_self ..

variable (exec : ι → ρ → α → ω → σ → Option σ)

/-- The transition function. The label chooses the free resource a client gets and the
outcome of an action. -/
def step (s : State σ ι ρ α) : Label ι ρ ω → Option (State σ ι ρ α)
  | .start i =>
    match s.clients i with
    | ⟨p :: queue, [], []⟩ => some (s.setClient i ⟨queue, p, []⟩)
    | _ => none
  | .acquire i r =>
    match s.clients i with
    | ⟨queue, .acquire :: program, held⟩ =>
      if s.holder r = none then
        some ((s.setHolder r (some i)).setClient i ⟨queue, program, r :: held⟩)
      else none
    | _ => none
  | .act i o =>
    match s.clients i with
    | ⟨queue, .act a :: program, r :: held⟩ =>
      (exec i r a o s.store).map fun store =>
        { s with store := store }.setClient i ⟨queue, program, r :: held⟩
    | _ => none
  | .release i =>
    match s.clients i with
    | ⟨queue, .release :: program, r :: held⟩ =>
      some ((s.setHolder r none).setClient i ⟨queue, program, held⟩)
    | _ => none
  | .fail i =>
    match s.clients i with
    | ⟨queue, _ :: _, _⟩ => some ((s.drop i).setClient i ⟨queue, [], []⟩)
    | _ => none

/-- What a step can do. -/
inductive Step (s : State σ ι ρ α) : Label ι ρ ω → State σ ι ρ α → Prop
  | start {i p queue} (at_ : s.clients i = ⟨p :: queue, [], []⟩) :
      Step s (.start i) (s.setClient i ⟨queue, p, []⟩)
  | acquire {i r queue program held} (at_ : s.clients i = ⟨queue, .acquire :: program, held⟩)
      (free : s.holder r = none) :
      Step s (.acquire i r)
        ((s.setHolder r (some i)).setClient i ⟨queue, program, r :: held⟩)
  | act {i r a o queue program held store}
      (at_ : s.clients i = ⟨queue, .act a :: program, r :: held⟩)
      (done : exec i r a o s.store = some store) :
      Step s (.act i o) ({ s with store := store }.setClient i ⟨queue, program, r :: held⟩)
  | release {i r queue program held}
      (at_ : s.clients i = ⟨queue, .release :: program, r :: held⟩) :
      Step s (.release i) ((s.setHolder r none).setClient i ⟨queue, program, held⟩)
  | fail {i x queue program held} (at_ : s.clients i = ⟨queue, x :: program, held⟩) :
      Step s (.fail i) ((s.drop i).setClient i ⟨queue, [], []⟩)

variable {exec} {s t : State σ ι ρ α}

theorem step_eq_some {l : Label ι ρ ω} : step exec s l = some t ↔ Step exec s l t := by
  constructor
  · intro h
    cases l with
    | start i =>
      simp only [step] at h
      split at h
      · rename_i hat
        obtain rfl := Option.some.inj h
        exact .start hat
      · cases h
    | acquire i r =>
      simp only [step] at h
      split at h
      · rename_i hat
        split_ifs at h with hfree
        obtain rfl := Option.some.inj h
        exact .acquire hat hfree
      · cases h
    | act i o =>
      simp only [step] at h
      split at h
      · rename_i hat
        obtain ⟨store, hdone, rfl⟩ := Option.map_eq_some_iff.mp h
        exact .act hat hdone
      · cases h
    | release i =>
      simp only [step] at h
      split at h
      · rename_i hat
        obtain rfl := Option.some.inj h
        exact .release hat
      · cases h
    | fail i =>
      simp only [step] at h
      split at h
      · rename_i hat
        obtain rfl := Option.some.inj h
        exact .fail hat
      · cases h
  · rintro (hat | ⟨hat, hfree⟩ | ⟨hat, hdone⟩ | hat | hat)
    · simp [step, hat]
    · simp [step, hat, hfree]
    · simp [step, hat, hdone]
    · simp [step, hat]
    · simp [step, hat]

/-! ## Who holds what, and how deep -/

/-- A client keeps what it borrowed on its stack. -/
def Recorded (s : State σ ι ρ α) : Prop :=
  ∀ r i, s.holder r = some i → r ∈ (s.clients i).held

theorem recorded_step {l : Label ι ρ ω} (hstep : Step exec s l t) (hinv : Recorded s) :
    Recorded t := by
  intro r j hr
  cases hstep with
  | @start i p queue hat =>
    have hheld := hinv r j hr
    by_cases hj : j = i
    · subst hj
      rw [hat] at hheld
      exact absurd hheld List.not_mem_nil
    · simpa [State.setClient, hj] using hheld
  | @acquire i r' queue program held hat hfree =>
    simp only [State.setClient, State.setHolder] at hr ⊢
    by_cases hrr : r = r'
    · subst hrr
      obtain rfl : i = j := by simpa using hr
      simp
    · rw [Function.update_of_ne hrr] at hr
      have hheld := hinv r j hr
      by_cases hj : j = i
      · subst hj
        rw [hat] at hheld
        simpa using Or.inr hheld
      · simpa [hj] using hheld
  | @act i r' a o queue program held store hat hdone =>
    have hheld := hinv r j hr
    by_cases hj : j = i
    · subst hj
      rw [hat] at hheld
      simpa [State.setClient] using hheld
    · simpa [State.setClient, hj] using hheld
  | @release i r' queue program held hat =>
    simp only [State.setClient, State.setHolder] at hr ⊢
    by_cases hrr : r = r'
    · subst hrr
      simp at hr
    · rw [Function.update_of_ne hrr] at hr
      have hheld := hinv r j hr
      by_cases hj : j = i
      · subst hj
        rw [hat] at hheld
        simpa [hrr] using hheld
      · simpa [hj] using hheld
  | @fail i x queue program held hat =>
    simp only [State.setClient, State.drop] at hr ⊢
    split_ifs at hr with hmine
    have hj : j ≠ i := fun hj => hmine (hj ▸ hr)
    simpa [hj] using hinv r j hr

/-- The program never holds more than `d` resources, `k` of which it holds already. -/
def Within (d : ℕ) : ℕ → List (Instr α) → Prop
  | _, [] => True
  | k, .acquire :: p => k < d ∧ Within d (k + 1) p
  | k, .act _ :: p => Within d k p
  | k, .release :: p => Within d (k - 1) p

@[simp] theorem within_acts_append {d k : ℕ} (acts : List α) (p : List (Instr α)) :
    Within d k (acts.map .act ++ p) ↔ Within d k p := by
  induction acts with
  | nil => rfl
  | cons a acts ih => exact ih

/-- The client never holds more than `d` resources. -/
structure Client.Within (d : ℕ) (c : Client ρ α) : Prop where
  program : NestedBorrowing.Within d c.held.length c.program
  queue : ∀ p ∈ c.queue, NestedBorrowing.Within d 0 p

theorem within_step {d : ι → ℕ} {l : Label ι ρ ω} (hstep : Step exec s l t)
    (hinv : ∀ i, (s.clients i).Within (d i)) : ∀ i, (t.clients i).Within (d i) := by
  -- a step changes one client
  have hupdate : ∀ i c, c.Within (d i) →
      ∀ j, (Function.update s.clients i c j).Within (d j) := fun i c hc =>
    (Function.forall_update_iff s.clients fun j c => c.Within (d j)).mpr ⟨hc, fun j _ => hinv j⟩
  cases hstep with
  | @start i p queue hat =>
    have hi := hinv i
    rw [hat] at hi
    obtain ⟨hp, hqueue⟩ := List.forall_mem_cons.mp hi.queue
    exact hupdate i _ ⟨hp, hqueue⟩
  | @acquire i r queue program held hat hfree =>
    have hi := hinv i
    rw [hat] at hi
    exact hupdate i _ ⟨hi.program.2, hi.queue⟩
  | @act i r a o queue program held store hat hdone =>
    have hi := hinv i
    rw [hat] at hi
    exact hupdate i _ ⟨hi.program, hi.queue⟩
  | @release i r queue program held hat =>
    have hi := hinv i
    rw [hat] at hi
    exact hupdate i _ ⟨hi.program, hi.queue⟩
  | @fail i x queue program held hat =>
    have hi := hinv i
    rw [hat] at hi
    exact hupdate i _ ⟨trivial, hi.queue⟩

/-! ## Starvation -/

/-- The client waits for a resource. -/
def Client.Waiting (c : Client ρ α) : Prop := ∃ rest, c.program = .acquire :: rest

/-- Every resource is held by a client that waits for another one. -/
def Starved (s : State σ ι ρ α) : Prop :=
  ∀ r, ∃ i, s.holder r = some i ∧ (s.clients i).Waiting

omit [DecidableEq ρ] in
/-- A waiting client holds fewer resources than its depth. -/
theorem Client.Within.length_held_lt {d : ℕ} {c : Client ρ α} (hc : c.Within d)
    (hwaiting : c.Waiting) : c.held.length < d := by
  obtain ⟨rest, hrest⟩ := hwaiting
  have hprogram := hc.program
  rw [hrest] at hprogram
  exact hprogram.1

/-- In a starved state the clients' depths exceed one by the number of resources at
least. -/
theorem card_le_of_starved [Fintype ι] [Fintype ρ] {d : ι → ℕ} (hrecorded : Recorded s)
    (hwithin : ∀ i, (s.clients i).Within (d i)) (hstarved : Starved s) :
    Fintype.card ρ ≤ ∑ i, (d i - 1) := by
  choose f hholder hwaiting using hstarved
  have hfiber : ∀ i ∈ Finset.univ, (Finset.univ.filter fun r => f r = i).card ≤ d i - 1 := by
    intro i _
    rcases (Finset.univ.filter fun r => f r = i).eq_empty_or_nonempty with hnone | ⟨r, hr⟩
    · simp [hnone]
    · have hlt : (s.clients i).held.length < d i := by
        obtain rfl : f r = i := by simpa using hr
        exact (hwithin (f r)).length_held_lt (hwaiting r)
      have hsub : (Finset.univ.filter fun r => f r = i) ⊆ (s.clients i).held.toFinset := by
        intro r' hr'
        obtain rfl : f r' = i := by simpa using hr'
        exact List.mem_toFinset.mpr (hrecorded _ _ (hholder r'))
      have hcard := (Finset.card_le_card hsub).trans (List.toFinset_card_le _)
      omega
  calc Fintype.card ρ = ∑ i, (Finset.univ.filter fun r => f r = i).card :=
        Finset.card_eq_sum_card_fiberwise fun r _ => Finset.mem_univ (f r)
    _ ≤ ∑ i, (d i - 1) := Finset.sum_le_sum hfiber

/-- **Enough resources.** When the clients' depths together exceed one by less than the
number of resources, no run starves them. -/
theorem not_starved [Fintype ι] [Fintype ρ] {work : ι → List (List (Instr α))} {d : ι → ℕ}
    (hdepth : ∀ i, ∀ p ∈ work i, Within (d i) 0 p)
    (henough : ∑ i, (d i - 1) < Fintype.card ρ) {store : σ} {w : List (Label ι ρ ω)}
    (hrun : Execution.run (step exec) (initial store work) w = some t) : ¬ Starved t := by
  intro hstarved
  have hinv : Recorded t ∧ ∀ i, (t.clients i).Within (d i) := by
    refine Execution.invariant
      (I := fun u => Recorded u ∧ ∀ i, (u.clients i).Within (d i)) ?_ ?_ hrun
      (Execution.along_true _ _)
    · rintro u l v - hstep ⟨hrecorded, hwithin⟩
      have hstep := step_eq_some.mp hstep
      exact ⟨recorded_step hstep hrecorded, within_step hstep hwithin⟩
    · exact ⟨fun r i hr => by simp [initial] at hr, fun i => ⟨trivial, hdepth i⟩⟩
  have hcard := card_le_of_starved hinv.1 hinv.2 hstarved
  omega

/-! ## Reaching a starved state -/

/-- Borrow one resource, act through it, and give it back. -/
def session (acts : List α) : List (Instr α) := .acquire :: (acts.map .act ++ [.release])

omit [DecidableEq ι] [DecidableEq ρ] in
theorem within_session_append {d k : ℕ} (acts : List α) (p : List (Instr α)) :
    Within d k (session acts ++ p) ↔ k < d ∧ Within d k p := by
  have hprogram : session acts ++ p = .acquire :: (acts.map .act ++ .release :: p) := by
    simp [session]
  simp [hprogram, Within]

omit [DecidableEq ι] [DecidableEq ρ] in
theorem within_session {d k : ℕ} (acts : List α) : Within d k (session acts) ↔ k < d := by
  have happend := within_session_append (d := d) (k := k) acts []
  simpa [Within] using happend

/-- A program that borrows one resource at a time. -/
def Flat (p : List (Instr α)) : Prop :=
  ∃ sessions : List (List α), p = (sessions.map session).flatten

/-- A program that borrows a second resource while it holds its first. -/
def Nested (p : List (Instr α)) : Prop :=
  ∃ (acts : List α) (rest : List (Instr α)), p = .acquire :: (acts.map .act ++ .acquire :: rest)

/-- Every action can succeed. -/
def Total (exec : ι → ρ → α → ω → σ → Option σ) : Prop :=
  ∀ i r a store, ∃ o store', exec i r a o store = some store'

/-- Some run leads from the state to these borrowings and clients; what becomes of the
store is of no account. -/
def Leads (exec : ι → ρ → α → ω → σ → Option σ) (s : State σ ι ρ α) (holder : ρ → Option ι)
    (clients : ι → Client ρ α) : Prop :=
  ∃ w t, Execution.run (step exec) s w = some t ∧ t.holder = holder ∧ t.clients = clients

variable {i : ι} {r : ρ} {acts : List α} {rest p : List (Instr α)}
  {queue before after : List (List (Instr α))} {held : List ρ}
  {holder holder' : ρ → Option ι} {clients clients' : ι → Client ρ α}

theorem Leads.refl : Leads exec s s.holder s.clients := ⟨[], s, rfl, rfl, rfl⟩

theorem Leads.head {l : Label ι ρ ω} (hstep : Step exec s l t)
    (hleads : Leads exec t holder clients) : Leads exec s holder clients := by
  obtain ⟨w, u, hrun, hu⟩ := hleads
  exact ⟨l :: w, u, Execution.run_cons_eq_some.mpr ⟨t, step_eq_some.mpr hstep, hrun⟩, hu⟩

theorem Leads.trans (hleads : Leads exec s holder clients)
    (hnext : ∀ t : State σ ι ρ α, t.holder = holder → t.clients = clients →
      Leads exec t holder' clients') : Leads exec s holder' clients' := by
  obtain ⟨w, t, hrun, hholder, hclients⟩ := hleads
  obtain ⟨w', u, hrun', hu⟩ := hnext t hholder hclients
  exact ⟨w ++ w', u, Execution.run_append_eq_some.mpr ⟨t, hrun, hrun'⟩, hu⟩

/-- A client gets through its next actions. -/
theorem leads_acts (htotal : Total exec)
    (hat : s.clients i = ⟨queue, acts.map .act ++ rest, r :: held⟩) :
    Leads exec s s.holder (Function.update s.clients i ⟨queue, rest, r :: held⟩) := by
  induction acts generalizing s with
  | nil =>
    have hself : Function.update s.clients i ⟨queue, rest, r :: held⟩ = s.clients := by
      rw [Function.update_eq_self_iff, hat]
      rfl
    rw [hself]
    exact .refl
  | cons a acts ih =>
    obtain ⟨o, store, hdone⟩ := htotal i r a s.store
    have hnext := ih (s := { s with store := store }.setClient i
      ⟨queue, acts.map Instr.act ++ rest, r :: held⟩) (State.clients_setClient_self ..)
    simp only [State.setClient, Function.update_idem] at hnext
    exact .head (.act hat hdone) hnext

/-- A client gets through its next session when some resource is free. -/
theorem leads_session (htotal : Total exec) (hfree : s.holder r = none)
    (hat : s.clients i = ⟨queue, session acts ++ rest, held⟩) :
    Leads exec s s.holder (Function.update s.clients i ⟨queue, rest, held⟩) := by
  have hprogram : session acts ++ rest = .acquire :: (acts.map .act ++ .release :: rest) := by
    simp [session]
  rw [hprogram] at hat
  refine .head (.acquire hat hfree) ?_
  refine (leads_acts htotal (State.clients_setClient_self ..)).trans ?_
  intro t hholder hclients
  simp only [State.setClient, Function.update_idem] at hholder hclients
  refine .head (.release (hclients ▸ Function.update_self ..)) ?_
  refine ⟨[], _, rfl, ?_, ?_⟩
  · rw [State.setClient, State.setHolder, hholder, State.setHolder, Function.update_idem,
      ← hfree, Function.update_eq_self]
  · rw [State.setClient, State.setHolder, hclients, State.setHolder, Function.update_idem]

/-- A client gets through its next flat program. -/
theorem leads_flat (htotal : Total exec) (hfree : s.holder r = none) (hflat : Flat p)
    (hat : s.clients i = ⟨queue, p, []⟩) :
    Leads exec s s.holder (Function.update s.clients i ⟨queue, [], []⟩) := by
  obtain ⟨sessions, rfl⟩ := hflat
  induction sessions generalizing s with
  | nil =>
    have hself : Function.update s.clients i ⟨queue, [], []⟩ = s.clients := by
      rw [Function.update_eq_self_iff, hat]
      rfl
    rw [hself]
    exact .refl
  | cons acts sessions ih =>
    refine (leads_session htotal hfree hat).trans ?_
    intro t hholder hclients
    have hnext := ih (s := t) (by rw [hholder, hfree]) (by simp [hclients])
    rwa [hholder, hclients, Function.update_idem] at hnext

/-- A client gets through the flat programs at the head of its queue. -/
theorem leads_queue (htotal : Total exec) (hfree : s.holder r = none)
    (hflat : ∀ p ∈ before, Flat p) (hat : s.clients i = ⟨before ++ queue, [], []⟩) :
    Leads exec s s.holder (Function.update s.clients i ⟨queue, [], []⟩) := by
  induction before generalizing s with
  | nil =>
    have hself : Function.update s.clients i ⟨queue, [], []⟩ = s.clients := by
      rw [Function.update_eq_self_iff, hat]
      rfl
    rw [hself]
    exact .refl
  | cons p before ih =>
    obtain ⟨hp, hbefore⟩ := List.forall_mem_cons.mp hflat
    refine .head (.start (p := p) hat) ?_
    refine (leads_flat htotal (s := s.setClient i ⟨before ++ queue, p, []⟩) hfree hp
      (State.clients_setClient_self ..)).trans ?_
    intro t hholder hclients
    simp only [State.setClient, Function.update_idem] at hholder hclients
    have hnext := ih (s := t) (by rw [hholder, hfree]) hbefore (by simp [hclients])
    rwa [hholder, hclients, Function.update_idem] at hnext

/-- A client whose first program that is not flat is nested comes to hold a free resource
and to wait for a second one. -/
theorem leads_waiting (htotal : Total exec) (hfree : s.holder r = none)
    (hflat : ∀ p ∈ before, Flat p) (hnested : Nested p)
    (hat : s.clients i = ⟨before ++ p :: after, [], []⟩) :
    ∃ c : Client ρ α, c.Waiting ∧
      Leads exec s (Function.update s.holder r (some i)) (Function.update s.clients i c) := by
  obtain ⟨acts, rest, rfl⟩ := hnested
  refine ⟨⟨after, .acquire :: rest, [r]⟩, ⟨rest, rfl⟩, ?_⟩
  refine (leads_queue htotal hfree hflat hat).trans ?_
  intro t hholder hclients
  refine .head (.start (hclients ▸ Function.update_self ..)) ?_
  refine .head (.acquire (r := r) (State.clients_setClient_self ..) (hholder ▸ hfree)) ?_
  have hacts := leads_acts htotal (State.clients_setClient_self ((t.setClient i
    ⟨after, .acquire :: (acts.map .act ++ .acquire :: rest), []⟩).setHolder r (some i)) i
    ⟨after, acts.map .act ++ .acquire :: rest, [r]⟩)
  simpa only [State.setClient, State.setHolder, Function.update_idem, hholder, hclients]
    using hacts

/-- Each resource of the list is held by its client, which waits for another one; the
other resources are free and the other clients have not begun. -/
structure Taken (work : ι → List (List (Instr α))) (f : ρ → ι) (rs : List ρ)
    (s : State σ ι ρ α) : Prop where
  holder : ∀ r ∈ rs, s.holder r = some (f r)
  waiting : ∀ r ∈ rs, (s.clients (f r)).Waiting
  free : ∀ r ∉ rs, s.holder r = none
  fresh : ∀ r ∉ rs, s.clients (f r) = ⟨work (f r), [], []⟩

theorem exists_taken (htotal : Total exec) {work : ι → List (List (Instr α))} {f : ρ → ι}
    (hf : Function.Injective f)
    (hwork : ∀ r, ∃ before p after, work (f r) = before ++ p :: after ∧
      (∀ q ∈ before, Flat q) ∧ Nested p) (store : σ) {rs : List ρ} (hrs : rs.Nodup) :
    ∃ w t, Execution.run (step exec) (initial store work) w = some t ∧ Taken work f rs t := by
  induction rs with
  | nil => exact ⟨[], _, rfl, by simp, by simp, fun _ _ => rfl, fun _ _ => rfl⟩
  | cons r rs ih =>
    obtain ⟨hr, hrs⟩ := List.nodup_cons.mp hrs
    obtain ⟨w, t, hrun, htaken⟩ := ih hrs
    obtain ⟨before, p, after, hsplit, hflat, hnested⟩ := hwork r
    obtain ⟨c, hc, w', u, hrun', hholder, hclients⟩ := leads_waiting htotal (htaken.free r hr)
      hflat hnested (i := f r) (by rw [htaken.fresh r hr, hsplit])
    refine ⟨w ++ w', u, Execution.run_append_eq_some.mpr ⟨t, hrun, hrun'⟩, ?_, ?_, ?_, ?_⟩
    · intro r' hr'
      rw [hholder]
      rcases List.mem_cons.mp hr' with rfl | hr'
      · rw [Function.update_self]
      · have hne : r' ≠ r := fun h => hr (h ▸ hr')
        rw [Function.update_of_ne hne, htaken.holder r' hr']
    · intro r' hr'
      rw [hclients]
      rcases List.mem_cons.mp hr' with rfl | hr'
      · rwa [Function.update_self]
      · have hne : f r' ≠ f r := fun h => hr (hf h ▸ hr')
        rw [Function.update_of_ne hne]
        exact htaken.waiting r' hr'
    · intro r' hr'
      rw [List.mem_cons, not_or] at hr'
      rw [hholder, Function.update_of_ne hr'.1, htaken.free r' hr'.2]
    · intro r' hr'
      rw [List.mem_cons, not_or] at hr'
      have hne : f r' ≠ f r := fun h => hr'.1 (hf h)
      rw [hclients, Function.update_of_ne hne, htaken.fresh r' hr'.2]

/-- **Too many clients.** When each resource has a client of its own with a nested program,
before which it only runs flat ones, some run starves them. -/
theorem exists_starved [Fintype ρ] (htotal : Total exec) (work : ι → List (List (Instr α)))
    {f : ρ → ι} (hf : Function.Injective f)
    (hwork : ∀ r, ∃ before p after, work (f r) = before ++ p :: after ∧
      (∀ q ∈ before, Flat q) ∧ Nested p) (store : σ) :
    ∃ w t, Execution.run (step exec) (initial store work) w = some t ∧ Starved t := by
  obtain ⟨w, t, hrun, htaken⟩ := exists_taken htotal hf hwork store Finset.univ.nodup_toList
  refine ⟨w, t, hrun, fun r => ⟨f r, htaken.holder r ?_, htaken.waiting r ?_⟩⟩
  · exact Finset.mem_toList.mpr (Finset.mem_univ r)
  · exact Finset.mem_toList.mpr (Finset.mem_univ r)

end Protocol.NestedBorrowing
