import Contender.Scenario.PendingBatch
import Mathlib.Data.Multiset.Lattice
import Mathlib.Order.Lattice.Nat
import Mathlib.Tactic.NormNum

/-!
# Gas bumps of a batch

A transaction that is rejected as an underpriced replacement reports a tenth of
its fee. The gas loop of `collect_pending_batch` is meant to raise the gas price
adder by the largest bump of the batch. It compares each bump with the adder the
batch started from, but adds it to the adder reached so far, so a bump that
arrives after a smaller one is added on top of it.
-/

namespace Contender

/-- The bumps that `handle_tx_outcome` can report (`isBump_of_handleTxOutcome`): a tenth of a
`u128`. -/
def IsBump (bump : Nat) : Prop := bump ≤ (2 ^ 128 - 1) / 10

/-- The fee fields of a request are `u128` values. -/
def TransactionRequest.HasU128Fees (tx : TransactionRequest) : Prop :=
  (∀ fee ∈ tx.maxFeePerGas, fee < 2 ^ 128) ∧ ∀ price ∈ tx.gasPrice, price < 2 ^ 128

/-- Every bump that is reported is a bump. -/
theorem isBump_of_handleTxOutcome {env : Env} {req : NamedTxRequest} {error : Option Text}
    (hfees : req.tx.HasU128Fees) {bump : Nat}
    (h : (handleTxOutcome env req error).message = some (.addGas bump)) : IsBump bump := by
  cases error with
  | none => cases h
  | some msg =>
    change errorMessage env req msg = _ at h
    unfold errorMessage at h
    split_ifs at h
    · obtain rfl := SpamMessage.addGas.inj (Option.some.inj h)
      have hfee : req.tx.maxFeePerGas.getD (req.tx.gasPrice.getD 1000000000) < 2 ^ 128 := by
        cases hmax : req.tx.maxFeePerGas with
        | some fee => exact hfees.1 fee hmax
        | none =>
          cases hprice : req.tx.gasPrice with
          | some price => exact hfees.2 price hprice
          | none => norm_num
      exact Nat.div_le_div_right (Nat.le_pred_of_lt hfee)
    · obtain ⟨sender, -, hshift⟩ := Option.map_eq_some_iff.mp h
      cases hshift
    · obtain ⟨sender, -, hshift⟩ := Option.map_eq_some_iff.mp h
      cases hshift

/-- The values of an `i128`. -/
def IsI128 (i : Int) : Prop := -2 ^ 127 ≤ i ∧ i < 2 ^ 127

theorem addI128_eq_some {i j k : Int} : addI128 i j = some k ↔ IsI128 (i + j) ∧ i + j = k := by
  unfold addI128 IsI128
  split_ifs with h
  · simp only [Option.some.injEq, h, true_and]
  · simp only [h, false_and]

theorem asI128_of_isBump {bump : Nat} (h : IsBump bump) : asI128 bump = bump := by
  unfold IsBump at h
  unfold asI128
  rw [Int.bmod_eq_of_le] <;> omega

/-- Whatever order the bumps arrive in, the adder is raised by the largest one. -/
def RaisedByLargest (start : Int) (bumps : Multiset Nat) : Prop :=
  ∀ arrival : List Nat, (arrival : Multiset Nat) = bumps →
    gasAfterBumps start arrival = some (start + bumps.sup)

/-! ### One bump -/

section OneBump

variable {start adder : Int} {bump : Nat}

/-- A bump that the adder has reached is skipped. -/
theorem bumpGas_of_le (hstart : IsI128 start) (hbump : IsBump bump)
    (hfits : start + bump < 2 ^ 127) (hle : start + bump ≤ adder) :
    bumpGas start adder bump = some adder := by
  have hwanted : addI128 (asI128 bump) start = some (bump + start) := by
    rw [asI128_of_isBump hbump]
    refine addI128_eq_some.mpr ⟨⟨?_, ?_⟩, rfl⟩
    · have := hstart.1
      omega
    · omega
  unfold bumpGas
  rw [hwanted]
  change (if adder ≥ bump + start then some adder else _) = _
  rw [if_pos (by omega)]

/-- Any other bump is added to the adder. -/
theorem bumpGas_of_lt (hbump : IsBump bump) (hlt : adder < start + bump) {next : Int}
    (h : bumpGas start adder bump = some next) : start + bump < 2 ^ 127 ∧ next = adder + bump := by
  unfold bumpGas at h
  obtain ⟨wanted, hwanted, hrest⟩ := Option.bind_eq_some_iff.mp h
  rw [asI128_of_isBump hbump] at hwanted hrest
  obtain ⟨hfits, rfl⟩ := addI128_eq_some.mp hwanted
  rw [if_neg (by omega)] at hrest
  exact ⟨by have := hfits.2; omega, (addI128_eq_some.mp hrest).2.symm⟩

theorem bumpGas_start (hstart : IsI128 start) (hbump : IsBump bump)
    (hfits : start + bump < 2 ^ 127) : bumpGas start start bump = some (start + bump) := by
  by_cases hzero : bump = 0
  · subst hzero
    simpa using bumpGas_of_le hstart hbump hfits (by simp)
  · have hsum : addI128 start bump = some (start + bump) := by
      refine addI128_eq_some.mpr ⟨⟨?_, hfits⟩, rfl⟩
      have := hstart.1
      omega
    have hwanted : addI128 bump start = some (bump + start) := by
      rw [Int.add_comm] at hfits
      refine addI128_eq_some.mpr ⟨⟨?_, hfits⟩, rfl⟩
      have := hstart.1
      omega
    unfold bumpGas
    rw [asI128_of_isBump hbump, hwanted]
    change (if start ≥ bump + start then some start else addI128 start bump) = _
    rw [if_neg (by omega), hsum]

end OneBump

/-! ### All bumps of a batch -/

section Batch

variable {start adder : Int} {bumps : List Nat}

/-- Bumps that the adder has reached leave it as it is. -/
theorem foldlM_bumpGas_of_le (hstart : IsI128 start) (hbumps : ∀ b ∈ bumps, IsBump b)
    (hfits : ∀ b ∈ bumps, start + b < 2 ^ 127) (hle : ∀ b ∈ bumps, start + b ≤ adder) :
    bumps.foldlM (bumpGas start) adder = some adder := by
  induction bumps with
  | nil => rfl
  | cons b bumps ih =>
    obtain ⟨hb, hbumps⟩ := List.forall_mem_cons.mp hbumps
    obtain ⟨hfit, hfits⟩ := List.forall_mem_cons.mp hfits
    obtain ⟨hfirst, hle⟩ := List.forall_mem_cons.mp hle
    rw [List.foldlM_cons, bumpGas_of_le hstart hb hfit hfirst]
    exact ih hbumps hfits hle

/-- Without two different positive bumps, the first positive one is the only one
that counts. -/
theorem gasAfterBumps_of_equal (hstart : IsI128 start) (hbumps : ∀ b ∈ bumps, IsBump b)
    (hfits : ∀ b ∈ bumps, start + b < 2 ^ 127)
    (hequal : ∀ a ∈ bumps, ∀ b ∈ bumps, 0 < a → 0 < b → a = b) :
    gasAfterBumps start bumps = some (start + (bumps : Multiset Nat).sup) := by
  unfold gasAfterBumps
  induction bumps with
  | nil => simp
  | cons b bumps ih =>
    obtain ⟨hb, hrest⟩ := List.forall_mem_cons.mp hbumps
    obtain ⟨hfit, hfitsRest⟩ := List.forall_mem_cons.mp hfits
    have hequalRest : ∀ a ∈ bumps, ∀ b ∈ bumps, 0 < a → 0 < b → a = b := fun a ha c hc =>
      hequal a (List.mem_cons_of_mem _ ha) c (List.mem_cons_of_mem _ hc)
    rw [List.foldlM_cons, bumpGas_start hstart hb hfit, ← Multiset.cons_coe, Multiset.sup_cons]
    by_cases hzero : b = 0
    · subst hzero
      simpa using ih hrest hfitsRest hequalRest
    · have hle : ∀ a ∈ bumps, a ≤ b := by
        intro a ha
        rcases Nat.eq_zero_or_pos a with rfl | hpos
        · exact Nat.zero_le b
        · exact (hequal a (List.mem_cons_of_mem _ ha) b List.mem_cons_self hpos
            (Nat.pos_of_ne_zero hzero)).le
      have hsup : (bumps : Multiset Nat).sup ≤ b := Multiset.sup_le.mpr hle
      rw [max_eq_left hsup]
      exact foldlM_bumpGas_of_le hstart hrest hfitsRest fun a ha => by
        have := hle a ha
        omega

end Batch

/-- The largest bump of a batch that has one is among the bumps. -/
theorem sup_mem {bumps : Multiset Nat} (h : bumps ≠ 0) : bumps.sup ∈ bumps := by
  induction bumps using Multiset.induction_on with
  | empty => exact absurd rfl h
  | cons b bumps ih =>
    rw [Multiset.sup_cons]
    by_cases hempty : bumps = 0
    · simp [hempty]
    · rcases le_total bumps.sup b with hle | hle
      · rw [max_eq_left hle]
        exact Multiset.mem_cons_self b bumps
      · rw [max_eq_right hle]
        exact Multiset.mem_cons_of_mem (ih hempty)

/-- **Gas bumps.** The adder is raised by the largest bump in every order of
arrival exactly when no two positive bumps of the batch differ and the raised
adder is an `i128`. -/
theorem raisedByLargest_iff {start : Int} {bumps : Multiset Nat} (hstart : IsI128 start)
    (hbumps : ∀ b ∈ bumps, IsBump b) :
    RaisedByLargest start bumps ↔
      (∀ a ∈ bumps, ∀ b ∈ bumps, 0 < a → 0 < b → a = b) ∧ start + bumps.sup < 2 ^ 127 := by
  constructor
  · intro hraised
    by_cases hempty : bumps = 0
    · subst hempty
      exact ⟨by simp, by simpa using hstart.2⟩
    obtain ⟨rest, hrest⟩ := Multiset.exists_cons_of_mem (sup_mem hempty)
    -- a bump with nothing before it makes the adder fit
    have hfits : start + bumps.sup < 2 ^ 127 := by
      rcases Nat.eq_zero_or_pos bumps.sup with hzero | hpos
      · rw [hzero]
        simpa using hstart.2
      have harrival : ((bumps.sup :: rest.toList : List Nat) : Multiset Nat) = bumps := by
        rw [← Multiset.cons_coe, Multiset.coe_toList, ← hrest]
      have hrun := hraised _ harrival
      rw [gasAfterBumps, List.foldlM_cons] at hrun
      obtain ⟨next, hnext, -⟩ := Option.bind_eq_some_iff.mp hrun
      exact (bumpGas_of_lt (hbumps _ (sup_mem hempty)) (by omega) hnext).1
    have hlargest : ∀ a ∈ bumps, 0 < a → a = bumps.sup := by
      intro a ha hpos
      by_contra hne
      have hlt : a < bumps.sup := lt_of_le_of_ne (Multiset.le_sup ha) hne
      have harest : a ∈ rest := by
        rw [hrest] at ha
        exact (Multiset.mem_cons.mp ha).resolve_left hne
      obtain ⟨others, hothers⟩ := Multiset.exists_cons_of_mem harest
      have hle : ∀ b ∈ others, b ≤ bumps.sup := fun b hb =>
        Multiset.le_sup (by rw [hrest, hothers]; simp [hb])
      have hmem : ∀ b ∈ others, b ∈ bumps := fun b hb => by rw [hrest, hothers]; simp [hb]
      -- the smaller bump arrives first, then the largest one
      have harrival : ((a :: bumps.sup :: others.toList : List Nat) : Multiset Nat) = bumps := by
        rw [← Multiset.cons_coe, ← Multiset.cons_coe, Multiset.coe_toList, Multiset.cons_swap,
          ← hothers, ← hrest]
      have hrun := hraised _ harrival
      have hfit : start + a < 2 ^ 127 := by omega
      rw [gasAfterBumps, List.foldlM_cons, bumpGas_start hstart (hbumps a ha) hfit,
        Option.bind_eq_bind, Option.bind_some, List.foldlM_cons] at hrun
      obtain ⟨next, hnext, hrun⟩ := Option.bind_eq_some_iff.mp hrun
      have hbehind : start + a < start + bumps.sup := by omega
      obtain ⟨-, rfl⟩ := bumpGas_of_lt (hbumps _ (sup_mem hempty)) hbehind hnext
      rw [foldlM_bumpGas_of_le hstart (fun b hb => hbumps b (hmem b (Multiset.mem_toList.mp hb)))
        (fun b hb => by have := hle b (Multiset.mem_toList.mp hb); omega)
        (fun b hb => by have := hle b (Multiset.mem_toList.mp hb); omega)] at hrun
      have := Option.some.inj hrun
      omega
    refine ⟨fun a ha b hb hapos hbpos => ?_, hfits⟩
    rw [hlargest a ha hapos, hlargest b hb hbpos]
  · rintro ⟨hequal, hfits⟩ arrival rfl
    refine gasAfterBumps_of_equal hstart hbumps (fun b hb => ?_) hequal
    have hle : b ≤ (arrival : Multiset Nat).sup := Multiset.le_sup hb
    omega

/-- Three transactions with the same fee raise the adder once. -/
theorem raisedByLargest_of_sameFee : RaisedByLargest 7 {100, 100, 0} := by
  refine (raisedByLargest_iff ⟨by decide, by decide⟩ ?_).mpr ⟨?_, ?_⟩
  · unfold IsBump
    decide
  · decide
  · decide

/-- A bump of 5 before a bump of 10 raises the adder by 15. -/
theorem not_raisedByLargest_of_smallerFirst : ¬RaisedByLargest 0 {5, 10} := by
  intro h
  have hrun := h [5, 10] rfl
  exact absurd hrun (by decide)

end Contender
