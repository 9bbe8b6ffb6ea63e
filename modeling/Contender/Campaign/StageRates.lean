import Contender.Campaign.RunCampaign
import Contender.Cli.UniV2

/-!
# Checking the rates of a campaign

Before a campaign starts, each scenario file of its stages must have spam entries, and the rate
and the duration of the stage must cover them. The number of transactions is a checked product,
and the message about a rate that is too low divides by the duration.

## Main results

* `validateStageRates_iff` — the check is right exactly when no mix entry with spam entries and
  a product of 2⁶⁴ or more, or a duration of zero, is reached before it rejects
-/

namespace Contender

/-- How `validate_stage_rates` fails. `panic` is an overflow or a division by zero. -/
inductive StageRateError
  | invalidArgs (text : Text)
  | panic
  deriving DecidableEq, Repr

/-- `u64::div_ceil`; dividing by zero panics. -/
def divCeilU64 (m n : ℕ) : Option ℕ := if n = 0 then none else some ((m + n - 1) / n)

variable {F : Type} (loadTestconfig : Text → TestConfig)

/-- `spam_len`. -/
def ResolvedMixEntry.spamLen (mix : ResolvedMixEntry F) : ℕ :=
  ((loadTestconfig mix.scenario).spam.map List.length).getD 0

def noSpamEntries (stage : ResolvedStage F) (mix : ResolvedMixEntry F) : Text :=
  "Stage '".toList ++ stage.name ++ "' scenario '".toList ++ mix.scenario ++
    "' has no spam entries defined.".toList

def insufficientTransactions (stage : ResolvedStage F) (mix : ResolvedMixEntry F)
    (totalTxs spamLen minimum : ℕ) : Text :=
  "Stage '".toList ++ stage.name ++ "' scenario '".toList ++ mix.scenario ++
    "': insufficient transactions (rate ".toList ++ mix.rate.decimal ++ " * duration ".toList ++
    stage.duration.toNat.decimal ++ " = ".toList ++ totalTxs.decimal ++ ") to cover ".toList ++
    spamLen.decimal ++ " spam entries. Minimum rate needed: ".toList ++ minimum.decimal

/-- The body of the two loops. -/
def validateMix (stage : ResolvedStage F) (mix : ResolvedMixEntry F) :
    Except StageRateError Unit :=
  if mix.rate = 0 then .ok ()
  else if (parseBuiltinReference mix.scenario).isSome then .ok ()
  else
    let spamLen := mix.spamLen loadTestconfig
    if spamLen = 0 then .error (.invalidArgs (noSpamEntries stage mix))
    else
      match mulU64 mix.rate stage.duration.toNat with
      | none => .error .panic
      | some totalTxs =>
        if totalTxs < spamLen then
          match divCeilU64 spamLen stage.duration.toNat with
          | none => .error .panic
          | some minimum =>
            .error (.invalidArgs (insufficientTransactions stage mix totalTxs spamLen minimum))
        else .ok ()

/-- `validate_stage_rates`, where every scenario file loads. -/
def validateStageRates (stages : List (ResolvedStage F)) : Except StageRateError Unit :=
  stages.forM fun stage => stage.mix.forM fun mix => validateMix loadTestconfig stage mix

/-! ### What the check is for -/

/-- A mix entry that spams a scenario file. -/
def ResolvedMixEntry.SpamsFile (mix : ResolvedMixEntry F) : Prop :=
  mix.rate ≠ 0 ∧ parseBuiltinReference mix.scenario = none

/-- The spam entries are missing, or the transactions of the stage do not cover them. -/
structure Insufficient (stage : ResolvedStage F) (mix : ResolvedMixEntry F) : Prop where
  spamsFile : mix.SpamsFile
  uncovered : mix.spamLen loadTestconfig = 0 ∨
    mix.rate * stage.duration.toNat < mix.spamLen loadTestconfig

/-- The check fails exactly on insufficient stages, and with an error. -/
def ChecksRates (stages : List (ResolvedStage F)) : Prop :=
  ((∃ text, validateStageRates loadTestconfig stages = .error (.invalidArgs text)) ↔
    ∃ stage ∈ stages, ∃ mix ∈ stage.mix, Insufficient loadTestconfig stage mix) ∧
  validateStageRates loadTestconfig stages ≠ .error .panic

/-- The stages with their mix entries, in the order of the check. -/
def ratedMixes (stages : List (ResolvedStage F)) : List (ResolvedStage F × ResolvedMixEntry F) :=
  stages.flatMap fun stage => stage.mix.map fun mix => (stage, mix)

/-- The arithmetic of the check has no answer: the product does not fit, or the duration is
zero. -/
structure Unchecked (p : ResolvedStage F × ResolvedMixEntry F) : Prop where
  spamsFile : p.2.SpamsFile
  spam : p.2.spamLen loadTestconfig ≠ 0
  extreme : p.1.duration = 0 ∨ 2 ^ 64 ≤ p.2.rate * p.1.duration.toNat

variable {loadTestconfig}

theorem mem_ratedMixes {stages : List (ResolvedStage F)}
    {p : ResolvedStage F × ResolvedMixEntry F} :
    p ∈ ratedMixes stages ↔ p.1 ∈ stages ∧ p.2 ∈ p.1.mix := by
  simp only [ratedMixes, List.mem_flatMap, List.mem_map]
  constructor
  · rintro ⟨stage, hstage, mix, hmix, rfl⟩
    exact ⟨hstage, hmix⟩
  · exact fun h => ⟨p.1, h.1, p.2, h.2, rfl⟩

theorem validateStageRates_eq (stages : List (ResolvedStage F)) :
    validateStageRates loadTestconfig stages =
      (ratedMixes stages).forM fun p => validateMix loadTestconfig p.1 p.2 :=
  List.forM_forM_eq_forM_flatMap
    (fun p : ResolvedStage F × ResolvedMixEntry F => validateMix loadTestconfig p.1 p.2)
    ResolvedStage.mix Prod.mk stages

variable {stage : ResolvedStage F} {mix : ResolvedMixEntry F}

/-- What the body of the loops does with a mix entry. -/
theorem validateMix_cases (loadTestconfig : Text → TestConfig) (stage : ResolvedStage F)
    (mix : ResolvedMixEntry F) :
    (validateMix loadTestconfig stage mix = .ok () ∧ ¬ Insufficient loadTestconfig stage mix ∧
        ¬ Unchecked loadTestconfig (stage, mix)) ∨
      ((∃ text, validateMix loadTestconfig stage mix = .error (.invalidArgs text)) ∧
        Insufficient loadTestconfig stage mix ∧ ¬ Unchecked loadTestconfig (stage, mix)) ∨
      (validateMix loadTestconfig stage mix = .error .panic ∧
        Unchecked loadTestconfig (stage, mix)) := by
  by_cases hfile : mix.SpamsFile
  swap
  · refine .inl ⟨?_, fun h => hfile h.spamsFile, fun h => hfile h.spamsFile⟩
    unfold validateMix
    split_ifs with hrate hbuiltin <;> try rfl
    all_goals exact (hfile ⟨hrate, Option.not_isSome_iff_eq_none.mp hbuiltin⟩).elim
  have hrate : mix.rate ≠ 0 := hfile.1
  have hbuiltin : (parseBuiltinReference mix.scenario).isSome = false := by rw [hfile.2]; rfl
  by_cases hspam : mix.spamLen loadTestconfig = 0
  · refine .inr (.inl ⟨⟨noSpamEntries stage mix, ?_⟩, ⟨hfile, .inl hspam⟩, fun h => h.spam hspam⟩)
    simp [validateMix, hrate, hbuiltin, hspam]
  by_cases hfits : mix.rate * stage.duration.toNat < 2 ^ 64
  swap
  · refine .inr (.inr ⟨?_, hfile, hspam, .inr (not_lt.mp hfits)⟩)
    have hmul : mulU64 mix.rate stage.duration.toNat = none := if_neg hfits
    simp [validateMix, hrate, hbuiltin, hspam, hmul]
  have hmul : mulU64 mix.rate stage.duration.toNat = some (mix.rate * stage.duration.toNat) :=
    if_pos hfits
  by_cases hzero : stage.duration = 0
  · refine .inr (.inr ⟨?_, hfile, hspam, .inl hzero⟩)
    have hpos : 0 < mix.spamLen loadTestconfig := Nat.pos_of_ne_zero hspam
    simp [validateMix, hrate, hbuiltin, hspam, hzero, mulU64, toU64, hpos, divCeilU64]
  obtain ⟨minimum, hdiv⟩ : ∃ minimum,
      divCeilU64 (mix.spamLen loadTestconfig) stage.duration.toNat = some minimum :=
    ⟨_, if_neg fun h => hzero (UInt64.toNat_inj.mp h)⟩
  have hchecked : ¬ Unchecked loadTestconfig (stage, mix) := by
    rintro ⟨-, -, h | h⟩
    · exact hzero h
    · exact absurd hfits (not_lt.mpr h)
  by_cases hlow : mix.rate * stage.duration.toNat < mix.spamLen loadTestconfig
  · refine .inr (.inl ⟨⟨insufficientTransactions stage mix (mix.rate * stage.duration.toNat)
      (mix.spamLen loadTestconfig) minimum, ?_⟩, ⟨hfile, .inr hlow⟩, hchecked⟩)
    simp only [validateMix, hrate, hbuiltin, hspam, hmul, hlow, hdiv, if_true, if_false,
      Bool.false_eq_true]
  · refine .inl ⟨?_, fun h => ?_, hchecked⟩
    · simp [validateMix, hrate, hbuiltin, hspam, hmul, hlow]
    · rcases h.uncovered with h | h
      · exact hspam h
      · exact hlow h

/-- A mix entry that passes is covered by its stage. -/
theorem checked_of_validateMix (h : validateMix loadTestconfig stage mix = .ok ()) :
    ¬ Insufficient loadTestconfig stage mix ∧ ¬ Unchecked loadTestconfig (stage, mix) := by
  rcases validateMix_cases loadTestconfig stage mix with ⟨-, hchecked⟩ | ⟨⟨text, he⟩, -⟩ | ⟨he, -⟩
  · exact hchecked
  · cases h.symm.trans he
  · cases h.symm.trans he

theorem exists_insufficient_iff {stages : List (ResolvedStage F)} :
    (∃ stage ∈ stages, ∃ mix ∈ stage.mix, Insufficient loadTestconfig stage mix) ↔
      ∃ p ∈ ratedMixes stages, Insufficient loadTestconfig p.1 p.2 := by
  constructor
  · rintro ⟨stage, hstage, mix, hmix, h⟩
    exact ⟨(stage, mix), mem_ratedMixes.mpr ⟨hstage, hmix⟩, h⟩
  · rintro ⟨p, hp, h⟩
    exact ⟨p.1, (mem_ratedMixes.mp hp).1, p.2, (mem_ratedMixes.mp hp).2, h⟩

/-- The check is right exactly when, before each mix entry whose arithmetic has no answer, another
one has been rejected. -/
theorem validateStageRates_iff (loadTestconfig : Text → TestConfig)
    (stages : List (ResolvedStage F)) :
    ChecksRates loadTestconfig stages ↔
      ∀ before p after, ratedMixes stages = before ++ p :: after → Unchecked loadTestconfig p →
        ∃ q ∈ before, Insufficient loadTestconfig q.1 q.2 ∧ ¬ Unchecked loadTestconfig q := by
  rw [ChecksRates, exists_insufficient_iff, validateStageRates_eq]
  rcases List.forM_cases (fun p => validateMix loadTestconfig p.1 p.2) (ratedMixes stages) with
    ⟨hrun, hall⟩ | ⟨before, p, after, e, hsplit, hbefore, hp, hrun⟩
  · -- Every entry passes.
    have hpass (q) (hq : q ∈ ratedMixes stages) : ¬ Insufficient loadTestconfig q.1 q.2 ∧
        ¬ Unchecked loadTestconfig q := checked_of_validateMix (hall q hq)
    rw [hrun]
    refine iff_of_true ⟨iff_of_false (by simp) ?_, by simp⟩ ?_
    · rintro ⟨q, hq, hlow⟩
      exact (hpass q hq).1 hlow
    · intro l q r hsplit hq
      exact ((hpass q (hsplit ▸ List.mem_append_cons_self)).2 hq).elim
  · have hpass (q) (hq : q ∈ before) : ¬ Insufficient loadTestconfig q.1 q.2 ∧
        ¬ Unchecked loadTestconfig q := checked_of_validateMix (hbefore q hq)
    have hmem : p ∈ ratedMixes stages := hsplit ▸ List.mem_append_cons_self
    rw [hrun]
    rcases validateMix_cases loadTestconfig p.1 p.2 with
      ⟨h, -⟩ | ⟨⟨text, h⟩, hlow, hchecked⟩ | ⟨h, hextreme⟩
    · cases h.symm.trans hp
    · -- The first entry that does not pass is rejected.
      obtain rfl := Except.error.inj (h.symm.trans hp)
      refine iff_of_true ⟨iff_of_true ⟨text, rfl⟩ ⟨p, hmem, hlow⟩, by simp⟩ ?_
      intro l q r hsplit' hq
      rcases List.append_eq_append_iff.mp (hsplit.symm.trans hsplit') with
        ⟨m, rfl, hm⟩ | ⟨m, rfl, hm⟩
      · cases m with
        | nil =>
          obtain rfl : p = q := (List.cons.inj hm).1
          exact (hchecked hq).elim
        | cons c m =>
          obtain rfl : p = c := (List.cons.inj hm).1
          exact ⟨p, by simp, hlow, hchecked⟩
      · cases m with
        | nil =>
          obtain rfl : q = p := (List.cons.inj hm).1
          exact (hchecked hq).elim
        | cons c m =>
          obtain rfl : q = c := (List.cons.inj hm).1
          exact ((hpass q (by simp)).2 hq).elim
    · -- The first entry that does not pass has no answer.
      obtain rfl := Except.error.inj (h.symm.trans hp)
      refine iff_of_false (fun h => h.2 rfl) fun hall => ?_
      obtain ⟨q, hq, hlow, -⟩ := hall before p after hsplit hextreme
      exact (hpass q hq).1 hlow

/-- A stage of no duration whose scenario file has a spam entry: the check divides by zero. -/
theorem validateStageRates_counterexample :
    ¬ ChecksRates (F := ℚ) (fun _ => { spam := some [.bundle []] })
      [⟨"steady".toList, 1, 0, none, [⟨"file.toml".toList, 1, 1⟩]⟩] := by
  rintro ⟨-, hpanic⟩
  exact hpanic (by decide +kernel)

end Contender
