import Contender.Campaign.Config
import Contender.Data.Traverse

/-!
# Defaults of a campaign

`validate` asks for a duration of the stage or of the campaign. `resolve` looks up the
duration and the rate of the campaign first and falls back on them where the stage has
none, so it fails when they are missing, also for a stage that has its own.
-/

namespace Contender

/-- The campaign leaves something out, or defines it twice. -/
def CampaignError.IsMissing : CampaignError → Prop
  | .spamRateMissing | .spamDurationMissing .. | .spamMixEmpty | .spamStageOrMixUndefined
  | .shorthandRequiresSpamDuration | .conflictingMixAndStage => True
  | .nameEmpty | .mixSharesSumInvalid _ | .stageMixEmpty .. | .rateDistributionExceedsLimit .. =>
    False

variable {F : Type} {cfg : CampaignConfig F} {spam : CampaignSpam F} {stage : CampaignStage F}
  {idx : Nat}

theorem normalizedStages_ne_nil {stages : List (CampaignStage F)}
    (h : spam.normalizedStages = .ok stages) : stages ≠ [] := by
  unfold CampaignSpam.normalizedStages at h
  split_ifs at h with hstage hmix
  · obtain rfl := Except.ok.inj h
    exact hstage
  · split at h
    · cases h
    · cases h
    · split at h
      · cases h
      · obtain rfl := Except.ok.inj h
        simp

theorem exists_normalizedStages (h : cfg.validate = .ok ()) :
    ∃ stages, cfg.spam.normalizedStages = .ok stages := by
  unfold CampaignConfig.validate at h
  split_ifs at h
  · cases h
  · obtain ⟨stages, hstages, -⟩ := Except.bind_eq_ok_iff.mp h
    exact ⟨stages, hstages⟩

theorem assignRates_eq_error {name : Text} {rate assigned : Nat}
    {entries : List (CampaignMixEntry F × Nat)} {e : CampaignError}
    (h : assignRates name rate assigned entries = .error e) : ¬e.IsMissing := by
  fun_induction assignRates name rate assigned entries with
  | case1 => cases h
  | case2 =>
    obtain rfl := Except.error.inj h
    exact id
  | case3 => cases h
  | case4 assigned entry scenarioRate rest _ ih =>
    cases hrest : assignRates name rate (satAddU64 assigned scenarioRate) rest with
    | error e' =>
      simp only [hrest, bind, Except.bind, Except.error.injEq] at h
      exact ih (hrest.trans (congrArg _ h))
    | ok resolved => simp [hrest, bind, Except.bind, pure, Except.pure] at h

section Resolve

variable [OfNat F 0] [Add F] [Mul F] [Div F] [LT F] [LE F] [DecidableLT F] [DecidableLE F]
  {arith : ShareArithmetic F}

/-! ### One stage -/

theorem resolveStage_of_duration_eq_none (h : spam.duration = none) :
    spam.resolveStage arith idx stage = .error (.spamDurationMissing idx stage.name) := by
  unfold CampaignSpam.resolveStage
  rw [h]
  rfl

theorem resolveStage_of_mixSum_le {d : UInt64} (hduration : spam.duration = some d)
    (h : mixSum stage.mix ≤ arith.epsilon) :
    spam.resolveStage arith idx stage = .error (.mixSharesSumInvalid stage.name) := by
  simp only [CampaignSpam.resolveStage, hduration, if_pos h]
  rfl

theorem resolveStage_of_rate_eq_none {d : UInt64} (hduration : spam.duration = some d)
    (h : ¬mixSum stage.mix ≤ arith.epsilon) (hrate : spam.rate = none) :
    spam.resolveStage arith idx stage = .error .spamRateMissing := by
  simp only [CampaignSpam.resolveStage, hduration, if_neg h, hrate]
  rfl

/-- A stage is resolved to its own values, or those of the campaign. -/
theorem resolveStage_eq {d r : UInt64} (hduration : spam.duration = some d)
    (h : ¬mixSum stage.mix ≤ arith.epsilon) (hrate : spam.rate = some r) :
    spam.resolveStage arith idx stage =
      (assignRates stage.name (stage.rate.getD r).toNat 0
        (stage.mix.zip (stage.rates arith (stage.rate.getD r).toNat))).map
          fun mix => ⟨stage.name, stage.rate.getD r, stage.duration.getD d, spam.stageTimeout,
            mix⟩ := by
  simp only [CampaignSpam.resolveStage, hduration, if_neg h, hrate]
  rfl

/-- What it takes to resolve a stage. -/
theorem resolveStage_eq_ok {resolved : ResolvedStage F}
    (h : spam.resolveStage arith idx stage = .ok resolved) :
    ∃ d r mix, spam.duration = some d ∧ ¬mixSum stage.mix ≤ arith.epsilon ∧ spam.rate = some r ∧
      assignRates stage.name (stage.rate.getD r).toNat 0
        (stage.mix.zip (stage.rates arith (stage.rate.getD r).toNat)) = .ok mix ∧
      resolved =
        ⟨stage.name, stage.rate.getD r, stage.duration.getD d, spam.stageTimeout, mix⟩ := by
  cases hduration : spam.duration with
  | none =>
    rw [resolveStage_of_duration_eq_none hduration] at h
    cases h
  | some d =>
    by_cases hsum : mixSum stage.mix ≤ arith.epsilon
    · rw [resolveStage_of_mixSum_le hduration hsum] at h
      cases h
    · cases hrate : spam.rate with
      | none =>
        rw [resolveStage_of_rate_eq_none hduration hsum hrate] at h
        cases h
      | some r =>
        rw [resolveStage_eq hduration hsum hrate, Except.map_eq_ok_iff] at h
        obtain ⟨mix, hmix, rfl⟩ := h
        exact ⟨d, r, mix, rfl, hsum, rfl, hmix, rfl⟩

/-- With both defaults, a stage does not fail for want of one. -/
theorem not_isMissing_of_resolveStage {d r : UInt64} (hduration : spam.duration = some d)
    (hrate : spam.rate = some r) {e : CampaignError}
    (h : spam.resolveStage arith idx stage = .error e) : ¬e.IsMissing := by
  by_cases hsum : mixSum stage.mix ≤ arith.epsilon
  · rw [resolveStage_of_mixSum_le hduration hsum] at h
    obtain rfl := Except.error.inj h
    exact id
  · rw [resolveStage_eq hduration hsum hrate] at h
    cases hmix : assignRates stage.name (stage.rate.getD r).toNat 0
        (stage.mix.zip (stage.rates arith (stage.rate.getD r).toNat)) with
    | error e' =>
      rw [hmix] at h
      obtain rfl : e' = e := Except.error.inj h
      exact assignRates_eq_error hmix
    | ok mix =>
      rw [hmix] at h
      cases h

/-! ### All stages -/

theorem resolve_eq {stages : List (CampaignStage F)} (h : cfg.spam.normalizedStages = .ok stages) :
    cfg.resolve arith =
      stages.zipIdx.mapM fun p => cfg.spam.resolveStage arith p.2 p.1 := by
  unfold CampaignConfig.resolve
  rw [h]
  rfl

/-- The stage is resolved with its own rate and duration where it has them, and with
those of the campaign otherwise. -/
def UsesDefaults (spam : CampaignSpam F) (stage : CampaignStage F) (resolved : ResolvedStage F) :
    Prop :=
  some resolved.rate = stage.rate.or spam.rate ∧
    some resolved.duration = stage.duration.or spam.duration

theorem usesDefaults_of_resolveStage {resolved : ResolvedStage F}
    (h : spam.resolveStage arith idx stage = .ok resolved) : UsesDefaults spam stage resolved := by
  obtain ⟨d, r, mix, hduration, -, hrate, -, rfl⟩ := resolveStage_eq_ok h
  unfold UsesDefaults
  rw [hduration, hrate]
  constructor
  · cases stage.rate <;> rfl
  · cases stage.duration <;> rfl

/-- Nothing is missing, and the defaults are used as they should be. -/
structure CampaignConfig.ResolvesDefaults (arith : ShareArithmetic F) (cfg : CampaignConfig F) :
    Prop where
  complete : ∀ e, cfg.resolve arith = .error e → ¬e.IsMissing
  defaults : ∀ stages resolved, cfg.spam.normalizedStages = .ok stages →
    cfg.resolve arith = .ok resolved → List.Forall₂ (UsesDefaults cfg.spam) stages resolved

/-- The shares of the first stage are too small to be told from zero. -/
def CampaignSpam.FirstSharesVanish (arith : ShareArithmetic F) (spam : CampaignSpam F) : Prop :=
  ∃ stages, spam.normalizedStages = .ok stages ∧
    ∃ stage ∈ stages.head?, mixSum stage.mix ≤ arith.epsilon

/-- A campaign that is accepted is resolved as it should be exactly when its own rate and
duration are given, whatever the stages give. Only a first stage whose shares vanish is
rejected before the rate is looked up. -/
theorem resolvesDefaults_iff (hvalid : cfg.validate = .ok ()) :
    cfg.ResolvesDefaults arith ↔
      cfg.spam.duration.isSome ∧ (cfg.spam.rate.isSome ∨ cfg.spam.FirstSharesVanish arith) := by
  obtain ⟨stages, hstages⟩ := exists_normalizedStages hvalid
  obtain ⟨stage, rest, hcons⟩ := List.exists_cons_of_ne_nil (normalizedStages_ne_nil hstages)
  have hresolve : cfg.resolve arith = _ := resolve_eq hstages
  rw [hcons, List.zipIdx_cons] at hresolve
  -- an error of the first stage is the error of the campaign
  have hfirst : ∀ e, cfg.spam.resolveStage arith 0 stage = .error e →
      cfg.resolve arith = .error e := by
    intro e he
    rw [hresolve]
    exact List.mapM_cons_of_eq_error (x := (stage, 0)) he _
  cases hduration : cfg.spam.duration with
  | none =>
    have herror := hfirst _ (resolveStage_of_duration_eq_none hduration)
    simp only [Option.isSome_none, Bool.false_eq_true, false_and, iff_false]
    exact fun h => h.complete _ herror trivial
  | some d =>
    cases hrate : cfg.spam.rate with
    | none =>
      simp only [Option.isSome_none, Option.isSome_some, Bool.false_eq_true, false_or, true_and]
      constructor
      · intro h
        refine ⟨stages, hstages, stage, by simp [hcons], ?_⟩
        by_contra hsum
        exact h.complete _ (hfirst _ (resolveStage_of_rate_eq_none hduration hsum hrate)) trivial
      · rintro ⟨stages', hstages', stage', hhead, hsum⟩
        obtain rfl := Except.ok.inj (hstages.symm.trans hstages')
        obtain rfl : stage = stage' := by simpa [hcons] using hhead
        have herror := hfirst _ (resolveStage_of_mixSum_le hduration hsum)
        refine ⟨fun e he => ?_, fun _ resolved _ hok => ?_⟩
        · obtain rfl := Except.error.inj (herror.symm.trans he)
          exact id
        · cases herror.symm.trans hok
    | some r =>
      simp only [Option.isSome_some, true_or, and_true, iff_true]
      refine ⟨fun e he => ?_, fun stages' resolved hstages' hok => ?_⟩
      · rw [resolve_eq hstages] at he
        obtain ⟨p, -, hp⟩ := List.exists_of_mapM_eq_error he
        exact not_isMissing_of_resolveStage hduration hrate hp
      · obtain rfl := Except.ok.inj (hstages.symm.trans hstages')
        rw [resolve_eq hstages, List.mapM_eq_ok_iff] at hok
        have huses := hok.imp fun p resolved hp => usesDefaults_of_resolveStage hp
        rwa [← List.forall₂_map_left_iff (f := Prod.fst), List.zipIdx_map_fst] at huses

end Resolve

/-! ### A campaign whose stage needs no defaults -/

namespace OwnDefaults

/-- One stage with its own duration and rate; the campaign may have defaults. -/
def campaign (default : Option UInt64) : CampaignConfig ℚ where
  name := "a".toList
  spam :=
    { rate := default, duration := default, stageTimeout := none, mix := none,
      stage := [⟨"b".toList, some 10, some 5, [⟨"c".toList, 100⟩]⟩] }

theorem resolvesDefaults_of_defaults :
    (campaign (some 3)).validate = .ok () ∧
      (campaign (some 3)).ResolvesDefaults ShareArithmetic.exact :=
  ⟨by decide +kernel,
    (resolvesDefaults_iff (by decide +kernel)).mpr ⟨rfl, Or.inl rfl⟩⟩

/-- The stage has all it needs, and yet its duration is said to be missing. -/
theorem not_resolvesDefaults :
    (campaign none).validate = .ok () ∧
      (∀ stages, (campaign none).spam.normalizedStages = .ok stages →
        ∀ stage ∈ stages, stage.rate.isSome ∧ stage.duration.isSome ∧ 0 < mixSum stage.mix ∧
          ∀ entry ∈ stage.mix, 0 ≤ entry.sharePct) ∧
      ¬(campaign none).ResolvesDefaults ShareArithmetic.exact := by
  refine ⟨by decide +kernel, fun stages hstages => ?_, fun h => ?_⟩
  · obtain rfl := Except.ok.inj hstages
    decide +kernel
  · have herror : (campaign none).resolve ShareArithmetic.exact =
        .error (.spamDurationMissing 0 "b".toList) := by decide +kernel
    exact h.complete _ herror trivial

end OwnDefaults

end Contender
