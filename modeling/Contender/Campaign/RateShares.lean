import Contender.Campaign.Resolution

/-!
# Distributing the rate of a stage

The rate of a stage is distributed in three passes: each entry of the mix gets its quota,
rounded; entries with a share that got nothing get one unit, taken from the largest entry
other than the last; and the last entry gets what is left. Rounding may give out more than
there is, which the last entry cannot make up for; and the units for small shares come
from all entries but the last, which may have none to spare.

## Main results

* `distributes_iff` — when the rates of every stage add up to the rate of the stage
* `supplies_iff` — when every entry with a share gets a unit
-/

namespace Contender

variable {F : Type}

/-! ### The last entry -/

theorem getD_dropLast {l : List Nat} {i : Nat} (h : i < l.length - 1) :
    l.dropLast.getD i 0 = l.getD i 0 := by
  rw [List.getD_eq_getElem?_getD, List.getElem?_dropLast, if_pos h, List.getD_eq_getElem?_getD]

theorem sum_dropLast_add {l : List Nat} (h : l ≠ []) :
    l.dropLast.sum + l.getD (l.length - 1) 0 = l.sum := by
  have hlast : l.getD (l.length - 1) 0 = l.getLast h := by
    rw [List.getD_eq_getElem?_getD, ← List.getLast?_eq_getElem?, List.getLast?_eq_some_getLast h,
      Option.getD_some]
  conv_rhs => rw [← List.dropLast_append_getLast h]
  rw [hlast, List.sum_append, List.sum_singleton]

/-! ### The second pass -/

section Raising

variable [OfNat F 0] [LT F] [DecidableLT F] {mix : List (CampaignMixEntry F)}
  {quotas : List Nat} {rate : Nat}

/-- The entries that have a share. -/
def positives (mix : List (CampaignMixEntry F)) : Nat := mix.countP fun entry => 0 < entry.sharePct

/-- The last entry has a share, and its quota is zero. -/
def LastVanishes (mix : List (CampaignMixEntry F)) (quotas : List Nat) : Prop :=
  (∃ entry ∈ mix.getLast?, 0 < entry.sharePct) ∧ quotas.getD (mix.length - 1) 0 = 0

/-- Every entry with a share, the last one aside, has a rate. -/
def FrontRaised (mix : List (CampaignMixEntry F)) (rates : List Nat) : Prop :=
  ∀ i entry, mix.dropLast[i]? = some entry → 0 < entry.sharePct → 0 < rates.getD i 0

theorem mem_zeroIndices {i : Nat} :
    i ∈ zeroIndices mix quotas ↔
      (∃ entry, mix[i]? = some entry ∧ 0 < entry.sharePct) ∧ quotas.getD i 0 = 0 := by
  unfold zeroIndices
  rw [List.mem_filter, List.mem_range, Bool.and_eq_true, decide_eq_true_eq]
  constructor
  · rintro ⟨hlt, hany, hzero⟩
    rw [List.getElem?_eq_getElem hlt] at hany
    exact ⟨⟨_, List.getElem?_eq_getElem hlt, of_decide_eq_true hany⟩, hzero⟩
  · rintro ⟨⟨entry, hentry, hshare⟩, hzero⟩
    refine ⟨(List.getElem?_eq_some_iff.mp hentry).1, ?_, hzero⟩
    simpa [hentry] using hshare

theorem lastVanishes_iff :
    LastVanishes mix quotas ↔ mix.length - 1 ∈ zeroIndices mix quotas := by
  rw [mem_zeroIndices, LastVanishes, List.getLast?_eq_getElem?]
  rfl

theorem sorted_zeroIndices : (zeroIndices mix quotas).Pairwise (· < ·) :=
  List.pairwise_lt_range.filter _

/-- Entries that all have a rate count for one each. -/
theorem le_sum_of_frontRaised {rates : List Nat} (hlength : rates.length = mix.length)
    (h : FrontRaised mix rates) : positives mix.dropLast ≤ rates.dropLast.sum := by
  refine List.countP_le_sum (by simp [hlength]) fun i entry hentry hshare => ?_
  have hlt := (List.getElem?_eq_some_iff.mp hentry).1
  rw [getD_dropLast (by rw [hlength]; simpa using hlt)]
  exact h i entry hentry (of_decide_eq_true hshare)

section Leveled

variable {rates : List Nat}
  (hrates : List.Leveled (mix.length - 1) (zeroIndices mix quotas) quotas rates)

include hrates

/-- What the last entry has gained is what the others have lost. -/
theorem sum_dropLast_of_leveled (hne : mix ≠ []) (hlength : quotas.length = mix.length) :
    rates.dropLast.sum + rates.getD (mix.length - 1) 0 =
      quotas.dropLast.sum + quotas.getD (mix.length - 1) 0 := by
  have hpos : 0 < mix.length := List.length_pos_iff.mpr hne
  have hrlength : rates.length = mix.length := hrates.length.trans hlength
  have h := sum_dropLast_add (l := rates) (by rw [← List.length_pos_iff]; omega)
  have h' := sum_dropLast_add (l := quotas) (by rw [← List.length_pos_iff]; omega)
  rw [hrlength] at h
  rw [hlength] at h'
  rw [h, h', hrates.sum]

theorem frontRaised_of_forall_mem
    (hdone : ∀ i ∈ zeroIndices mix quotas, 0 < rates.getD i 0) : FrontRaised mix rates := by
  intro i entry hentry hshare
  have hentry' : mix[i]? = some entry := by
    rw [List.getElem?_dropLast] at hentry
    split_ifs at hentry
    exact hentry
  by_cases hzero : quotas.getD i 0 = 0
  · exact hdone i (mem_zeroIndices.mpr ⟨⟨entry, hentry', hshare⟩, hzero⟩)
  · exact hrates.kept i (Nat.pos_of_ne_zero hzero)

/-- Entries that have nothing left to give have one unit at most, and none without a share. -/
theorem getD_dropLast_le (hlength : quotas.length = mix.length)
    (hnone : ∀ i entry, mix[i]? = some entry → ¬0 < entry.sharePct → quotas.getD i 0 = 0)
    (hstuck : ∀ k < mix.length - 1, rates.getD k 0 ≤ 1) {i : Nat} {entry : CampaignMixEntry F}
    (hentry : mix.dropLast[i]? = some entry) :
    rates.dropLast.getD i 0 ≤ if decide (0 < entry.sharePct) then 1 else 0 := by
  have hrlength : rates.length = mix.length := hrates.length.trans hlength
  have hlt := (List.getElem?_eq_some_iff.mp hentry).1
  rw [List.length_dropLast] at hlt
  rw [getD_dropLast (by omega)]
  rw [List.getElem?_dropLast, if_pos hlt] at hentry
  split_ifs with hshare
  · exact hstuck i hlt
  · rw [decide_eq_true_eq] at hshare
    refine (hrates.untouched i (fun hmem => ?_) (hnone i entry hentry hshare)).le
    obtain ⟨⟨entry', hentry', hshare'⟩, -⟩ := mem_zeroIndices.mp hmem
    obtain rfl : entry = entry' := Option.some.inj (hentry.symm.trans hentry')
    exact hshare hshare'

end Leveled

/-- The positions are raised in order, so that the last one is among those that are not. -/
theorem last_mem_of_pending {done pending : List Nat}
    (heq : zeroIndices mix quotas = done ++ pending) (hnil : pending ≠ [])
    (h : LastVanishes mix quotas) : mix.length - 1 ∈ pending := by
  have hmem := lastVanishes_iff.mp h
  rw [heq] at hmem
  refine (List.mem_append.mp hmem).resolve_left fun hdone => ?_
  obtain ⟨j, hj⟩ := List.exists_mem_of_ne_nil pending hnil
  have hlt := (List.pairwise_append.mp (heq ▸ sorted_zeroIndices)).2.2 _ hdone _ hj
  obtain ⟨⟨entry, hentry, -⟩, -⟩ := mem_zeroIndices.mp
    (heq ▸ List.mem_append_right done hj : j ∈ zeroIndices mix quotas)
  have := (List.getElem?_eq_some_iff.mp hentry).1
  omega

/-- How the second pass ends. Either every entry with a share has a rate, and all but the
last have given it a unit if it needed one; or the entries but the last are used up, and
have kept what they had. -/
theorem raiseAll_outcome (hne : mix ≠ []) (hlength : quotas.length = mix.length)
    (hnone : ∀ i entry, mix[i]? = some entry → ¬0 < entry.sharePct → quotas.getD i 0 = 0)
    {rates : List Nat}
    (hrates : List.Leveled (mix.length - 1) (zeroIndices mix quotas) quotas rates) :
    (FrontRaised mix rates ∧
        (LastVanishes mix quotas → rates.dropLast.sum + 1 = quotas.dropLast.sum) ∧
        (¬LastVanishes mix quotas → rates.dropLast.sum = quotas.dropLast.sum)) ∨
      (rates.dropLast.sum = quotas.dropLast.sum ∧
        quotas.dropLast.sum ≤ positives mix.dropLast ∧
        (¬FrontRaised mix rates → quotas.dropLast.sum < positives mix.dropLast)) := by
  have hrlength : rates.length = mix.length := hrates.length.trans hlength
  have hsum := sum_dropLast_of_leveled hrates hne hlength
  have hlast : ¬LastVanishes mix quotas → rates.dropLast.sum = quotas.dropLast.sum := by
    intro h
    rw [lastVanishes_iff] at h
    have := hrates.beyond _ le_rfl h
    omega
  obtain ⟨done, pending, heq, hdone, hbeyond, hpending, hstuck⟩ := hrates.raised
  by_cases hnil : pending = []
  · subst hnil
    rw [List.append_nil] at heq
    rw [← heq] at hdone hbeyond
    refine Or.inl ⟨frontRaised_of_forall_mem hrates hdone, fun h => ?_, hlast⟩
    have hone := hbeyond _ (lastVanishes_iff.mp h) le_rfl
    have hzero := h.2
    omega
  · have hkept : rates.dropLast.sum = quotas.dropLast.sum := by
      by_cases h : LastVanishes mix quotas
      · have hzero := h.2
        have hlastzero := hpending _ (last_mem_of_pending heq hnil h)
        omega
      · exact hlast h
    have hbound : ∀ i entry, mix.dropLast[i]? = some entry →
        rates.dropLast.getD i 0 ≤ if decide (0 < entry.sharePct) then 1 else 0 :=
      fun _ _ hentry => getD_dropLast_le hrates hlength hnone (hstuck hnil) hentry
    have hdlength : mix.dropLast.length = rates.dropLast.length := by simp [hrlength]
    refine Or.inr ⟨hkept, hkept ▸ List.sum_le_countP hdlength hbound, fun h => ?_⟩
    unfold FrontRaised at h
    push Not at h
    obtain ⟨i, entry, hentry, hshare, hzero⟩ := h
    have hlt := (List.getElem?_eq_some_iff.mp hentry).1
    rw [List.length_dropLast] at hlt
    rw [← hkept]
    exact List.sum_lt_countP hdlength hbound hentry (decide_eq_true hshare)
      (by rw [getD_dropLast (by omega)]; omega)

end Raising

/-! ### The third pass -/

/-- The entry with its rate. -/
def CampaignMixEntry.resolved (entry : CampaignMixEntry F) (rate : Nat) : ResolvedMixEntry F :=
  ⟨entry.scenario, entry.sharePct, rate⟩

theorem assignRates_append {name : Text} {rate assigned : Nat} (hassigned : assigned < 2 ^ 64)
    (front : List (CampaignMixEntry F × Nat)) (entry : CampaignMixEntry F) (expected : Nat) :
    assignRates name rate assigned (front ++ [(entry, expected)]) =
      if rate < min (assigned + (front.map Prod.snd).sum) (2 ^ 64 - 1) then
        .error (.rateDistributionExceedsLimit name
          (min (assigned + (front.map Prod.snd).sum) (2 ^ 64 - 1)) rate)
      else .ok (front.map (fun p => p.1.resolved p.2) ++
        [entry.resolved (rate - min (assigned + (front.map Prod.snd).sum) (2 ^ 64 - 1))]) := by
  induction front generalizing assigned with
  | nil =>
    have hmin : min assigned (2 ^ 64 - 1) = assigned := by omega
    simp only [List.nil_append, assignRates, List.map_nil, List.sum_nil, Nat.add_zero, hmin]
    rfl
  | cons p front ih =>
    have hsat : satAddU64 assigned p.2 < 2 ^ 64 := by
      unfold satAddU64
      omega
    have htotal : min (satAddU64 assigned p.2 + (front.map Prod.snd).sum) (2 ^ 64 - 1) =
        min (assigned + ((p :: front).map Prod.snd).sum) (2 ^ 64 - 1) := by
      rw [List.map_cons, List.sum_cons]
      unfold satAddU64
      omega
    have hcons : assignRates name rate assigned (p :: front ++ [(entry, expected)]) =
        (assignRates name rate (satAddU64 assigned p.2) (front ++ [(entry, expected)])).map
          (p.1.resolved p.2 :: ·) := by
      obtain ⟨q, rest, hrest⟩ := List.exists_cons_of_ne_nil
        (List.append_ne_nil_of_right_ne_nil front (List.cons_ne_nil (entry, expected) []))
      rw [List.cons_append, hrest]
      rfl
    rw [hcons, ih hsat, htotal]
    split_ifs <;> rfl

/-- The third pass on a mix and its rates. -/
theorem assignRates_zip {name : Text} {rate : Nat} {mix : List (CampaignMixEntry F)}
    {rates : List Nat} (hlength : rates.length = mix.length) {last : CampaignMixEntry F}
    (hlast : mix.getLast? = some last) :
    assignRates name rate 0 (mix.zip rates) =
      if rate < min rates.dropLast.sum (2 ^ 64 - 1) then
        .error (.rateDistributionExceedsLimit name (min rates.dropLast.sum (2 ^ 64 - 1)) rate)
      else .ok ((mix.dropLast.zip rates.dropLast).map (fun p => p.1.resolved p.2) ++
        [last.resolved (rate - min rates.dropLast.sum (2 ^ 64 - 1))]) := by
  have hne : mix ≠ [] := by
    rintro rfl
    cases hlast
  have hrne : rates ≠ [] := by
    rw [← List.length_pos_iff, hlength]
    exact List.length_pos_iff.mpr hne
  have hdlength : mix.dropLast.length = rates.dropLast.length := by simp [hlength]
  have hzip : mix.zip rates =
      mix.dropLast.zip rates.dropLast ++ [(last, rates.getLast hrne)] := by
    obtain rfl : mix.getLast hne = last := by
      rw [List.getLast?_eq_some_getLast hne] at hlast
      exact Option.some.inj hlast
    conv_lhs =>
      rw [← List.dropLast_append_getLast hne, ← List.dropLast_append_getLast hrne,
        List.zip_append hdlength]
    rfl
  rw [hzip, assignRates_append (by omega), List.map_snd_zip hdlength.ge, Nat.zero_add]

/-! ### Exact shares -/

theorem roundHalfAway_nonpos {q : ℚ} (h : q ≤ 0) : roundHalfAway q ≤ 0 := by
  unfold roundHalfAway
  split_ifs with hnonneg
  · obtain rfl : q = 0 := le_antisymm h hnonneg
    norm_num
  · have : 0 ≤ ⌊-q + 1 / 2⌋ := Int.floor_nonneg.mpr (by linarith)
    omega

/-- Without a share there is no quota. -/
theorem quota_eq_zero {rate : Nat} {sum share : ℚ} (hsum : 0 ≤ sum) (h : ¬0 < share) :
    quota ShareArithmetic.exact rate sum share = 0 := by
  have hle : (rate : ℚ) * (share / sum) ≤ 0 :=
    mul_nonpos_of_nonneg_of_nonpos rate.cast_nonneg
      (div_nonpos_of_nonpos_of_nonneg (not_lt.mp h) hsum)
  have := roundHalfAway_nonpos hle
  change min (roundHalfAway ((rate : ℚ) * (share / sum))).toNat (2 ^ 64 - 1) = 0
  omega

namespace CampaignStage

variable (stage : CampaignStage ℚ) (rate : Nat)

/-- The rounded quotas of the entries. -/
def quotas : List Nat :=
  stage.mix.map fun entry =>
    quota ShareArithmetic.exact rate (mixSum stage.mix) entry.sharePct

/-- The quotas of all entries but the last fit into the rate, or are one above it and the
last entry is one that a unit is taken for. -/
def QuotasFit : Prop :=
  (stage.quotas rate).dropLast.sum ≤ rate ∨
    ((stage.quotas rate).dropLast.sum = rate + 1 ∧ positives stage.mix ≤ rate ∧
      LastVanishes stage.mix (stage.quotas rate))

/-- The quotas of all entries but the last have a unit for each of them that has a share,
and leave one for the last, or can give it one. -/
def QuotasSuffice : Prop :=
  positives stage.mix.dropLast ≤ (stage.quotas rate).dropLast.sum ∧
    ∀ last ∈ stage.mix.getLast?, 0 < last.sharePct →
      (stage.quotas rate).dropLast.sum < rate ∨
        ((stage.quotas rate).dropLast.sum = rate ∧
          quota ShareArithmetic.exact rate (mixSum stage.mix) last.sharePct = 0)

variable {stage rate}

theorem length_quotas : (stage.quotas rate).length = stage.mix.length := List.length_map ..

theorem getD_quotas {i : Nat} {entry : CampaignMixEntry ℚ} (h : stage.mix[i]? = some entry) :
    (stage.quotas rate).getD i 0 =
      quota ShareArithmetic.exact rate (mixSum stage.mix) entry.sharePct := by
  simp [quotas, List.getD_eq_getElem?_getD, h]

theorem mixSum_nonneg (hsum : ¬mixSum stage.mix ≤ ShareArithmetic.exact.epsilon) :
    0 ≤ mixSum stage.mix := by
  have heps : (0 : ℚ) ≤ ShareArithmetic.exact.epsilon := by
    norm_num [ShareArithmetic.exact]
  exact heps.trans (not_le.mp hsum).le

/-- The second pass is skipped, or levels the quotas. -/
theorem rates_cases (stage : CampaignStage ℚ) (rate : Nat) :
    (¬(0 < positives stage.mix ∧ positives stage.mix ≤ rate) ∧
        stage.rates ShareArithmetic.exact rate = stage.quotas rate) ∨
      ((0 < positives stage.mix ∧ positives stage.mix ≤ rate) ∧
        List.Leveled (stage.mix.length - 1) (zeroIndices stage.mix (stage.quotas rate))
          (stage.quotas rate) (stage.rates ShareArithmetic.exact rate)) := by
  have hrates : stage.rates ShareArithmetic.exact rate =
      if 0 < positives stage.mix ∧ positives stage.mix ≤ rate then
        (stage.quotas rate).raiseAll ((stage.quotas rate).length - 1)
          (zeroIndices stage.mix (stage.quotas rate))
      else stage.quotas rate := rfl
  rw [hrates]
  split_ifs with hpass
  · refine Or.inr ⟨hpass, ?_⟩
    rw [length_quotas]
    refine List.leveled_raiseAll (sorted_zeroIndices.imp Nat.ne_of_lt) fun i hi => ?_
    obtain ⟨⟨entry, hentry, -⟩, hzero⟩ := mem_zeroIndices.mp hi
    exact ⟨length_quotas ▸ (List.getElem?_eq_some_iff.mp hentry).1, hzero⟩
  · exact Or.inl ⟨hpass, rfl⟩

theorem length_rates : (stage.rates ShareArithmetic.exact rate).length = stage.mix.length := by
  rcases rates_cases stage rate with ⟨-, heq⟩ | ⟨-, hleveled⟩
  · rw [heq, length_quotas]
  · rw [hleveled.length, length_quotas]

section Sums

variable {last : CampaignMixEntry ℚ} (hlast : stage.mix.getLast? = some last)
  (hsum : ¬mixSum stage.mix ≤ ShareArithmetic.exact.epsilon)

include hlast

theorem positives_eq :
    positives stage.mix = positives stage.mix.dropLast + if 0 < last.sharePct then 1 else 0 := by
  obtain ⟨front, hmix⟩ := List.getLast?_eq_some_iff.mp hlast
  rw [hmix, List.dropLast_concat]
  simp [positives, List.countP_append, List.countP_cons]

theorem lastVanishes_quotas_iff :
    LastVanishes stage.mix (stage.quotas rate) ↔ 0 < last.sharePct ∧
      quota ShareArithmetic.exact rate (mixSum stage.mix) last.sharePct = 0 := by
  have hget : stage.mix[stage.mix.length - 1]? = some last := by
    rw [← List.getLast?_eq_getElem?, hlast]
  unfold LastVanishes
  rw [getD_quotas hget, hlast]
  simp

include hsum

theorem outcome_of_leveled
    (hleveled : List.Leveled (stage.mix.length - 1) (zeroIndices stage.mix (stage.quotas rate))
      (stage.quotas rate) (stage.rates ShareArithmetic.exact rate)) :
    (FrontRaised stage.mix (stage.rates ShareArithmetic.exact rate) ∧
        (LastVanishes stage.mix (stage.quotas rate) →
          (stage.rates ShareArithmetic.exact rate).dropLast.sum + 1 =
            (stage.quotas rate).dropLast.sum) ∧
        (¬LastVanishes stage.mix (stage.quotas rate) →
          (stage.rates ShareArithmetic.exact rate).dropLast.sum =
            (stage.quotas rate).dropLast.sum)) ∨
      ((stage.rates ShareArithmetic.exact rate).dropLast.sum = (stage.quotas rate).dropLast.sum ∧
        (stage.quotas rate).dropLast.sum ≤ positives stage.mix.dropLast ∧
        (¬FrontRaised stage.mix (stage.rates ShareArithmetic.exact rate) →
          (stage.quotas rate).dropLast.sum < positives stage.mix.dropLast)) := by
  refine raiseAll_outcome ?_ length_quotas (fun i entry hentry hshare => ?_) hleveled
  · rintro hnil
    simp [hnil] at hlast
  · rw [getD_quotas hentry, quota_eq_zero (mixSum_nonneg hsum) hshare]

/-- The rates before the last entry fit exactly when the quotas do. -/
theorem sum_rates_le_iff :
    (stage.rates ShareArithmetic.exact rate).dropLast.sum ≤ rate ↔ stage.QuotasFit rate := by
  have hpositives := positives_eq hlast
  have hvanishes : LastVanishes stage.mix (stage.quotas rate) ↔ 0 < last.sharePct ∧
      quota ShareArithmetic.exact rate (mixSum stage.mix) last.sharePct = 0 :=
    lastVanishes_quotas_iff hlast
  unfold QuotasFit
  rcases rates_cases stage rate with ⟨hskip, heq⟩ | ⟨hpass, hleveled⟩
  · rw [heq]
    refine ⟨Or.inl, fun h => h.elim id fun ⟨_, hle, hv⟩ => absurd ⟨?_, hle⟩ hskip⟩
    rw [hpositives, if_pos (hvanishes.mp hv).1]
    omega
  · rcases outcome_of_leveled hlast hsum hleveled with ⟨-, hv, hnv⟩ | ⟨hkept, hle, -⟩
    · by_cases h : LastVanishes stage.mix (stage.quotas rate)
      · have := hv h
        simp only [h, and_true]
        omega
      · have := hnv h
        simp only [h, and_false, or_false]
        omega
    · have : (stage.quotas rate).dropLast.sum ≤ rate := by omega
      rw [hkept]
      exact ⟨Or.inl, fun _ => this⟩

/-- Where the last entry has a share, the front must leave a unit of the rate to it. -/
theorem raised_iff_of_share (hrate : positives stage.mix ≤ rate) (hshare : 0 < last.sharePct) :
    (FrontRaised stage.mix (stage.rates ShareArithmetic.exact rate) ∧
        (stage.rates ShareArithmetic.exact rate).dropLast.sum < rate) ↔
      positives stage.mix.dropLast ≤ (stage.quotas rate).dropLast.sum ∧
        ((stage.quotas rate).dropLast.sum < rate ∨
          ((stage.quotas rate).dropLast.sum = rate ∧
            quota ShareArithmetic.exact rate (mixSum stage.mix) last.sharePct = 0)) := by
  have hpositives := positives_eq hlast
  rw [if_pos hshare] at hpositives
  have hvanishes : LastVanishes stage.mix (stage.quotas rate) ↔
      quota ShareArithmetic.exact rate (mixSum stage.mix) last.sharePct = 0 := by
    rw [lastVanishes_quotas_iff hlast, and_iff_right hshare]
  have hcount := le_sum_of_frontRaised (@length_rates stage rate)
  rcases rates_cases stage rate with ⟨hskip, -⟩ | ⟨-, hleveled⟩
  · exact absurd ⟨by omega, hrate⟩ hskip
  · rcases outcome_of_leveled hlast hsum hleveled with ⟨hraised, hv, hnv⟩ | ⟨hkept, hle, hlt⟩
    · have := hcount hraised
      rw [← hvanishes]
      by_cases h : LastVanishes stage.mix (stage.quotas rate)
      · have := hv h
        simp only [h, and_true, hraised, true_and]
        omega
      · have := hnv h
        simp only [h, and_false, or_false, hraised, true_and]
        omega
    · rw [hkept]
      constructor
      · rintro ⟨hraised, h⟩
        exact ⟨hkept ▸ hcount hraised, Or.inl h⟩
      · rintro ⟨h, -⟩
        refine ⟨by_contra fun hn => ?_, by omega⟩
        have := hlt hn
        omega

theorem frontRaised_iff_of_no_share (hrate : positives stage.mix ≤ rate)
    (hshare : ¬0 < last.sharePct) :
    FrontRaised stage.mix (stage.rates ShareArithmetic.exact rate) ↔
      positives stage.mix.dropLast ≤ (stage.quotas rate).dropLast.sum := by
  have hpositives := positives_eq hlast
  rw [if_neg hshare] at hpositives
  have hcount := le_sum_of_frontRaised (@length_rates stage rate)
  rcases rates_cases stage rate with ⟨hskip, -⟩ | ⟨-, hleveled⟩
  · -- no entry has a share
    have hnone : positives stage.mix.dropLast = 0 := by
      by_contra h
      exact hskip ⟨by omega, hrate⟩
    refine ⟨fun _ => by omega, fun _ i entry hentry hpos => ?_⟩
    have := List.countP_eq_zero.mp hnone entry (List.mem_of_getElem? hentry)
    simp [hpos] at this
  · have hnv : ¬LastVanishes stage.mix (stage.quotas rate) :=
      fun h => hshare ((lastVanishes_quotas_iff hlast).mp h).1
    rcases outcome_of_leveled hlast hsum hleveled with ⟨hraised, -, hkept⟩ | ⟨hkept, -, hlt⟩
    · have := hcount hraised
      have := hkept hnv
      exact ⟨fun _ => by omega, fun _ => hraised⟩
    · refine ⟨fun hraised => hkept ▸ hcount hraised, fun h => by_contra fun hn => ?_⟩
      have := hlt hn
      omega

/-- Every entry with a share gets a unit exactly when the quotas suffice. -/
theorem raised_iff (hrate : positives stage.mix ≤ rate) :
    (FrontRaised stage.mix (stage.rates ShareArithmetic.exact rate) ∧
        (0 < last.sharePct → (stage.rates ShareArithmetic.exact rate).dropLast.sum < rate)) ↔
      stage.QuotasSuffice rate := by
  unfold QuotasSuffice
  simp only [hlast, Option.mem_def, Option.some.injEq, forall_eq']
  by_cases hshare : 0 < last.sharePct
  · simp only [hshare, true_implies]
    exact raised_iff_of_share hlast hsum hrate hshare
  · simp only [hshare, false_implies, and_true]
    exact frontRaised_iff_of_no_share hlast hsum hrate hshare

end Sums

end CampaignStage

/-! ### Whole campaigns -/

section Campaigns

open CampaignStage

variable {spam : CampaignSpam ℚ} {cfg : CampaignConfig ℚ} {stage : CampaignStage ℚ}
  {stages : List (CampaignStage ℚ)} {idx : Nat}

/-- The rates of the mix add up to the rate of the stage. -/
def ResolvedStage.FullyDistributed (resolved : ResolvedStage ℚ) : Prop :=
  (resolved.mix.map ResolvedMixEntry.rate).sum = resolved.rate.toNat

theorem getLast?_mix (hsum : ¬mixSum stage.mix ≤ ShareArithmetic.exact.epsilon) :
    ∃ last, stage.mix.getLast? = some last := by
  refine Option.isSome_iff_exists.mp (List.getLast?_isSome.mpr fun hnil => hsum ?_)
  rw [hnil]
  norm_num [mixSum, ShareArithmetic.exact]

theorem assignRates_rates {rate : Nat} {last : CampaignMixEntry ℚ}
    (hlast : stage.mix.getLast? = some last) :
    assignRates stage.name rate 0
        (stage.mix.zip (stage.rates ShareArithmetic.exact rate)) =
      if rate < min (stage.rates ShareArithmetic.exact rate).dropLast.sum (2 ^ 64 - 1) then
        .error (.rateDistributionExceedsLimit stage.name
          (min (stage.rates ShareArithmetic.exact rate).dropLast.sum (2 ^ 64 - 1)) rate)
      else .ok ((stage.mix.dropLast.zip
          (stage.rates ShareArithmetic.exact rate).dropLast).map (fun p => p.1.resolved p.2) ++
        [last.resolved
          (rate - min (stage.rates ShareArithmetic.exact rate).dropLast.sum (2 ^ 64 - 1))]) :=
  assignRates_zip length_rates hlast

theorem sum_resolved {front : List (CampaignMixEntry ℚ)} {rates : List Nat}
    (hlength : front.length = rates.length) (last : CampaignMixEntry ℚ) (rate : Nat) :
    (((front.zip rates).map (fun p => p.1.resolved p.2) ++ [last.resolved rate]).map
      ResolvedMixEntry.rate).sum = rates.sum + rate := by
  rw [List.map_append, List.sum_append, List.map_map]
  change ((front.zip rates).map Prod.snd).sum + rate = _
  rw [List.map_snd_zip hlength.ge]

/-- A stage is resolved with its rate fully distributed. -/
theorem resolveStage_fullyDistributed_iff {d r : UInt64} (hduration : spam.duration = some d)
    (hrate : spam.rate = some r) :
    (∃ resolved, spam.resolveStage ShareArithmetic.exact idx stage = .ok resolved ∧
        resolved.FullyDistributed) ↔
      ¬mixSum stage.mix ≤ ShareArithmetic.exact.epsilon ∧
        stage.QuotasFit (stage.rate.getD r).toNat := by
  by_cases hsum : mixSum stage.mix ≤ ShareArithmetic.exact.epsilon
  · rw [resolveStage_of_mixSum_le hduration hsum]
    simp [hsum]
  · obtain ⟨last, hlast⟩ := getLast?_mix hsum
    have hbound := (stage.rate.getD r).toNat_lt
    rw [resolveStage_eq hduration hsum hrate, assignRates_rates hlast,
      ← sum_rates_le_iff hlast hsum]
    simp only [hsum, not_false_eq_true, true_and]
    split_ifs with hexceeds
    · constructor
      · rintro ⟨resolved, hok, -⟩
        cases hok
      · intro hle
        omega
    · constructor
      · rintro ⟨resolved, hok, hfull⟩
        obtain rfl := Except.ok.inj hok
        unfold ResolvedStage.FullyDistributed at hfull
        dsimp only at hfull
        rw [sum_resolved (by simp [length_rates])] at hfull
        omega
      · intro hle
        refine ⟨_, rfl, ?_⟩
        unfold ResolvedStage.FullyDistributed
        dsimp only
        rw [sum_resolved (by simp [length_rates])]
        omega

/-- The campaign is resolved, and the rate of each stage is fully distributed. -/
def CampaignConfig.Distributes (cfg : CampaignConfig ℚ) : Prop :=
  ∃ resolved, cfg.resolve ShareArithmetic.exact = .ok resolved ∧
    ∀ stage ∈ resolved, stage.FullyDistributed

/-- The rates of a campaign are fully distributed exactly when its own rate and duration
are given and, in each stage, the shares do not vanish and the quotas of all entries but
the last fit. -/
theorem distributes_iff (hstages : cfg.spam.normalizedStages = .ok stages) :
    cfg.Distributes ↔
      cfg.spam.duration.isSome ∧ ∃ r, cfg.spam.rate = some r ∧ ∀ stage ∈ stages,
        ¬mixSum stage.mix ≤ ShareArithmetic.exact.epsilon ∧
          stage.QuotasFit (stage.rate.getD r).toNat := by
  unfold CampaignConfig.Distributes
  rw [resolve_eq hstages]
  constructor
  · rintro ⟨resolved, hok, hfull⟩
    rw [List.mapM_eq_ok_iff] at hok
    -- the defaults are looked up for the first stage
    obtain ⟨first, rest, hcons⟩ := List.exists_cons_of_ne_nil (normalizedStages_ne_nil hstages)
    have hfirst : ∃ resolved,
        cfg.spam.resolveStage ShareArithmetic.exact 0 first = .ok resolved := by
      rw [hcons, List.zipIdx_cons] at hok
      obtain ⟨b, -, hb, -⟩ := List.forall₂_cons_left_iff.mp hok
      exact ⟨b, hb⟩
    obtain ⟨resolvedFirst, hfirst⟩ := hfirst
    obtain ⟨d, r, -, hduration, -, hrate, -⟩ := resolveStage_eq_ok hfirst
    refine ⟨by simp [hduration], r, hrate, fun stage hstage => ?_⟩
    obtain ⟨i, hi⟩ := List.getElem?_of_mem hstage
    have hzip : stages.zipIdx[i]? = some (stage, i) := by simp [hi]
    obtain ⟨b, hb, hresolved⟩ := hok.flip.getElem?_right hzip
    exact (resolveStage_fullyDistributed_iff hduration hrate).mp
      ⟨b, hresolved, hfull b (List.mem_of_getElem? hb)⟩
  · rintro ⟨hduration, r, hrate, hfit⟩
    obtain ⟨d, hduration⟩ := Option.isSome_iff_exists.mp hduration
    have hstage : ∀ p ∈ stages.zipIdx, ∃ resolved,
        cfg.spam.resolveStage ShareArithmetic.exact p.2 p.1 = .ok resolved ∧
          resolved.FullyDistributed := fun p hp =>
      (resolveStage_fullyDistributed_iff hduration hrate).mpr
        (hfit p.1 ((List.mem_zipIdx' hp).2 ▸ List.getElem_mem _))
    obtain ⟨resolved, hok⟩ := List.exists_mapM_eq_ok fun p hp =>
      (hstage p hp).imp fun _ h => h.1
    refine ⟨resolved, hok, fun b hb => ?_⟩
    obtain ⟨p, hp, hresolved⟩ := (List.mapM_eq_ok_iff.mp hok).exists_of_mem_right hb
    obtain ⟨b', hb', hfull⟩ := hstage p hp
    obtain rfl := Except.ok.inj (hresolved.symm.trans hb')
    exact hfull

/-- Every entry that has a share has a rate. -/
def ResolvedStage.NoneStarved (resolved : ResolvedStage ℚ) : Prop :=
  ∀ entry ∈ resolved.mix, 0 < entry.sharePct → 1 ≤ entry.rate

theorem forall_resolved_iff {front : List (CampaignMixEntry ℚ)} {rates : List Nat}
    (hlength : front.length = rates.length) :
    (∀ entry ∈ (front.zip rates).map (fun p => p.1.resolved p.2),
        0 < entry.sharePct → 1 ≤ entry.rate) ↔
      ∀ k entry, front[k]? = some entry → 0 < entry.sharePct → 0 < rates.getD k 0 := by
  constructor
  · intro h k entry hentry hshare
    have hlt := (List.getElem?_eq_some_iff.mp hentry).1
    have hrate := List.getElem?_eq_getElem (hlength ▸ hlt)
    have hzip : (front.zip rates)[k]? = some (entry, rates[k]) :=
      List.getElem?_zip_eq_some.mpr ⟨hentry, hrate⟩
    rw [List.getD_eq_getElem?_getD, hrate]
    exact h (entry.resolved rates[k]) (List.mem_map.mpr ⟨_, List.mem_of_getElem? hzip, rfl⟩) hshare
  · intro h entry hentry hshare
    obtain ⟨⟨mixEntry, rate⟩, hmem, rfl⟩ := List.mem_map.mp hentry
    obtain ⟨k, hk⟩ := List.getElem?_of_mem hmem
    obtain ⟨hmix, hrate⟩ := List.getElem?_zip_eq_some.mp hk
    have hpos := h k mixEntry hmix hshare
    rwa [List.getD_eq_getElem?_getD, hrate] at hpos

/-- In a stage that is resolved and has a unit for each entry with a share, every such
entry gets one exactly when the quotas of all entries but the last suffice. -/
theorem noneStarved_iff (hstages : cfg.spam.normalizedStages = .ok stages)
    {resolved : List (ResolvedStage ℚ)}
    (hresolve : cfg.resolve ShareArithmetic.exact = .ok resolved) {i : Nat}
    {resolvedStage : ResolvedStage ℚ} (hstage : stages[i]? = some stage)
    (hresolved : resolved[i]? = some resolvedStage)
    (hrate : positives stage.mix ≤ resolvedStage.rate.toNat) :
    resolvedStage.NoneStarved ↔ stage.QuotasSuffice resolvedStage.rate.toNat := by
  rw [resolve_eq hstages, List.mapM_eq_ok_iff] at hresolve
  obtain ⟨p, hp, hok⟩ := hresolve.getElem?_right hresolved
  obtain rfl : p = (stage, i) := by
    rw [List.getElem?_zipIdx, hstage] at hp
    simpa using hp.symm
  obtain ⟨d, r, mix, -, hsum, -, hmix, rfl⟩ := resolveStage_eq_ok hok
  obtain ⟨last, hlast⟩ := getLast?_mix hsum
  have hbound := (stage.rate.getD r).toNat_lt
  rw [← raised_iff hlast hsum hrate]
  rw [assignRates_rates hlast] at hmix
  split_ifs at hmix with hexceeds
  obtain rfl := Except.ok.inj hmix
  unfold ResolvedStage.NoneStarved
  simp only [List.mem_append, List.mem_singleton, or_imp, forall_and, forall_eq]
  refine and_congr ?_ (forall_congr' fun _ => ?_)
  · rw [forall_resolved_iff (by simp [length_rates])]
    refine forall₂_congr fun k entry => forall_congr' fun hentry => ?_
    have hlt := (List.getElem?_eq_some_iff.mp hentry).1
    rw [List.length_dropLast] at hlt
    rw [getD_dropLast (by rwa [length_rates])]
  · change 1 ≤ _ - min _ _ ↔ _
    omega

end Campaigns

/-! ### One stage -/

namespace OneStage

def mix (shares : List ℚ) : List (CampaignMixEntry ℚ) := shares.map fun share => ⟨['s'], share⟩

def stage (shares : List ℚ) : CampaignStage ℚ := ⟨['b'], none, none, mix shares⟩

def campaign (rate : UInt64) (shares : List ℚ) : CampaignConfig ℚ where
  name := ['a']
  spam :=
    { rate := some rate, duration := some 600, stageTimeout := none, mix := none,
      stage := [stage shares] }

/-- Nineteen of twenty units, not quite one, and next to nothing. -/
theorem distributes_of_fit : (campaign 20 [95, 24 / 5, 1 / 5]).Distributes := by
  have hstages : (campaign 20 [95, 24 / 5, 1 / 5]).spam.normalizedStages =
      .ok [stage [95, 24 / 5, 1 / 5]] := rfl
  refine (distributes_iff hstages).mpr ⟨rfl, 20, rfl, fun stage hstage => ?_⟩
  obtain rfl := List.mem_singleton.mp hstage
  exact ⟨by decide +kernel, Or.inl (by decide +kernel)⟩

/-- Of five equal shares, each is rounded up to one of three units. -/
theorem not_distributes_of_equal :
    (∀ entry ∈ mix [20, 20, 20, 20, 20], 0 ≤ entry.sharePct) ∧
      0 < mixSum (mix [20, 20, 20, 20, 20]) ∧
      ¬(campaign 3 [20, 20, 20, 20, 20]).Distributes := by
  refine ⟨by decide +kernel, by decide +kernel, ?_⟩
  rintro ⟨resolved, hok, -⟩
  have herror : (campaign 3 [20, 20, 20, 20, 20]).resolve ShareArithmetic.exact =
      .error (.rateDistributionExceedsLimit ['b'] 4 3) := by decide +kernel
  cases herror.symm.trans hok

def resolved (rate : UInt64) (shares : List ℚ) (rates : List Nat) : ResolvedStage ℚ :=
  ⟨['b'], rate, 600, none, ((mix shares).zip rates).map fun p => p.1.resolved p.2⟩

/-- The unit for the last entry is taken from the first. -/
theorem noneStarved_of_suffice :
    (campaign 20 [95, 24 / 5, 1 / 5]).resolve ShareArithmetic.exact =
        .ok [resolved 20 [95, 24 / 5, 1 / 5] [18, 1, 1]] ∧
      (resolved 20 [95, 24 / 5, 1 / 5] [18, 1, 1]).NoneStarved := by
  have hresolve : (campaign 20 [95, 24 / 5, 1 / 5]).resolve ShareArithmetic.exact =
      .ok [resolved 20 [95, 24 / 5, 1 / 5] [18, 1, 1]] := by decide +kernel
  refine ⟨hresolve, (noneStarved_iff (i := 0) rfl hresolve rfl rfl (by decide +kernel)).mpr
    ⟨by decide +kernel, fun last hlast _ => Or.inr ?_⟩⟩
  obtain rfl : (⟨['s'], 1 / 5⟩ : CampaignMixEntry ℚ) = last := Option.some.inj hlast
  decide +kernel

/-- Three units for three entries, and the last entry gets them all. -/
theorem starved_of_small :
    (campaign 3 [1, 1, 98]).resolve ShareArithmetic.exact =
        .ok [resolved 3 [1, 1, 98] [0, 0, 3]] ∧
      positives (mix [1, 1, 98]) ≤ 3 ∧ ¬(resolved 3 [1, 1, 98] [0, 0, 3]).NoneStarved := by
  refine ⟨by decide +kernel, by decide +kernel, fun h => ?_⟩
  exact absurd (h ⟨['s'], 1, 0⟩ (by decide +kernel) (by norm_num)) (by decide)

end OneStage

end Contender
