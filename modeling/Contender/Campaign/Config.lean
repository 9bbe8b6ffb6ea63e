import Contender.Data.Leveling
import Contender.Data.Text
import Contender.Primitives
import Mathlib.Data.Rat.Floor

/-!
# Campaign files

A campaign spams several scenarios at once, in stages. A stage may leave out its
duration and its rate, which are then those of the campaign; the rate of a stage is
divided among the scenarios of its mix, in proportion to their shares.

The program computes shares in floating point. Here the arithmetic of shares is a
parameter; `ShareArithmetic.exact` is rational arithmetic.
-/

namespace Contender

/-- What the distribution of a rate takes from the arithmetic of its shares, beside
comparisons and field operations. -/
structure ShareArithmetic (F : Type) where
  /-- `f64::EPSILON`. -/
  epsilon : F
  /-- `as f64`. -/
  ofU64 : Nat → F
  /-- `round() as u64`. -/
  roundU64 : F → Nat

/-- `f64::round`: halves are rounded away from zero. -/
def roundHalfAway (q : ℚ) : Int := if 0 ≤ q then ⌊q + 1 / 2⌋ else -⌊-q + 1 / 2⌋

/-- `as u64`, which saturates. -/
def asU64 (n : Int) : Nat := min n.toNat (2 ^ 64 - 1)

/-- Exact arithmetic. -/
def ShareArithmetic.exact : ShareArithmetic ℚ where
  epsilon := 1 / 2 ^ 52
  ofU64 := fun n => n
  roundU64 := fun q => asU64 (roundHalfAway q)

structure CampaignMixEntry (F : Type) where
  scenario : Text
  sharePct : F
  deriving DecidableEq

structure CampaignStage (F : Type) where
  name : Text
  duration : Option UInt64
  rate : Option UInt64
  mix : List (CampaignMixEntry F)
  deriving DecidableEq

structure CampaignSpam (F : Type) where
  rate : Option UInt64
  duration : Option UInt64
  stageTimeout : Option UInt64
  stage : List (CampaignStage F)
  /-- Shorthand for a single stage. -/
  mix : Option (List (CampaignMixEntry F))
  deriving DecidableEq

structure CampaignConfig (F : Type) where
  name : Text
  spam : CampaignSpam F
  deriving DecidableEq

inductive CampaignError
  | nameEmpty
  | spamRateMissing
  | spamDurationMissing (index : Nat) (name : Text)
  | mixSharesSumInvalid (name : Text)
  | stageMixEmpty (index : Nat) (name : Text)
  | spamMixEmpty
  | spamStageOrMixUndefined
  | shorthandRequiresSpamDuration
  | conflictingMixAndStage
  | rateDistributionExceedsLimit (name : Text) (assignedRate totalRate : Nat)
  deriving DecidableEq, Repr

structure ResolvedMixEntry (F : Type) where
  scenario : Text
  sharePct : F
  rate : Nat
  deriving DecidableEq

structure ResolvedStage (F : Type) where
  name : Text
  rate : UInt64
  duration : UInt64
  stageTimeout : Option UInt64
  mix : List (ResolvedMixEntry F)
  deriving DecidableEq

variable {F : Type}

/-- `CampaignSpam::normalized_stages`. -/
def CampaignSpam.normalizedStages (spam : CampaignSpam F) :
    Except CampaignError (List (CampaignStage F)) :=
  if spam.stage ≠ [] then
    if spam.mix.isSome then .error .conflictingMixAndStage else .ok spam.stage
  else
    match spam.mix with
    | none => .error .spamStageOrMixUndefined
    | some [] => .error .spamMixEmpty
    | some mix =>
      match spam.duration with
      | none => .error .shorthandRequiresSpamDuration
      | some duration => .ok [⟨"steady".toList, some duration, spam.rate, mix⟩]

/-- The checks that `CampaignConfig::validate` makes of a stage. -/
def CampaignSpam.validateStage (spam : CampaignSpam F) (idx : Nat) (stage : CampaignStage F) :
    Except CampaignError Unit :=
  if stage.mix = [] then .error (.stageMixEmpty idx stage.name)
  else if stage.duration = none ∧ spam.duration = none then
    .error (.spamDurationMissing idx stage.name)
  else .ok ()

/-- `CampaignConfig::validate`. -/
def CampaignConfig.validate (cfg : CampaignConfig F) : Except CampaignError Unit := do
  if cfg.name.all Char.isWhiteSpace then throw .nameEmpty
  let stages ← cfg.spam.normalizedStages
  stages.zipIdx.forM fun (stage, idx) => cfg.spam.validateStage idx stage

/-! ### Distributing a rate -/

section Distribution

variable [OfNat F 0] [Add F] [Mul F] [Div F] [LT F] [LE F] [DecidableLT F] [DecidableLE F]
  (arith : ShareArithmetic F)

/-- The sum of the shares of a mix. -/
def mixSum (mix : List (CampaignMixEntry F)) : F :=
  mix.foldl (fun sum entry => sum + entry.sharePct) 0

/-- The rounded part of the rate that a share stands for. -/
def quota (rate : Nat) (sum share : F) : Nat := arith.roundU64 (arith.ofU64 rate * (share / sum))

/-- The positions of the entries that have a share and no rate. -/
def zeroIndices (mix : List (CampaignMixEntry F)) (rates : List Nat) : List Nat :=
  (List.range mix.length).filter fun idx =>
    (mix[idx]?.any fun entry => 0 < entry.sharePct) && rates.getD idx 0 = 0

/-- The second pass of `resolve`: when there are enough units, each entry with a share
gets one at least, taken from the largest rate other than the last. -/
def raiseZeros (mix : List (CampaignMixEntry F)) (rate : Nat) (rates : List Nat) : List Nat :=
  let nonZeroMixes := mix.countP fun entry => 0 < entry.sharePct
  if 0 < nonZeroMixes ∧ nonZeroMixes ≤ rate then
    rates.raiseAll (rates.length - 1) (zeroIndices mix rates)
  else rates

/-- The third pass of `resolve`: the last entry gets what is left. -/
def assignRates (name : Text) (rate : Nat) :
    Nat → List (CampaignMixEntry F × Nat) → Except CampaignError (List (ResolvedMixEntry F))
  | _, [] => .ok []
  | assigned, [(entry, _)] =>
    if rate < assigned then .error (.rateDistributionExceedsLimit name assigned rate)
    else .ok [⟨entry.scenario, entry.sharePct, rate - assigned⟩]
  | assigned, (entry, scenarioRate) :: rest => do
    let resolved ← assignRates name rate (satAddU64 assigned scenarioRate) rest
    return ⟨entry.scenario, entry.sharePct, scenarioRate⟩ :: resolved

/-- The rates that the third pass starts from. -/
def CampaignStage.rates (stage : CampaignStage F) (rate : Nat) : List Nat :=
  raiseZeros stage.mix rate
    (stage.mix.map fun entry => quota arith rate (mixSum stage.mix) entry.sharePct)

/-- One round of `CampaignConfig::resolve`. The defaults are looked up whether or not
the stage has values of its own. -/
def CampaignSpam.resolveStage (spam : CampaignSpam F) (idx : Nat) (stage : CampaignStage F) :
    Except CampaignError (ResolvedStage F) := do
  let spamDuration ← spam.duration.elim (throw (.spamDurationMissing idx stage.name)) pure
  let duration := stage.duration.getD spamDuration
  if mixSum stage.mix ≤ arith.epsilon then throw (.mixSharesSumInvalid stage.name)
  let spamRate ← spam.rate.elim (throw .spamRateMissing) pure
  let rate := stage.rate.getD spamRate
  let mix ← assignRates stage.name rate.toNat 0 (stage.mix.zip (stage.rates arith rate.toNat))
  return ⟨stage.name, rate, duration, spam.stageTimeout, mix⟩

/-- `CampaignConfig::resolve`. -/
def CampaignConfig.resolve (cfg : CampaignConfig F) :
    Except CampaignError (List (ResolvedStage F)) := do
  let stages ← cfg.spam.normalizedStages
  stages.zipIdx.mapM fun (stage, idx) => cfg.spam.resolveStage arith idx stage

end Distribution

end Contender
