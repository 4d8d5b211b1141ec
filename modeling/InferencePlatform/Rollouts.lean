import InferencePlatform.PythonBuiltins

/-!
# Release gates

The measured fields have a type `F` of which the gates use the order, subtraction and division
only: exact rationals, or rationals with an undefined value for which no comparison holds.
-/

namespace Rollouts

open PythonBuiltins

inductive TrafficMode
  | shadow
  | canary
  deriving DecidableEq, Repr

inductive RolloutAction
  | hold
  | promote
  | rollback
  deriving DecidableEq, Repr

structure ReleaseMeasurement (F : Type) where
  revision : String
  mode : TrafficMode
  warmed : Bool
  sampleCount : ℤ
  qualityScore : F
  p95TtftSeconds : F
  p95TpotSeconds : F
  outputTokensPerSecond : F
  errorRate : F
  deriving DecidableEq, Repr

structure ReleaseRequirements (F : Type) where
  minSampleCount : ℤ
  minQualityScore : F
  maxQualityDrop : F
  maxP95TtftSeconds : F
  maxP95TpotSeconds : F
  minRelativeThroughput : F
  maxErrorRate : F
  deriving DecidableEq, Repr

structure RolloutDecision where
  action : RolloutAction
  decidingControls : List String
  deriving DecidableEq, Repr

section Gates

variable {F : Type} [Zero F] [Sub F] [Div F] [LT F] [LE F] [DecidableLT F] [DecidableLE F]

def validateMeasurement (measurement : ReleaseMeasurement F) : Except PyError Unit :=
  if isBlank measurement.revision ∨ measurement.sampleCount < 0 then
    throw (.valueError "revision is required and sample count may not be negative")
  else if measurement.outputTokensPerSecond ≤ 0 then
    throw (.valueError "throughput must be positive")
  else if pyMin measurement.qualityScore
      [measurement.p95TtftSeconds, measurement.p95TpotSeconds, measurement.errorRate] < 0 then
    throw (.valueError "measurement values may not be negative")
  else pure ()

def validateRequirements (requirements : ReleaseRequirements F) : Except PyError Unit :=
  if requirements.minSampleCount ≤ 0 then
    throw (.valueError "minimum sample count must be positive")
  else if pyMin requirements.minQualityScore
      [requirements.maxQualityDrop, requirements.maxP95TtftSeconds, requirements.maxP95TpotSeconds,
        requirements.minRelativeThroughput, requirements.maxErrorRate] < 0 then
    throw (.valueError "release requirements may not be negative")
  else pure ()

/-- `controls.append(name)` when the condition holds. -/
def deciding (condition : Prop) [Decidable condition] (name : String) : List String :=
  if condition then [name] else []

theorem deciding_eq_nil_iff {condition : Prop} [Decidable condition] {name : String} :
    deciding condition name = [] ↔ ¬ condition := by
  unfold deciding
  split_ifs with h <;> simp [h]

/-- A condition that fails with another one adds no name without it. -/
theorem deciding_sublist {p q : Prop} [Decidable p] [Decidable q] (h : p → q) (name : String) :
    (deciding p name).Sublist (deciding q name) := by
  unfold deciding
  by_cases hp : p
  · rw [if_pos hp, if_pos (h hp)]
  · rw [if_neg hp]
    exact List.nil_sublist _

def readiness (candidate : ReleaseMeasurement F) (requirements : ReleaseRequirements F) :
    List String :=
  deciding (candidate.warmed = false) "candidate has not completed model warmup" ++
  deciding (candidate.sampleCount < requirements.minSampleCount)
    "candidate sample is below the independent minimum"

def failures (baseline candidate : ReleaseMeasurement F) (requirements : ReleaseRequirements F) :
    List String :=
  let relativeThroughput := candidate.outputTokensPerSecond / baseline.outputTokensPerSecond
  deciding (candidate.qualityScore < requirements.minQualityScore)
    "quality score below absolute floor" ++
  deciding (requirements.maxQualityDrop < baseline.qualityScore - candidate.qualityScore)
    "quality regression exceeds allowance" ++
  deciding (requirements.maxP95TtftSeconds < candidate.p95TtftSeconds)
    "p95 TTFT exceeds rollout objective" ++
  deciding (requirements.maxP95TpotSeconds < candidate.p95TpotSeconds)
    "p95 TPOT exceeds rollout objective" ++
  deciding (relativeThroughput < requirements.minRelativeThroughput)
    "relative throughput below rollout objective" ++
  deciding (requirements.maxErrorRate < candidate.errorRate)
    "error rate exceeds rollout objective"

def evaluateRollout (baseline candidate : ReleaseMeasurement F)
    (requirements : ReleaseRequirements F) : Except PyError RolloutDecision := do
  validateMeasurement baseline
  validateMeasurement candidate
  validateRequirements requirements
  if readiness candidate requirements ≠ [] then
    pure ⟨.hold, readiness candidate requirements⟩
  else if failures baseline candidate requirements ≠ [] then
    pure ⟨.rollback, failures baseline candidate requirements⟩
  else if candidate.mode = .shadow then
    pure ⟨.hold, ["shadow passed, but user-facing canary evidence is still required"]⟩
  else pure ⟨.promote, ["warmed canary passed every independent release gate"]⟩

theorem evaluateRollout_promote_iff {baseline candidate : ReleaseMeasurement F}
    {requirements : ReleaseRequirements F} {decision : RolloutDecision}
    (h : evaluateRollout baseline candidate requirements = .ok decision) :
    decision.action = .promote ↔ readiness candidate requirements = [] ∧
      failures baseline candidate requirements = [] ∧ candidate.mode = .canary := by
  obtain ⟨_, -, h⟩ := Except.bind_eq_ok_iff.mp h
  obtain ⟨_, -, h⟩ := Except.bind_eq_ok_iff.mp h
  obtain ⟨_, -, h⟩ := Except.bind_eq_ok_iff.mp h
  split_ifs at h with hready hfail hshadow
  all_goals obtain rfl := Except.ok.inj h
  · exact iff_of_false (by simp) fun hall => hready hall.1
  · exact iff_of_false (by simp) fun hall => hfail hall.2.1
  · exact iff_of_false (by simp) fun hall => absurd (hshadow.symm.trans hall.2.2) (by decide)
  · refine iff_of_true rfl ⟨not_not.mp hready, not_not.mp hfail, ?_⟩
    cases hmode : candidate.mode with
    | shadow => exact absurd hmode hshadow
    | canary => rfl

omit [Zero F] [Sub F] [Div F] [LT F] [LE F] [DecidableLT F] [DecidableLE F] in
theorem readiness_eq_nil_iff {candidate : ReleaseMeasurement F}
    {requirements : ReleaseRequirements F} : readiness candidate requirements = [] ↔
      ¬ candidate.warmed = false ∧ ¬ candidate.sampleCount < requirements.minSampleCount := by
  simp only [readiness, List.append_eq_nil_iff, deciding_eq_nil_iff]

omit [Zero F] [LE F] [DecidableLE F] in
theorem failures_eq_nil_iff {baseline candidate : ReleaseMeasurement F}
    {requirements : ReleaseRequirements F} : failures baseline candidate requirements = [] ↔
      ¬ candidate.qualityScore < requirements.minQualityScore ∧
      ¬ requirements.maxQualityDrop < baseline.qualityScore - candidate.qualityScore ∧
      ¬ requirements.maxP95TtftSeconds < candidate.p95TtftSeconds ∧
      ¬ requirements.maxP95TpotSeconds < candidate.p95TpotSeconds ∧
      ¬ candidate.outputTokensPerSecond / baseline.outputTokensPerSecond <
        requirements.minRelativeThroughput ∧
      ¬ requirements.maxErrorRate < candidate.errorRate := by
  simp only [failures, List.append_eq_nil_iff, deciding_eq_nil_iff, and_assoc]

/-- Accepted records are what a promotion needs besides a ready canary without failures. -/
theorem exists_promote_iff {baseline candidate : ReleaseMeasurement F}
    {requirements : ReleaseRequirements F} :
    (∃ decision, evaluateRollout baseline candidate requirements = .ok decision ∧
        decision.action = .promote) ↔
      (validateMeasurement baseline = .ok () ∧ validateMeasurement candidate = .ok () ∧
        validateRequirements requirements = .ok ()) ∧
      readiness candidate requirements = [] ∧ failures baseline candidate requirements = [] ∧
        candidate.mode = .canary := by
  constructor
  · rintro ⟨decision, heq, hpromote⟩
    refine ⟨?_, (evaluateRollout_promote_iff heq).mp hpromote⟩
    obtain ⟨_, hbaseline, heq⟩ := Except.bind_eq_ok_iff.mp heq
    obtain ⟨_, hcandidate, heq⟩ := Except.bind_eq_ok_iff.mp heq
    obtain ⟨_, hrequirements, -⟩ := Except.bind_eq_ok_iff.mp heq
    exact ⟨hbaseline, hcandidate, hrequirements⟩
  · rintro ⟨⟨hbaseline, hcandidate, hrequirements⟩, hready, hfail, hmode⟩
    refine ⟨⟨.promote, ["warmed canary passed every independent release gate"]⟩, ?_, rfl⟩
    simp only [evaluateRollout, hbaseline, hcandidate, hrequirements, hready, hfail, hmode]
    rfl

end Gates

/-- A warmed canary with enough samples that passes every gate. -/
structure PassesGates (baseline candidate : ReleaseMeasurement ℚ)
    (requirements : ReleaseRequirements ℚ) : Prop where
  canary : candidate.mode = .canary
  warmed : candidate.warmed = true
  samples : requirements.minSampleCount ≤ candidate.sampleCount
  quality : requirements.minQualityScore ≤ candidate.qualityScore
  quality_drop : baseline.qualityScore - candidate.qualityScore ≤ requirements.maxQualityDrop
  ttft : candidate.p95TtftSeconds ≤ requirements.maxP95TtftSeconds
  tpot : candidate.p95TpotSeconds ≤ requirements.maxP95TpotSeconds
  throughput : requirements.minRelativeThroughput ≤
    candidate.outputTokensPerSecond / baseline.outputTokensPerSecond
  errors : candidate.errorRate ≤ requirements.maxErrorRate

theorem evaluateRollout_promote_iff_passesGates {baseline candidate : ReleaseMeasurement ℚ}
    {requirements : ReleaseRequirements ℚ} {decision : RolloutDecision}
    (h : evaluateRollout baseline candidate requirements = .ok decision) :
    decision.action = .promote ↔ PassesGates baseline candidate requirements := by
  rw [evaluateRollout_promote_iff h, readiness_eq_nil_iff, failures_eq_nil_iff]
  simp only [not_lt, Bool.not_eq_false]
  constructor
  · rintro ⟨⟨hwarm, hsamples⟩, ⟨hfloor, hdrop, httft, htpot, hthroughput, herror⟩, hmode⟩
    exact ⟨hmode, hwarm, hsamples, hfloor, hdrop, httft, htpot, hthroughput, herror⟩
  · intro h
    exact ⟨⟨h.warmed, h.samples⟩, ⟨h.quality, h.quality_drop, h.ttft, h.tpot, h.throughput,
      h.errors⟩, h.canary⟩

end Rollouts
