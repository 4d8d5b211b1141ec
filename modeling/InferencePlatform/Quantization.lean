import InferencePlatform.Rollouts

/-!
# Quantization gates

`evaluateQuantization` decides whether a measured format may advance to staging. As in the
release gates, the measured fields have a type `F` of which only the order, subtraction and
division are used.
-/

namespace Quantization

open PythonBuiltins Rollouts

inductive QuantizationAction
  | stage
  | reject
  deriving DecidableEq, Repr

structure QuantizationMeasurement (F : Type) where
  name : String
  weightBits : ℤ
  hardwareSupported : Bool
  qualityScore : F
  weightMemoryGib : F
  p95TtftSeconds : F
  outputTokensPerSecond : F
  deriving DecidableEq, Repr

structure QuantizationRequirements (F : Type) where
  minQualityScore : F
  maxQualityDrop : F
  maxWeightMemoryGib : F
  maxP95TtftSeconds : F
  minRelativeThroughput : F
  deriving DecidableEq, Repr

structure QuantizationDecision (F : Type) where
  action : QuantizationAction
  qualityDrop : F
  relativeThroughput : F
  reasons : List String
  deriving DecidableEq, Repr

section Gates

variable {F : Type} [Zero F] [Sub F] [Div F] [LT F] [LE F] [DecidableLT F] [DecidableLE F]

def validateMeasurement (measurement : QuantizationMeasurement F) : Except PyError Unit :=
  if isBlank measurement.name then
    throw (.valueError "measurement name is required")
  else if measurement.weightBits ≤ 0 ∨ measurement.weightMemoryGib ≤ 0 then
    throw (.valueError "weight precision and memory must be positive")
  else if measurement.p95TtftSeconds < 0 ∨ measurement.outputTokensPerSecond ≤ 0 then
    throw (.valueError "latency must be non-negative and throughput positive")
  else pure ()

/-- The check of the requirements at the head of `evaluateQuantization`. -/
def validateRequirements (requirements : QuantizationRequirements F) : Except PyError Unit :=
  if pyMin requirements.minQualityScore
      [requirements.maxQualityDrop, requirements.maxWeightMemoryGib,
        requirements.maxP95TtftSeconds, requirements.minRelativeThroughput] < 0 then
    throw (.valueError "quantization requirements may not be negative")
  else pure ()

def reasons (baseline candidate : QuantizationMeasurement F)
    (requirements : QuantizationRequirements F) : List String :=
  let qualityDrop := baseline.qualityScore - candidate.qualityScore
  let relativeThroughput := candidate.outputTokensPerSecond / baseline.outputTokensPerSecond
  deciding (candidate.hardwareSupported = false)
    "format lacks target-hardware kernel support" ++
  deciding (candidate.qualityScore < requirements.minQualityScore)
    "quality score below absolute floor" ++
  deciding (requirements.maxQualityDrop < qualityDrop)
    "quality regression exceeds allowance" ++
  deciding (requirements.maxWeightMemoryGib < candidate.weightMemoryGib)
    "weight memory exceeds budget" ++
  deciding (requirements.maxP95TtftSeconds < candidate.p95TtftSeconds)
    "p95 TTFT exceeds objective" ++
  deciding (relativeThroughput < requirements.minRelativeThroughput)
    "relative throughput below requirement"

def evaluateQuantization (baseline candidate : QuantizationMeasurement F)
    (requirements : QuantizationRequirements F) :
    Except PyError (QuantizationDecision F) := do
  validateMeasurement baseline
  validateMeasurement candidate
  validateRequirements requirements
  let qualityDrop := baseline.qualityScore - candidate.qualityScore
  let relativeThroughput := candidate.outputTokensPerSecond / baseline.outputTokensPerSecond
  let reasons := reasons baseline candidate requirements
  pure ⟨if reasons ≠ [] then .reject else .stage, qualityDrop, relativeThroughput,
    if reasons ≠ [] then reasons else ["all measured staging gates passed"]⟩

omit [Zero F] [LE F] [DecidableLE F] in
theorem reasons_eq_nil_iff {baseline candidate : QuantizationMeasurement F}
    {requirements : QuantizationRequirements F} : reasons baseline candidate requirements = [] ↔
      ¬ candidate.hardwareSupported = false ∧
      ¬ candidate.qualityScore < requirements.minQualityScore ∧
      ¬ requirements.maxQualityDrop < baseline.qualityScore - candidate.qualityScore ∧
      ¬ requirements.maxWeightMemoryGib < candidate.weightMemoryGib ∧
      ¬ requirements.maxP95TtftSeconds < candidate.p95TtftSeconds ∧
      ¬ candidate.outputTokensPerSecond / baseline.outputTokensPerSecond <
        requirements.minRelativeThroughput := by
  simp only [reasons, List.append_eq_nil_iff, deciding_eq_nil_iff, and_assoc]

/-- Accepted records and no reason against it are what staging needs. -/
theorem exists_stage_iff {baseline candidate : QuantizationMeasurement F}
    {requirements : QuantizationRequirements F} :
    (∃ decision, evaluateQuantization baseline candidate requirements = .ok decision ∧
        decision.action = .stage) ↔
      (validateMeasurement baseline = .ok () ∧ validateMeasurement candidate = .ok () ∧
        validateRequirements requirements = .ok ()) ∧
      reasons baseline candidate requirements = [] := by
  constructor
  · rintro ⟨decision, heq, hstage⟩
    obtain ⟨_, hbaseline, heq⟩ := Except.bind_eq_ok_iff.mp heq
    obtain ⟨_, hcandidate, heq⟩ := Except.bind_eq_ok_iff.mp heq
    obtain ⟨_, hrequirements, heq⟩ := Except.bind_eq_ok_iff.mp heq
    obtain rfl := Except.ok.inj heq
    refine ⟨⟨hbaseline, hcandidate, hrequirements⟩, ?_⟩
    by_contra hne
    rw [if_pos hne] at hstage
    cases hstage
  · rintro ⟨⟨hbaseline, hcandidate, hrequirements⟩, hreasons⟩
    refine ⟨⟨.stage, baseline.qualityScore - candidate.qualityScore,
      candidate.outputTokensPerSecond / baseline.outputTokensPerSecond,
      ["all measured staging gates passed"]⟩, ?_, rfl⟩
    simp only [evaluateQuantization, hbaseline, hcandidate, hrequirements, hreasons]
    rfl

end Gates

end Quantization
