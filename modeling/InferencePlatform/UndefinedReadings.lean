import InferencePlatform.Readings
import InferencePlatform.Quantization

/-!
# Gates over undefined readings

The release and staging gates on measurements whose fields may be undefined, with requirements
that are exact. Each gate is written as the negation of the failing comparison, which holds of
an undefined reading as well. A gate fails closed exactly when every reading that it compares is
defined, or when something else stops the candidate.
-/

namespace Rollouts

def ReleaseRequirements.map {F G : Type} (f : F → G) (requirements : ReleaseRequirements F) :
    ReleaseRequirements G :=
  ⟨requirements.minSampleCount, f requirements.minQualityScore, f requirements.maxQualityDrop,
    f requirements.maxP95TtftSeconds, f requirements.maxP95TpotSeconds,
    f requirements.minRelativeThroughput, f requirements.maxErrorRate⟩

section Gates

variable (baseline candidate : ReleaseMeasurement Reading) (requirements : ReleaseRequirements ℚ)

/-- The gates of a release as comparisons that hold. -/
structure ComparisonsHold : Prop where
  quality : .real requirements.minQualityScore ≤ candidate.qualityScore
  quality_drop : baseline.qualityScore - candidate.qualityScore ≤ .real requirements.maxQualityDrop
  ttft : candidate.p95TtftSeconds ≤ .real requirements.maxP95TtftSeconds
  tpot : candidate.p95TpotSeconds ≤ .real requirements.maxP95TpotSeconds
  throughput : .real requirements.minRelativeThroughput ≤
    candidate.outputTokensPerSecond / baseline.outputTokensPerSecond
  errors : candidate.errorRate ≤ .real requirements.maxErrorRate

def Promotes : Prop :=
  ∃ decision, evaluateRollout baseline candidate (requirements.map .real) = .ok decision ∧
    decision.action = .promote

/-- Every reading that a release gate compares is defined. -/
structure Measured : Prop where
  baseline_quality : baseline.qualityScore.Defined
  baseline_throughput : baseline.outputTokensPerSecond.Defined
  quality : candidate.qualityScore.Defined
  ttft : candidate.p95TtftSeconds.Defined
  tpot : candidate.p95TpotSeconds.Defined
  throughput : candidate.outputTokensPerSecond.Defined
  errors : candidate.errorRate.Defined

/-- What keeps a candidate from promotion, undefined readings or not. -/
inductive Stopped : Prop
  | baseline_rejected : validateMeasurement baseline ≠ .ok () → Stopped
  | candidate_rejected : validateMeasurement candidate ≠ .ok () → Stopped
  | requirements_rejected :
      validateRequirements (requirements.map Reading.real) ≠ .ok () → Stopped
  | unwarmed : candidate.warmed = false → Stopped
  | undersampled : candidate.sampleCount < requirements.minSampleCount → Stopped
  | shadow : candidate.mode = .shadow → Stopped
  | quality : candidate.qualityScore < .real requirements.minQualityScore → Stopped
  | quality_drop : .real requirements.maxQualityDrop <
      baseline.qualityScore - candidate.qualityScore → Stopped
  | ttft : .real requirements.maxP95TtftSeconds < candidate.p95TtftSeconds → Stopped
  | tpot : .real requirements.maxP95TpotSeconds < candidate.p95TpotSeconds → Stopped
  | throughput : candidate.outputTokensPerSecond / baseline.outputTokensPerSecond <
      .real requirements.minRelativeThroughput → Stopped
  | errors : .real requirements.maxErrorRate < candidate.errorRate → Stopped

variable {baseline candidate requirements}

theorem ComparisonsHold.measured (h : ComparisonsHold baseline candidate requirements) :
    Measured baseline candidate := by
  obtain ⟨hbaseline, hquality⟩ := Reading.sub_defined_iff.mp (Reading.le_iff.mp h.quality_drop).1
  obtain ⟨hthroughput, hbase⟩ := Reading.div_defined_iff.mp (Reading.le_iff.mp h.throughput).2.1
  exact ⟨hbaseline, hbase, hquality, (Reading.le_iff.mp h.ttft).1, (Reading.le_iff.mp h.tpot).1,
    hthroughput, (Reading.le_iff.mp h.errors).1⟩

theorem Measured.comparisonsHold (h : Measured baseline candidate)
    (hstopped : ¬ Stopped baseline candidate requirements) :
    ComparisonsHold baseline candidate requirements where
  quality := Reading.le_iff.mpr
    ⟨Reading.defined_real _, h.quality, fun hlt => hstopped (.quality hlt)⟩
  quality_drop := Reading.le_iff.mpr
    ⟨Reading.sub_defined_iff.mpr ⟨h.baseline_quality, h.quality⟩, Reading.defined_real _,
      fun hlt => hstopped (.quality_drop hlt)⟩
  ttft := Reading.le_iff.mpr ⟨h.ttft, Reading.defined_real _, fun hlt => hstopped (.ttft hlt)⟩
  tpot := Reading.le_iff.mpr ⟨h.tpot, Reading.defined_real _, fun hlt => hstopped (.tpot hlt)⟩
  throughput := Reading.le_iff.mpr
    ⟨Reading.defined_real _, Reading.div_defined_iff.mpr ⟨h.throughput, h.baseline_throughput⟩,
      fun hlt => hstopped (.throughput hlt)⟩
  errors := Reading.le_iff.mpr
    ⟨h.errors, Reading.defined_real _, fun hlt => hstopped (.errors hlt)⟩

theorem promotes_iff :
    Promotes baseline candidate requirements ↔ ¬ Stopped baseline candidate requirements := by
  unfold Promotes
  rw [exists_promote_iff, readiness_eq_nil_iff, failures_eq_nil_iff]
  constructor
  · rintro ⟨⟨hbaseline, hcandidate, hrequirements⟩, ⟨hwarmed, hsamples⟩,
      ⟨hquality, hdrop, httft, htpot, hthroughput, herrors⟩, hmode⟩ hstopped
    cases hstopped with
    | baseline_rejected h => exact h hbaseline
    | candidate_rejected h => exact h hcandidate
    | requirements_rejected h => exact h hrequirements
    | unwarmed h => exact hwarmed h
    | undersampled h => exact hsamples h
    | shadow h => exact absurd (h.symm.trans hmode) (by decide)
    | quality h => exact hquality h
    | quality_drop h => exact hdrop h
    | ttft h => exact httft h
    | tpot h => exact htpot h
    | throughput h => exact hthroughput h
    | errors h => exact herrors h
  · intro hstopped
    refine ⟨⟨of_not_not fun h => hstopped (.baseline_rejected h),
      of_not_not fun h => hstopped (.candidate_rejected h),
      of_not_not fun h => hstopped (.requirements_rejected h)⟩,
      ⟨fun h => hstopped (.unwarmed h), fun h => hstopped (.undersampled h)⟩,
      ⟨fun h => hstopped (.quality h), fun h => hstopped (.quality_drop h),
        fun h => hstopped (.ttft h), fun h => hstopped (.tpot h),
        fun h => hstopped (.throughput h), fun h => hstopped (.errors h)⟩, ?_⟩
    cases hmode : candidate.mode with
    | shadow => exact absurd (.shadow hmode) hstopped
    | canary => rfl

end Gates

end Rollouts

namespace Quantization

open Rollouts

def QuantizationRequirements.map {F G : Type} (f : F → G)
    (requirements : QuantizationRequirements F) : QuantizationRequirements G :=
  ⟨f requirements.minQualityScore, f requirements.maxQualityDrop,
    f requirements.maxWeightMemoryGib, f requirements.maxP95TtftSeconds,
    f requirements.minRelativeThroughput⟩

section Gates

variable (baseline candidate : QuantizationMeasurement Reading)
  (requirements : QuantizationRequirements ℚ)

/-- The gates of a format as comparisons that hold. -/
structure ComparisonsHold : Prop where
  quality : .real requirements.minQualityScore ≤ candidate.qualityScore
  quality_drop : baseline.qualityScore - candidate.qualityScore ≤ .real requirements.maxQualityDrop
  memory : candidate.weightMemoryGib ≤ .real requirements.maxWeightMemoryGib
  ttft : candidate.p95TtftSeconds ≤ .real requirements.maxP95TtftSeconds
  throughput : .real requirements.minRelativeThroughput ≤
    candidate.outputTokensPerSecond / baseline.outputTokensPerSecond

def Stages : Prop :=
  ∃ decision, evaluateQuantization baseline candidate (requirements.map .real) = .ok decision ∧
    decision.action = .stage

/-- Every reading that a staging gate compares is defined. -/
structure Measured : Prop where
  baseline_quality : baseline.qualityScore.Defined
  baseline_throughput : baseline.outputTokensPerSecond.Defined
  quality : candidate.qualityScore.Defined
  memory : candidate.weightMemoryGib.Defined
  ttft : candidate.p95TtftSeconds.Defined
  throughput : candidate.outputTokensPerSecond.Defined

/-- What keeps a format from staging, undefined readings or not. -/
inductive Stopped : Prop
  | baseline_rejected : validateMeasurement baseline ≠ .ok () → Stopped
  | candidate_rejected : validateMeasurement candidate ≠ .ok () → Stopped
  | requirements_rejected :
      validateRequirements (requirements.map Reading.real) ≠ .ok () → Stopped
  | unsupported : candidate.hardwareSupported = false → Stopped
  | quality : candidate.qualityScore < .real requirements.minQualityScore → Stopped
  | quality_drop : .real requirements.maxQualityDrop <
      baseline.qualityScore - candidate.qualityScore → Stopped
  | memory : .real requirements.maxWeightMemoryGib < candidate.weightMemoryGib → Stopped
  | ttft : .real requirements.maxP95TtftSeconds < candidate.p95TtftSeconds → Stopped
  | throughput : candidate.outputTokensPerSecond / baseline.outputTokensPerSecond <
      .real requirements.minRelativeThroughput → Stopped

variable {baseline candidate requirements}

theorem ComparisonsHold.measured (h : ComparisonsHold baseline candidate requirements) :
    Measured baseline candidate := by
  obtain ⟨hbaseline, hquality⟩ := Reading.sub_defined_iff.mp (Reading.le_iff.mp h.quality_drop).1
  obtain ⟨hthroughput, hbase⟩ := Reading.div_defined_iff.mp (Reading.le_iff.mp h.throughput).2.1
  exact ⟨hbaseline, hbase, hquality, (Reading.le_iff.mp h.memory).1, (Reading.le_iff.mp h.ttft).1,
    hthroughput⟩

theorem Measured.comparisonsHold (h : Measured baseline candidate)
    (hstopped : ¬ Stopped baseline candidate requirements) :
    ComparisonsHold baseline candidate requirements where
  quality := Reading.le_iff.mpr
    ⟨Reading.defined_real _, h.quality, fun hlt => hstopped (.quality hlt)⟩
  quality_drop := Reading.le_iff.mpr
    ⟨Reading.sub_defined_iff.mpr ⟨h.baseline_quality, h.quality⟩, Reading.defined_real _,
      fun hlt => hstopped (.quality_drop hlt)⟩
  memory := Reading.le_iff.mpr
    ⟨h.memory, Reading.defined_real _, fun hlt => hstopped (.memory hlt)⟩
  ttft := Reading.le_iff.mpr ⟨h.ttft, Reading.defined_real _, fun hlt => hstopped (.ttft hlt)⟩
  throughput := Reading.le_iff.mpr
    ⟨Reading.defined_real _, Reading.div_defined_iff.mpr ⟨h.throughput, h.baseline_throughput⟩,
      fun hlt => hstopped (.throughput hlt)⟩

theorem stages_iff :
    Stages baseline candidate requirements ↔ ¬ Stopped baseline candidate requirements := by
  unfold Stages
  rw [exists_stage_iff, reasons_eq_nil_iff]
  constructor
  · rintro ⟨⟨hbaseline, hcandidate, hrequirements⟩,
      ⟨hsupported, hquality, hdrop, hmemory, httft, hthroughput⟩⟩ hstopped
    cases hstopped with
    | baseline_rejected h => exact h hbaseline
    | candidate_rejected h => exact h hcandidate
    | requirements_rejected h => exact h hrequirements
    | unsupported h => exact hsupported h
    | quality h => exact hquality h
    | quality_drop h => exact hdrop h
    | memory h => exact hmemory h
    | ttft h => exact httft h
    | throughput h => exact hthroughput h
  · intro hstopped
    exact ⟨⟨of_not_not fun h => hstopped (.baseline_rejected h),
      of_not_not fun h => hstopped (.candidate_rejected h),
      of_not_not fun h => hstopped (.requirements_rejected h)⟩,
      fun h => hstopped (.unsupported h), fun h => hstopped (.quality h),
      fun h => hstopped (.quality_drop h), fun h => hstopped (.memory h),
      fun h => hstopped (.ttft h), fun h => hstopped (.throughput h)⟩

end Gates

end Quantization

namespace UndefinedReadings

/-- A gate passes every candidate that nothing stops, so it passes only what it has compared when
nothing is left undefined. -/
theorem failsClosed_iff {advances holds measured stopped : Prop} (hadvances : advances ↔ ¬ stopped)
    (hmeasured : holds → measured) (hholds : measured → ¬ stopped → holds) :
    (advances → holds) ↔ measured ∨ stopped := by
  by_cases hstopped : stopped
  · exact iff_of_true (fun h => absurd hstopped (hadvances.mp h)) (.inr hstopped)
  · constructor
    · exact fun h => .inl (hmeasured (h (hadvances.mpr hstopped)))
    · rintro (h | h) -
      · exact hholds h hstopped
      · exact absurd h hstopped

theorem gates_failClosed_iff (baseline candidate : Rollouts.ReleaseMeasurement Reading)
    (requirements : Rollouts.ReleaseRequirements ℚ)
    (formatBaseline formatCandidate : Quantization.QuantizationMeasurement Reading)
    (formatRequirements : Quantization.QuantizationRequirements ℚ) :
    ((Rollouts.Promotes baseline candidate requirements →
        Rollouts.ComparisonsHold baseline candidate requirements) ↔
      Rollouts.Measured baseline candidate ∨ Rollouts.Stopped baseline candidate requirements) ∧
    ((Quantization.Stages formatBaseline formatCandidate formatRequirements →
        Quantization.ComparisonsHold formatBaseline formatCandidate formatRequirements) ↔
      Quantization.Measured formatBaseline formatCandidate ∨
        Quantization.Stopped formatBaseline formatCandidate formatRequirements) :=
  ⟨failsClosed_iff Rollouts.promotes_iff Rollouts.ComparisonsHold.measured
      Rollouts.Measured.comparisonsHold,
    failsClosed_iff Quantization.stages_iff Quantization.ComparisonsHold.measured
      Quantization.Measured.comparisonsHold⟩

def releaseMeasurement (quality : Reading) : Rollouts.ReleaseMeasurement Reading :=
  ⟨"candidate", .canary, true, 1000, quality, .real (1 / 2), .real (1 / 50), .real 1000,
    .real (1 / 1000)⟩

def releaseRequirements : Rollouts.ReleaseRequirements ℚ :=
  ⟨100, 9 / 10, 1 / 50, 1, 1 / 10, 19 / 20, 1 / 100⟩

def formatMeasurement (quality : Reading) : Quantization.QuantizationMeasurement Reading :=
  ⟨"int4", 4, true, quality, .real 4, .real (1 / 2), .real 1000⟩

def formatRequirements : Quantization.QuantizationRequirements ℚ :=
  ⟨9 / 10, 1 / 50, 8, 1, 1⟩

/-- A candidate without a quality score is promoted, and a format without one is staged. -/
theorem undefined_quality_advances :
    (Rollouts.Promotes (releaseMeasurement (.real 1)) (releaseMeasurement .nan)
        releaseRequirements ∧
      ¬ Rollouts.ComparisonsHold (releaseMeasurement (.real 1)) (releaseMeasurement .nan)
        releaseRequirements) ∧
    (Quantization.Stages (formatMeasurement (.real 1)) (formatMeasurement .nan)
        formatRequirements ∧
      ¬ Quantization.ComparisonsHold (formatMeasurement (.real 1)) (formatMeasurement .nan)
        formatRequirements) := by
  refine ⟨⟨⟨⟨.promote, ["warmed canary passed every independent release gate"]⟩,
    by decide +kernel, rfl⟩, fun h => Reading.not_defined_nan h.measured.quality⟩,
    ⟨⟨.stage, .nan, .real 1, ["all measured staging gates passed"]⟩, by decide +kernel, rfl⟩,
    fun h => Reading.not_defined_nan h.measured.quality⟩

end UndefinedReadings
