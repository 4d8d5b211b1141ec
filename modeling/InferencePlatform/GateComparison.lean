import InferencePlatform.Quantization
import InferencePlatform.Rollouts

/-!
# Better candidates and looser requirements

The release and the staging gate compare a candidate with a baseline and with requirements. Along
the orders below, in which the candidate gets better and the other two ask for less, failed
controls only disappear. Only the readiness of a release can turn the other way: with enough
samples a held candidate may turn out to have failed all along.
-/

namespace Rollouts

open PythonBuiltins

/-- A candidate at least as good in every measured value. -/
structure Dominates (candidate' candidate : ReleaseMeasurement ℚ) : Prop where
  canary : candidate.mode = .canary → candidate'.mode = .canary
  warmed : candidate.warmed = true → candidate'.warmed = true
  samples : candidate.sampleCount ≤ candidate'.sampleCount
  quality : candidate.qualityScore ≤ candidate'.qualityScore
  ttft : candidate'.p95TtftSeconds ≤ candidate.p95TtftSeconds
  tpot : candidate'.p95TpotSeconds ≤ candidate.p95TpotSeconds
  throughput : candidate.outputTokensPerSecond ≤ candidate'.outputTokensPerSecond
  errors : candidate'.errorRate ≤ candidate.errorRate

/-- A baseline that is no harder to keep up with. -/
structure EasierBaseline (baseline' baseline : ReleaseMeasurement ℚ) : Prop where
  quality : baseline'.qualityScore ≤ baseline.qualityScore
  throughput : baseline'.outputTokensPerSecond ≤ baseline.outputTokensPerSecond

structure Relaxes (requirements' requirements : ReleaseRequirements ℚ) : Prop where
  samples : requirements'.minSampleCount ≤ requirements.minSampleCount
  quality : requirements'.minQualityScore ≤ requirements.minQualityScore
  quality_drop : requirements.maxQualityDrop ≤ requirements'.maxQualityDrop
  ttft : requirements.maxP95TtftSeconds ≤ requirements'.maxP95TtftSeconds
  tpot : requirements.maxP95TpotSeconds ≤ requirements'.maxP95TpotSeconds
  throughput : requirements'.minRelativeThroughput ≤ requirements.minRelativeThroughput
  errors : requirements.maxErrorRate ≤ requirements'.maxErrorRate

theorem Dominates.refl (candidate : ReleaseMeasurement ℚ) : Dominates candidate candidate :=
  ⟨id, id, le_rfl, le_rfl, le_rfl, le_rfl, le_rfl, le_rfl⟩

theorem Relaxes.refl (requirements : ReleaseRequirements ℚ) : Relaxes requirements requirements :=
  ⟨le_rfl, le_rfl, le_rfl, le_rfl, le_rfl, le_rfl, le_rfl⟩

section Comparison

variable {baseline baseline' candidate candidate' : ReleaseMeasurement ℚ}
  {requirements requirements' : ReleaseRequirements ℚ} {decision decision' : RolloutDecision}

theorem throughput_pos (h : validateMeasurement baseline = .ok ()) :
    0 < baseline.outputTokensPerSecond := by
  unfold validateMeasurement at h
  rw [Except.ite_throw_eq_ok_iff, Except.ite_throw_eq_ok_iff] at h
  exact not_le.mp h.2.1

theorem readiness_sublist (hdom : Dominates candidate' candidate)
    (hrelax : Relaxes requirements' requirements) :
    (readiness candidate' requirements').Sublist (readiness candidate requirements) := by
  refine (deciding_sublist ?_ _).append (deciding_sublist ?_ _)
  · intro hcold
    by_contra hwarm
    rw [Bool.not_eq_false] at hwarm
    rw [hdom.warmed hwarm] at hcold
    cases hcold
  · intro hfew
    have hmore := hdom.samples
    have hless := hrelax.samples
    omega

theorem failures_sublist (hbaseline' : 0 < baseline'.outputTokensPerSecond)
    (hcandidate : 0 < candidate.outputTokensPerSecond) (heasier : EasierBaseline baseline' baseline)
    (hdom : Dominates candidate' candidate) (hrelax : Relaxes requirements' requirements) :
    (failures baseline' candidate' requirements').Sublist
      (failures baseline candidate requirements) := by
  have hrelative : candidate.outputTokensPerSecond / baseline.outputTokensPerSecond ≤
      candidate'.outputTokensPerSecond / baseline'.outputTokensPerSecond :=
    div_le_div₀ (hcandidate.le.trans hdom.throughput) hdom.throughput hbaseline' heasier.throughput
  refine (((((deciding_sublist ?_ _).append (deciding_sublist ?_ _)).append
    (deciding_sublist ?_ _)).append (deciding_sublist ?_ _)).append (deciding_sublist ?_ _)).append
      (deciding_sublist ?_ _)
  · exact fun h => (hdom.quality.trans_lt h).trans_le hrelax.quality
  · intro h
    have hquality := hdom.quality
    have hbase := heasier.quality
    exact hrelax.quality_drop.trans_lt (h.trans_le (by linarith))
  · exact fun h => hrelax.ttft.trans_lt (h.trans_le hdom.ttft)
  · exact fun h => hrelax.tpot.trans_lt (h.trans_le hdom.tpot)
  · exact fun h => (hrelative.trans_lt h).trans_le hrelax.throughput
  · exact fun h => hrelax.errors.trans_lt (h.trans_le hdom.errors)

/-- What a decision was made of. -/
theorem evaluateRollout_cases (h : evaluateRollout baseline candidate requirements = .ok decision) :
    (validateMeasurement baseline = .ok () ∧ validateMeasurement candidate = .ok ()) ∧
    (decision.action = .rollback ↔ readiness candidate requirements = [] ∧
      failures baseline candidate requirements ≠ []) ∧
    (decision.action = .rollback →
      decision.decidingControls = failures baseline candidate requirements) := by
  obtain ⟨_, hbaseline, h⟩ := Except.bind_eq_ok_iff.mp h
  obtain ⟨_, hcandidate, h⟩ := Except.bind_eq_ok_iff.mp h
  obtain ⟨_, -, h⟩ := Except.bind_eq_ok_iff.mp h
  refine ⟨⟨hbaseline, hcandidate⟩, ?_⟩
  split_ifs at h with hready hfail hshadow
  all_goals obtain rfl := Except.ok.inj h
  · simp [hready]
  · simp [not_not.mp hready, hfail]
  · simp [not_not.mp hfail]
  · simp [not_not.mp hfail]

/-- A better candidate, an easier baseline and looser requirements keep a promotion, and whatever
still holds or rolls the candidate back did so before. A rollback that is new was hidden behind a
missing warmup or too few samples. -/
theorem evaluateRollout_mono (h : evaluateRollout baseline candidate requirements = .ok decision)
    (h' : evaluateRollout baseline' candidate' requirements' = .ok decision')
    (heasier : EasierBaseline baseline' baseline) (hdom : Dominates candidate' candidate)
    (hrelax : Relaxes requirements' requirements) :
    (decision.action = .promote → decision'.action = .promote) ∧
    (decision'.action = .rollback →
      decision.action = .rollback ∧ decision'.decidingControls.Sublist decision.decidingControls ∨
      decision.action = .hold ∧ readiness candidate requirements ≠ [] ∧
        decision'.decidingControls.Sublist (failures baseline candidate requirements)) := by
  obtain ⟨⟨hbaseline, hcandidate⟩, hrollback, hcontrols⟩ := evaluateRollout_cases h
  obtain ⟨⟨hbaseline', -⟩, hrollback', hcontrols'⟩ := evaluateRollout_cases h'
  have hready := readiness_sublist hdom hrelax
  have hfail := failures_sublist (throughput_pos hbaseline') (throughput_pos hcandidate)
    heasier hdom hrelax
  have hpromote := evaluateRollout_promote_iff h
  constructor
  · intro hdecision
    obtain ⟨hready₀, hfail₀, hmode⟩ := hpromote.mp hdecision
    rw [hready₀] at hready
    rw [hfail₀] at hfail
    exact (evaluateRollout_promote_iff h').mpr
      ⟨List.sublist_nil.mp hready, List.sublist_nil.mp hfail, hdom.canary hmode⟩
  · intro hdecision'
    have hne : failures baseline candidate requirements ≠ [] := by
      intro hnil
      rw [hnil] at hfail
      exact (hrollback'.mp hdecision').2 (List.sublist_nil.mp hfail)
    rw [hcontrols' hdecision']
    by_cases hr : readiness candidate requirements = []
    · left
      have hdecision := hrollback.mpr ⟨hr, hne⟩
      exact ⟨hdecision, hcontrols hdecision ▸ hfail⟩
    · right
      refine ⟨?_, hr, hfail⟩
      cases haction : decision.action with
      | hold => rfl
      | promote => exact absurd (hpromote.mp haction).1 hr
      | rollback => exact absurd (hrollback.mp haction).1 hr

end Comparison

theorem evaluateRollout_mono_more_samples :
    ∃ decision decision',
      evaluateRollout ⟨"stable", .canary, true, 10000, (9 / 10 : ℚ), 8 / 10, 1 / 10, 330, 1 / 1000⟩
        ⟨"next", .canary, true, 100, 89 / 100, 2, 1 / 10, 350, 2 / 1000⟩
        ⟨500, 86 / 100, 3 / 100, 1, 15 / 100, 95 / 100, 1 / 100⟩ = .ok decision ∧
      evaluateRollout ⟨"stable", .canary, true, 10000, (9 / 10 : ℚ), 8 / 10, 1 / 10, 330, 1 / 1000⟩
        ⟨"next", .canary, true, 1000, 89 / 100, 2, 1 / 10, 350, 2 / 1000⟩
        ⟨500, 86 / 100, 3 / 100, 1, 15 / 100, 95 / 100, 1 / 100⟩ = .ok decision' ∧
      (decision.action = .promote → decision'.action = .promote) := by
  have hrun : evaluateRollout
      ⟨"stable", .canary, true, 10000, (9 / 10 : ℚ), 8 / 10, 1 / 10, 330, 1 / 1000⟩
      ⟨"next", .canary, true, 100, 89 / 100, 2, 1 / 10, 350, 2 / 1000⟩
      ⟨500, 86 / 100, 3 / 100, 1, 15 / 100, 95 / 100, 1 / 100⟩ =
        .ok ⟨.hold, ["candidate sample is below the independent minimum"]⟩ := by
    decide +kernel
  have hrun' : evaluateRollout
      ⟨"stable", .canary, true, 10000, (9 / 10 : ℚ), 8 / 10, 1 / 10, 330, 1 / 1000⟩
      ⟨"next", .canary, true, 1000, 89 / 100, 2, 1 / 10, 350, 2 / 1000⟩
      ⟨500, 86 / 100, 3 / 100, 1, 15 / 100, 95 / 100, 1 / 100⟩ =
        .ok ⟨.rollback, ["p95 TTFT exceeds rollout objective"]⟩ := by
    decide +kernel
  refine ⟨_, _, hrun, hrun', (evaluateRollout_mono hrun hrun' ⟨le_rfl, le_rfl⟩ ?_ ?_).1⟩
  · exact ⟨id, id, by decide, le_rfl, le_rfl, le_rfl, le_rfl, le_rfl⟩
  · exact .refl _

end Rollouts

namespace Quantization

open PythonBuiltins Rollouts

structure Dominates (candidate' candidate : QuantizationMeasurement ℚ) : Prop where
  supported : candidate.hardwareSupported = true → candidate'.hardwareSupported = true
  quality : candidate.qualityScore ≤ candidate'.qualityScore
  memory : candidate'.weightMemoryGib ≤ candidate.weightMemoryGib
  ttft : candidate'.p95TtftSeconds ≤ candidate.p95TtftSeconds
  throughput : candidate.outputTokensPerSecond ≤ candidate'.outputTokensPerSecond

structure EasierBaseline (baseline' baseline : QuantizationMeasurement ℚ) : Prop where
  quality : baseline'.qualityScore ≤ baseline.qualityScore
  throughput : baseline'.outputTokensPerSecond ≤ baseline.outputTokensPerSecond

structure Relaxes (requirements' requirements : QuantizationRequirements ℚ) : Prop where
  quality : requirements'.minQualityScore ≤ requirements.minQualityScore
  quality_drop : requirements.maxQualityDrop ≤ requirements'.maxQualityDrop
  memory : requirements.maxWeightMemoryGib ≤ requirements'.maxWeightMemoryGib
  ttft : requirements.maxP95TtftSeconds ≤ requirements'.maxP95TtftSeconds
  throughput : requirements'.minRelativeThroughput ≤ requirements.minRelativeThroughput

section Comparison

variable {baseline baseline' candidate candidate' : QuantizationMeasurement ℚ}
  {requirements requirements' : QuantizationRequirements ℚ}
  {decision decision' : QuantizationDecision ℚ}

theorem throughput_pos (h : validateMeasurement baseline = .ok ()) :
    0 < baseline.outputTokensPerSecond := by
  unfold validateMeasurement at h
  simp only [Except.ite_throw_eq_ok_iff, not_or, not_le] at h
  exact h.2.2.1.2

/-- What a decision reports, and the throughputs behind it. -/
theorem evaluateQuantization_spec
    (h : evaluateQuantization baseline candidate requirements = .ok decision) :
    (0 < baseline.outputTokensPerSecond ∧ 0 < candidate.outputTokensPerSecond) ∧
    decision.qualityDrop = baseline.qualityScore - candidate.qualityScore ∧
    decision.relativeThroughput =
      candidate.outputTokensPerSecond / baseline.outputTokensPerSecond ∧
    (decision.action = .stage ↔ reasons baseline candidate requirements = []) ∧
    (decision.action = .reject → decision.reasons = reasons baseline candidate requirements) := by
  obtain ⟨_, hbaseline, h⟩ := Except.bind_eq_ok_iff.mp h
  obtain ⟨_, hcandidate, h⟩ := Except.bind_eq_ok_iff.mp h
  obtain ⟨_, -, h⟩ := Except.bind_eq_ok_iff.mp h
  obtain rfl := Except.ok.inj h
  refine ⟨⟨throughput_pos hbaseline, throughput_pos hcandidate⟩, rfl, rfl, ?_⟩
  by_cases hreasons : reasons baseline candidate requirements = []
  · simp [hreasons]
  · simp [hreasons]

/-- A better candidate, an easier baseline and looser requirements keep a staging, and the reasons
of a rejection are among those there were before. -/
theorem evaluateQuantization_mono
    (h : evaluateQuantization baseline candidate requirements = .ok decision)
    (h' : evaluateQuantization baseline' candidate' requirements' = .ok decision')
    (heasier : EasierBaseline baseline' baseline) (hdom : Dominates candidate' candidate)
    (hrelax : Relaxes requirements' requirements) :
    decision'.qualityDrop ≤ decision.qualityDrop ∧
    decision.relativeThroughput ≤ decision'.relativeThroughput ∧
    (decision.action = .stage → decision'.action = .stage) ∧
    (decision'.action = .reject →
      decision.action = .reject ∧ decision'.reasons.Sublist decision.reasons) := by
  obtain ⟨⟨-, hcandidate⟩, hdrop, hrelative, hstage, hreject⟩ := evaluateQuantization_spec h
  obtain ⟨⟨hbaseline', -⟩, hdrop', hrelative', hstage', hreject'⟩ := evaluateQuantization_spec h'
  have hquality : baseline'.qualityScore - candidate'.qualityScore ≤
      baseline.qualityScore - candidate.qualityScore :=
    sub_le_sub heasier.quality hdom.quality
  have hthroughput : candidate.outputTokensPerSecond / baseline.outputTokensPerSecond ≤
      candidate'.outputTokensPerSecond / baseline'.outputTokensPerSecond :=
    div_le_div₀ (hcandidate.le.trans hdom.throughput) hdom.throughput hbaseline' heasier.throughput
  have hreasons : (reasons baseline' candidate' requirements').Sublist
      (reasons baseline candidate requirements) := by
    refine (((((deciding_sublist ?_ _).append (deciding_sublist ?_ _)).append
      (deciding_sublist ?_ _)).append (deciding_sublist ?_ _)).append
        (deciding_sublist ?_ _)).append (deciding_sublist ?_ _)
    · intro hunsupported
      by_contra hsupported
      rw [Bool.not_eq_false] at hsupported
      rw [hdom.supported hsupported] at hunsupported
      cases hunsupported
    · exact fun hlt => (hdom.quality.trans_lt hlt).trans_le hrelax.quality
    · exact fun hlt => hrelax.quality_drop.trans_lt (hlt.trans_le hquality)
    · exact fun hlt => hrelax.memory.trans_lt (hlt.trans_le hdom.memory)
    · exact fun hlt => hrelax.ttft.trans_lt (hlt.trans_le hdom.ttft)
    · exact fun hlt => (hthroughput.trans_lt hlt).trans_le hrelax.throughput
  refine ⟨?_, ?_, ?_, ?_⟩
  · rwa [hdrop, hdrop']
  · rwa [hrelative, hrelative']
  · intro hstaged
    rw [hstage.mp hstaged] at hreasons
    exact hstage'.mpr (List.sublist_nil.mp hreasons)
  · intro hrejected
    have hnot : decision.action = .reject := by
      cases haction : decision.action with
      | reject => rfl
      | stage =>
          rw [hstage.mp haction] at hreasons
          rw [hstage'.mpr (List.sublist_nil.mp hreasons)] at hrejected
          cases hrejected
    exact ⟨hnot, by rwa [hreject' hrejected, hreject hnot]⟩

end Comparison

theorem evaluateQuantization_mono_smaller :
    ∃ decision decision',
      evaluateQuantization ⟨"bf16", 16, true, (9 / 10 : ℚ), 60, 1, 100⟩
        ⟨"int4", 4, true, 88 / 100, 50, 1, 120⟩ ⟨85 / 100, 5 / 100, 40, 2, 1⟩ = .ok decision ∧
      evaluateQuantization ⟨"bf16", 16, true, (9 / 10 : ℚ), 60, 1, 100⟩
        ⟨"int4", 4, true, 88 / 100, 20, 1, 120⟩ ⟨85 / 100, 5 / 100, 40, 2, 1⟩ = .ok decision' ∧
      decision'.qualityDrop ≤ decision.qualityDrop := by
  have hrun : evaluateQuantization ⟨"bf16", 16, true, (9 / 10 : ℚ), 60, 1, 100⟩
      ⟨"int4", 4, true, 88 / 100, 50, 1, 120⟩ ⟨85 / 100, 5 / 100, 40, 2, 1⟩ =
        .ok ⟨.reject, 2 / 100, 12 / 10, ["weight memory exceeds budget"]⟩ := by
    decide +kernel
  have hrun' : evaluateQuantization ⟨"bf16", 16, true, (9 / 10 : ℚ), 60, 1, 100⟩
      ⟨"int4", 4, true, 88 / 100, 20, 1, 120⟩ ⟨85 / 100, 5 / 100, 40, 2, 1⟩ =
        .ok ⟨.stage, 2 / 100, 12 / 10, ["all measured staging gates passed"]⟩ := by
    decide +kernel
  refine ⟨_, _, hrun, hrun', (evaluateQuantization_mono hrun hrun' ⟨le_rfl, le_rfl⟩ ?_ ?_).1⟩
  · exact ⟨id, le_rfl, by norm_num, le_rfl, le_rfl⟩
  · exact ⟨le_rfl, le_rfl, le_rfl, le_rfl, le_rfl⟩

end Quantization
