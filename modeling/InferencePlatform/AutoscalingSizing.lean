import InferencePlatform.AutoscalingEvidence

/-!
# Capacity of the calculated demand

The demand of an observation is the sum of two replica counts, each rounded up, clamped to the
policy bounds. Below the upper bound nothing of the sum is lost, so the two shares serve the
arrivals and drain the backlog. Above the lower bound nothing is added to the sum, so only the
two roundings separate it from the exact requirement.
-/

namespace Autoscaling

section Sizing

variable (policy : AutoscalingPolicy) (observation : ScaleObservation)

/-- Replicas for the arrivals, at the target utilization. -/
def rateReplicas : ℤ :=
  ⌈observation.arrivalTokensPerSecond /
    (policy.serviceTokensPerSecondPerReplica * policy.targetUtilization)⌉

/-- Replicas that clear the backlog inside the drain window. -/
def queueReplicas : ℤ :=
  ⌈observation.queuedTokens /
    (policy.serviceTokensPerSecondPerReplica * policy.queueDrainSeconds)⌉

theorem demand_eq_clamp : demand policy observation =
    clamp policy (rateReplicas policy observation + queueReplicas policy observation) := rfl

variable {policy observation} {observations : List ScaleObservation} {now : ℚ}

theorem le_clamp_of_lt_max {target : ℤ} (h : clamp policy target < policy.maxReplicas) :
    target ≤ clamp policy target := by
  rw [clamp] at h ⊢
  omega

theorem clamp_le_of_min_lt {target : ℤ} (h : policy.minReplicas < clamp policy target) :
    clamp policy target ≤ target := by
  rw [clamp] at h ⊢
  omega

theorem InputsAccepted.arrival_le_rateReplicas (h : InputsAccepted observations policy now) :
    observation.arrivalTokensPerSecond ≤ rateReplicas policy observation *
      (policy.serviceTokensPerSecondPerReplica * policy.targetUtilization) := by
  rw [← div_le_iff₀ (mul_pos h.service_pos h.utilization_pos)]
  exact Int.le_ceil _

theorem InputsAccepted.queued_le_queueReplicas (h : InputsAccepted observations policy now) :
    (observation.queuedTokens : ℚ) ≤ queueReplicas policy observation *
      (policy.serviceTokensPerSecondPerReplica * policy.queueDrainSeconds) := by
  rw [← div_le_iff₀ (mul_pos h.service_pos h.drain_pos)]
  exact Int.le_ceil _

theorem InputsAccepted.rateReplicas_nonneg (h : InputsAccepted observations policy now)
    (ho : observation ∈ observations) : 0 ≤ rateReplicas policy observation :=
  Int.ceil_nonneg (div_nonneg (h.arrival_nonneg observation ho)
    (mul_pos h.service_pos h.utilization_pos).le)

theorem InputsAccepted.queueReplicas_nonneg (h : InputsAccepted observations policy now)
    (ho : observation ∈ observations) : 0 ≤ queueReplicas policy observation :=
  Int.ceil_nonneg (div_nonneg (by exact_mod_cast h.queued_nonneg observation ho)
    (mul_pos h.service_pos h.drain_pos).le)

/-- `n` replicas that include both shares serve the arrivals at the target utilization, and clear
the backlog on top of the arrivals at the full rate. -/
theorem InputsAccepted.sufficient_of_le (h : InputsAccepted observations policy now)
    (ho : observation ∈ observations) {n : ℤ}
    (hn : rateReplicas policy observation + queueReplicas policy observation ≤ n) :
    observation.arrivalTokensPerSecond * policy.queueDrainSeconds + observation.queuedTokens ≤
        n * policy.serviceTokensPerSecondPerReplica * policy.queueDrainSeconds ∧
      observation.arrivalTokensPerSecond ≤
        n * policy.serviceTokensPerSecondPerReplica * policy.targetUtilization := by
  have harrival : observation.arrivalTokensPerSecond ≤ _ := h.arrival_le_rateReplicas
  have hqueued : (observation.queuedTokens : ℚ) ≤ _ := h.queued_le_queueReplicas
  have hrate := h.rateReplicas_nonneg ho
  have hqueue := h.queueReplicas_nonneg ho
  generalize rateReplicas policy observation = rate at *
  generalize queueReplicas policy observation = queue at *
  have hservice := h.service_pos.le
  have hdrain := h.drain_pos.le
  have hsum : (rate : ℚ) + queue ≤ n := by exact_mod_cast hn
  have hrate_le : (rate : ℚ) ≤ n := by exact_mod_cast (by omega : rate ≤ n)
  have hrate_nonneg : (0 : ℚ) ≤ rate := by exact_mod_cast hrate
  constructor
  · have hfull : observation.arrivalTokensPerSecond ≤
        rate * policy.serviceTokensPerSecondPerReplica :=
      harrival.trans (mul_le_mul_of_nonneg_left
        (mul_le_of_le_one_right hservice h.utilization_le_one) hrate_nonneg)
    calc observation.arrivalTokensPerSecond * policy.queueDrainSeconds + observation.queuedTokens
        ≤ rate * policy.serviceTokensPerSecondPerReplica * policy.queueDrainSeconds +
            queue * (policy.serviceTokensPerSecondPerReplica * policy.queueDrainSeconds) :=
          add_le_add (mul_le_mul_of_nonneg_right hfull hdrain) hqueued
      _ = (rate + queue) * (policy.serviceTokensPerSecondPerReplica *
            policy.queueDrainSeconds) := by ring
      _ ≤ n * (policy.serviceTokensPerSecondPerReplica * policy.queueDrainSeconds) :=
          mul_le_mul_of_nonneg_right hsum (mul_nonneg hservice hdrain)
      _ = n * policy.serviceTokensPerSecondPerReplica * policy.queueDrainSeconds := by ring
  · calc observation.arrivalTokensPerSecond
        ≤ rate * (policy.serviceTokensPerSecondPerReplica * policy.targetUtilization) := harrival
      _ ≤ n * (policy.serviceTokensPerSecondPerReplica * policy.targetUtilization) :=
          mul_le_mul_of_nonneg_right hrate_le (mul_nonneg hservice h.utilization_pos.le)
      _ = n * policy.serviceTokensPerSecondPerReplica * policy.targetUtilization := by ring

/-- Below the upper bound the demand suffices; above the lower one it is tight up to rounding. -/
theorem demand_sufficient_and_tight {state : ScaleState}
    (haccepted : validate observations state policy now = .ok ())
    (ho : observation ∈ observations) :
    (demand policy observation < policy.maxReplicas →
      observation.arrivalTokensPerSecond * policy.queueDrainSeconds + observation.queuedTokens ≤
        demand policy observation * policy.serviceTokensPerSecondPerReplica *
          policy.queueDrainSeconds ∧
      observation.arrivalTokensPerSecond ≤
        demand policy observation * policy.serviceTokensPerSecondPerReplica *
          policy.targetUtilization) ∧
    (policy.minReplicas < demand policy observation →
      (demand policy observation : ℚ) - 2 <
        observation.arrivalTokensPerSecond /
            (policy.serviceTokensPerSecondPerReplica * policy.targetUtilization) +
          observation.queuedTokens /
            (policy.serviceTokensPerSecondPerReplica * policy.queueDrainSeconds)) := by
  obtain ⟨h, -⟩ := validate_eq_ok_iff.mp haccepted
  rw [demand_eq_clamp]
  constructor
  · intro hlt
    exact h.sufficient_of_le ho (le_clamp_of_lt_max hlt)
  · intro hlt
    have hle : (clamp policy (rateReplicas policy observation +
        queueReplicas policy observation) : ℚ) ≤
          rateReplicas policy observation + queueReplicas policy observation := by
      exact_mod_cast clamp_le_of_min_lt hlt
    have hrate : (rateReplicas policy observation : ℚ) < _ + 1 := Int.ceil_lt_add_one _
    have hqueue : (queueReplicas policy observation : ℚ) < _ + 1 := Int.ceil_lt_add_one _
    linarith

theorem demand_sufficient_and_tight_steady :
    demand samplePolicy ⟨60, 500, 100, 1 / 10⟩ = 3 ∧
      (100 : ℚ) * 10 + 500 ≤ demand samplePolicy ⟨60, 500, 100, 1 / 10⟩ * 100 * 10 := by
  have haccepted : validate [⟨60, 500, 100, 1 / 10⟩] ⟨3, 3, 0, 0⟩ samplePolicy 60 = .ok () := by
    decide +kernel
  have hall := demand_sufficient_and_tight haccepted List.mem_cons_self
  exact ⟨by decide +kernel, (hall.1 (by decide +kernel)).1⟩

end Sizing

end Autoscaling
