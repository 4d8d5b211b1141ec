import InferencePlatform.CapacityGrowth

/-!
# The price of a token in a growing fleet

Fleets come in whole replicas and never below the replica floor, so a token can cost more than the
replica seconds it uses. The least price is that of a fleet cut to fractional replicas. No fleet
gets below it, growth takes the price towards it, and a multiple of the traffic never costs more
per token.
-/

namespace Capacity

open PythonBuiltins

section Cost

variable (workloads : List WorkloadClass) (benchmark : ReplicaBenchmark)
  (requirements : CapacityRequirements)

/-- The replicas that the workload fills, before rounding and without the floor. -/
def fractionalReplicas : ℚ :=
  let usable := 1 - requirements.reservedHeadroomFraction
  max (promptTokensPerSecond workloads / (benchmark.prefillTokensPerSecond * usable))
    (max (outputTokensPerSecond workloads / (benchmark.outputTokensPerSecond * usable))
      (concurrentRequests workloads / (benchmark.maxConcurrentRequests * usable)))

/-- The cost of a million output tokens served by `replicas` replicas. -/
def tokenPrice (replicas : ℚ) : ℚ :=
  replicas * benchmark.hourlyCost / (outputTokensPerSecond workloads * 3600) * 1000000

variable {workloads benchmark requirements} {plan grown : CapacityPlan} {g x y : ℚ}

theorem planCapacity_cost (h : planCapacity workloads benchmark requirements = .ok plan) :
    plan.costPerMillionOutputTokens = tokenPrice workloads benchmark plan.requiredReplicas := by
  obtain ⟨_, -, h⟩ := Except.bind_eq_ok_iff.mp h
  obtain ⟨replicas, -, h⟩ := Except.bind_eq_ok_iff.mp h
  obtain ⟨bottleneck, -, h⟩ := Except.bind_eq_ok_iff.mp h
  obtain rfl := Except.ok.inj h
  rfl

theorem Accepted.tokenPrice_mono (h : Accepted workloads benchmark requirements) (hxy : x ≤ y) :
    tokenPrice workloads benchmark x ≤ tokenPrice workloads benchmark y := by
  have houtput := h.outputTokensPerSecond_pos
  have hcost := h.cost_nonneg
  unfold tokenPrice
  gcongr

theorem tokenPrice_add : tokenPrice workloads benchmark (x + y) =
    tokenPrice workloads benchmark x + tokenPrice workloads benchmark y := by
  unfold tokenPrice
  ring

/-- Replicas and traffic that grow by one factor leave the price where it is. -/
theorem tokenPrice_grow (hg : 0 < g) : tokenPrice (workloads.map (grow g)) benchmark (g * x) =
    tokenPrice workloads benchmark x := by
  unfold tokenPrice
  rw [outputTokensPerSecond_grow, mul_assoc g, mul_assoc g, mul_div_mul_left _ _ hg.ne']

theorem fractionalReplicas_grow (hg : 0 ≤ g) :
    fractionalReplicas (workloads.map (grow g)) benchmark requirements =
      g * fractionalReplicas workloads benchmark requirements := by
  simp only [fractionalReplicas, promptTokensPerSecond_grow, outputTokensPerSecond_grow,
    concurrentRequests_grow, mul_div_assoc, mul_max_of_nonneg _ _ hg]

theorem Sized.required_le_iff (h : Sized workloads benchmark requirements plan) {n : ℤ} :
    plan.requiredReplicas ≤ n ↔
      ∀ dimension ∈ dimensions workloads benchmark requirements, ⌈dimension.2⌉ ≤ n := by
  constructor
  · exact fun hle dimension hdimension => (h.required.2 ⟨dimension, hdimension, rfl⟩).trans hle
  · intro hall
    obtain ⟨dimension, hdimension, hceil⟩ := h.required.1
    exact hceil ▸ hall dimension hdimension

/-- The required fleet is the fractional one rounded up, or the floor. -/
theorem Sized.required_eq (h : Sized workloads benchmark requirements plan) :
    plan.requiredReplicas = max requirements.minReplicas
      ⌈fractionalReplicas workloads benchmark requirements⌉ := by
  refine eq_of_forall_ge_iff fun n => ?_
  rw [h.required_le_iff, max_le_iff, Int.ceil_le]
  simp only [dimensions, fractionalReplicas, List.forall_mem_cons, List.not_mem_nil,
    false_implies, implies_true, and_true, Int.ceil_le, Int.cast_le, max_le_iff]

theorem tokenPrice_div :
    tokenPrice workloads benchmark (x / g) = tokenPrice workloads benchmark x / g := by
  unfold tokenPrice
  ring

theorem map_grow_mul {k : ℚ} :
    workloads.map (grow (k * g)) = (workloads.map (grow g)).map (grow k) := by
  rw [List.map_map]
  exact List.map_congr_left fun item _ => by simp only [grow, Function.comp, mul_assoc]

/-- No fleet is cheaper per token than a fleet of fractional replicas. -/
theorem tokenPrice_le_cost (h : planCapacity workloads benchmark requirements = .ok plan) :
    tokenPrice workloads benchmark (fractionalReplicas workloads benchmark requirements) ≤
      plan.costPerMillionOutputTokens := by
  rw [planCapacity_cost h, (planCapacity_sized h).required_eq]
  apply (planCapacity_spec h).1.tokenPrice_mono
  exact (Int.le_ceil _).trans (by exact_mod_cast le_max_right _ _)

/-- Past the floor, rounding costs less than one replica. -/
theorem cost_le_tokenPrice (h : planCapacity workloads benchmark requirements = .ok plan)
    (hfilled : requirements.minReplicas ≤ fractionalReplicas workloads benchmark requirements) :
    plan.costPerMillionOutputTokens ≤
      tokenPrice workloads benchmark (fractionalReplicas workloads benchmark requirements) +
        tokenPrice workloads benchmark 1 := by
  have hfloor : requirements.minReplicas ≤
      ⌈fractionalReplicas workloads benchmark requirements⌉ :=
    Int.cast_le.mp (hfilled.trans (Int.le_ceil _))
  rw [planCapacity_cost h, (planCapacity_sized h).required_eq, max_eq_right hfloor,
    ← tokenPrice_add]
  exact (planCapacity_spec h).1.tokenPrice_mono (Int.ceil_lt_add_one _).le

/-- Fleets side by side serve a multiple of the traffic, at the same price. -/
theorem cost_multiple_le (h : planCapacity workloads benchmark requirements = .ok plan) {k : ℕ}
    (hk : 1 ≤ k) :
    ∃ more, planCapacity (workloads.map (grow k)) benchmark requirements = .ok more ∧
      more.requiredReplicas ≤ k * plan.requiredReplicas ∧
      more.costPerMillionOutputTokens ≤ plan.costPerMillionOutputTokens := by
  have hk' : (1 : ℚ) ≤ k := by exact_mod_cast hk
  have haccepted := (planCapacity_spec h).1.grow hk'
  obtain ⟨more, hmore⟩ := exists_planCapacity haccepted
  have hrequired : more.requiredReplicas ≤ k * plan.requiredReplicas := by
    have hplan := (planCapacity_sized h).required_eq.ge
    rw [max_le_iff, Int.ceil_le] at hplan
    rw [(planCapacity_sized hmore).required_eq, max_le_iff, Int.ceil_le,
      fractionalReplicas_grow (zero_le_one.trans hk')]
    constructor
    · have hmin := (planCapacity_spec h).1.min_pos
      nlinarith [hplan.1]
    · push_cast
      exact mul_le_mul_of_nonneg_left hplan.2 (zero_le_one.trans hk')
  have hprice : tokenPrice (workloads.map (grow k)) benchmark (k * plan.requiredReplicas) =
      tokenPrice workloads benchmark plan.requiredReplicas :=
    tokenPrice_grow (zero_lt_one.trans_le hk')
  refine ⟨more, hmore, hrequired, ?_⟩
  rw [planCapacity_cost h, planCapacity_cost hmore, ← hprice]
  apply haccepted.tokenPrice_mono
  exact_mod_cast hrequired

/-- Growing traffic takes the price of a token towards the least price, and no fleet is cheaper.
A multiple of the traffic needs at most that multiple of the fleet. -/
theorem tokenPrice_of_growth (h : planCapacity workloads benchmark requirements = .ok plan)
    (hg : 1 ≤ g) :
    ∃ grown, planCapacity (workloads.map (grow g)) benchmark requirements = .ok grown ∧
      tokenPrice workloads benchmark (fractionalReplicas workloads benchmark requirements) ≤
        grown.costPerMillionOutputTokens ∧
      (requirements.minReplicas ≤ g * fractionalReplicas workloads benchmark requirements →
        grown.costPerMillionOutputTokens ≤
          tokenPrice workloads benchmark (fractionalReplicas workloads benchmark requirements) +
            tokenPrice workloads benchmark 1 / g) ∧
      ∀ k : ℕ, 1 ≤ k → ∃ more,
        planCapacity (workloads.map (grow (k * g))) benchmark requirements = .ok more ∧
          more.requiredReplicas ≤ k * grown.requiredReplicas ∧
          more.costPerMillionOutputTokens ≤ grown.costPerMillionOutputTokens := by
  have hg' : 0 < g := zero_lt_one.trans_le hg
  obtain ⟨grown, hgrown⟩ := exists_planCapacity ((planCapacity_spec h).1.grow hg)
  refine ⟨grown, hgrown, ?_, ?_, ?_⟩
  · rw [← tokenPrice_grow hg', ← fractionalReplicas_grow hg'.le]
    exact tokenPrice_le_cost hgrown
  · intro hfilled
    rw [← fractionalReplicas_grow hg'.le] at hfilled
    have hcost := cost_le_tokenPrice hgrown hfilled
    rwa [fractionalReplicas_grow hg'.le, tokenPrice_grow hg', ← mul_div_cancel₀ 1 hg'.ne',
      tokenPrice_grow hg', tokenPrice_div] at hcost
  · intro k hk
    rw [map_grow_mul]
    exact cost_multiple_le hgrown hk

end Cost

/-- One and a half replicas of decode, sold in whole replicas. -/
theorem tokenPrice_of_growth_sample :
    ∃ grown, planCapacity (sampleWorkloads.map (grow 3)) sampleBenchmark sampleRequirements =
        .ok grown ∧ 50 / 9 ≤ grown.costPerMillionOutputTokens := by
  have h : planCapacity sampleWorkloads sampleBenchmark sampleRequirements =
      .ok ⟨true, 2, "minimum replica floor", ["decode tokens", "minimum replica floor"], 150, 150,
        3 / 2, 0, 4, 200 / 27, []⟩ := by
    decide +kernel
  obtain ⟨grown, hgrown, hle, -⟩ := tokenPrice_of_growth h (show (1 : ℚ) ≤ 3 by norm_num)
  exact ⟨grown, hgrown, le_trans (by decide +kernel) hle⟩

end Capacity
