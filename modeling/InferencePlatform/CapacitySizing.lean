import InferencePlatform.Capacity

/-!
# The constraints behind a fleet size

Every dimension of the plan stands for one constraint on the fleet: `n` replicas violate the
constraint exactly when the demand of the dimension exceeds `n`. The required fleet is therefore
the least one that violates none, and the binding dimensions are the constraints that the next
smaller fleet violates.
-/

namespace Capacity

open PythonBuiltins

section Constraints

variable (workloads : List WorkloadClass) (benchmark : ReplicaBenchmark)
  (requirements : CapacityRequirements)

/-- The constraints that a fleet of `n` replicas violates. -/
inductive Shortfall (n : ℤ) : String → Prop
  | floor (h : n < requirements.minReplicas) : Shortfall n "minimum replica floor"
  | prefill (h : n * benchmark.prefillTokensPerSecond *
      (1 - requirements.reservedHeadroomFraction) < promptTokensPerSecond workloads) :
      Shortfall n "prefill tokens"
  | decode (h : n * benchmark.outputTokensPerSecond *
      (1 - requirements.reservedHeadroomFraction) < outputTokensPerSecond workloads) :
      Shortfall n "decode tokens"
  | concurrency (h : n * benchmark.maxConcurrentRequests *
      (1 - requirements.reservedHeadroomFraction) < concurrentRequests workloads) :
      Shortfall n "request concurrency"

/-- What the planner decides, in terms of the dimensions. -/
structure Sized (plan : CapacityPlan) : Prop where
  required : IsGreatest {n | ∃ dimension ∈ dimensions workloads benchmark requirements,
    ⌈dimension.2⌉ = n} plan.requiredReplicas
  binding : ∀ name, name ∈ plan.bindingDimensions ↔
    ∃ dimension ∈ dimensions workloads benchmark requirements,
      ⌈dimension.2⌉ = plan.requiredReplicas ∧ dimension.1 = name
  bottleneck : ∃ dimension ∈ dimensions workloads benchmark requirements,
    ⌈dimension.2⌉ = plan.requiredReplicas ∧ dimension.1 = plan.bottleneck ∧
      ∀ other ∈ dimensions workloads benchmark requirements,
        ⌈other.2⌉ = plan.requiredReplicas →
          toLex (other.2, other.1) ≤ toLex (dimension.2, dimension.1)

variable {workloads benchmark requirements}

theorem mem_dimensions {dimension : String × ℚ} :
    dimension ∈ dimensions workloads benchmark requirements ↔
      dimension = ("minimum replica floor", (requirements.minReplicas : ℚ)) ∨
      dimension = ("prefill tokens", promptTokensPerSecond workloads /
        (benchmark.prefillTokensPerSecond * (1 - requirements.reservedHeadroomFraction))) ∨
      dimension = ("decode tokens", outputTokensPerSecond workloads /
        (benchmark.outputTokensPerSecond * (1 - requirements.reservedHeadroomFraction))) ∨
      dimension = ("request concurrency", concurrentRequests workloads /
        (benchmark.maxConcurrentRequests * (1 - requirements.reservedHeadroomFraction))) := by
  simp only [dimensions, List.mem_cons, List.not_mem_nil, or_false]

theorem Accepted.shortfall_iff (h : Accepted workloads benchmark requirements) (n : ℤ)
    (name : String) : Shortfall workloads benchmark requirements n name ↔
      ∃ dimension ∈ dimensions workloads benchmark requirements,
        n < ⌈dimension.2⌉ ∧ dimension.1 = name := by
  have hquotient {demand rate : ℚ} (hrate : 0 < rate *
      (1 - requirements.reservedHeadroomFraction)) :
      n < ⌈demand / (rate * (1 - requirements.reservedHeadroomFraction))⌉ ↔
        n * rate * (1 - requirements.reservedHeadroomFraction) < demand := by
    rw [Int.lt_ceil, lt_div_iff₀ hrate, mul_assoc]
  constructor
  · rintro (hlt | hlt | hlt | hlt)
    · exact ⟨_, mem_dimensions.mpr (Or.inl rfl), by rwa [Int.ceil_intCast], rfl⟩
    · exact ⟨_, mem_dimensions.mpr (Or.inr (Or.inl rfl)),
        (hquotient h.prefill_rate_pos).mpr hlt, rfl⟩
    · exact ⟨_, mem_dimensions.mpr (Or.inr (Or.inr (Or.inl rfl))),
        (hquotient h.decode_rate_pos).mpr hlt, rfl⟩
    · exact ⟨_, mem_dimensions.mpr (Or.inr (Or.inr (Or.inr rfl))),
        (hquotient h.slots_rate_pos).mpr hlt, rfl⟩
  · rintro ⟨dimension, hmem, hlt, rfl⟩
    rcases mem_dimensions.mp hmem with rfl | rfl | rfl | rfl
    · exact .floor (by rwa [Int.ceil_intCast] at hlt)
    · exact .prefill ((hquotient h.prefill_rate_pos).mp hlt)
    · exact .decode ((hquotient h.decode_rate_pos).mp hlt)
    · exact .concurrency ((hquotient h.slots_rate_pos).mp hlt)

theorem planCapacity_sized {plan : CapacityPlan}
    (h : planCapacity workloads benchmark requirements = .ok plan) :
    Sized workloads benchmark requirements plan := by
  unfold planCapacity at h
  obtain ⟨_, -, h⟩ := Except.bind_eq_ok_iff.mp h
  obtain ⟨replicas, hreplicas, h⟩ := Except.bind_eq_ok_iff.mp h
  obtain ⟨bottleneck, hbottleneck, h⟩ := Except.bind_eq_ok_iff.mp h
  obtain rfl := Except.ok.inj h
  obtain ⟨hattained, hmax⟩ := maxBy_spec hreplicas
  obtain ⟨hbinds, hfirst⟩ := maxBy_spec hbottleneck
  constructor
  case required =>
    refine ⟨List.mem_map.mp hattained, ?_⟩
    rintro _ ⟨dimension, hmem, rfl⟩
    exact hmax _ (List.mem_map_of_mem hmem)
  case binding =>
    intro name
    simp only [List.mem_map, mem_sortedBy, List.mem_filter, decide_eq_true_eq, and_assoc]
  case bottleneck =>
    rw [mem_sortedBy, List.mem_filter, decide_eq_true_eq] at hbinds
    refine ⟨bottleneck, hbinds.1, hbinds.2, rfl, ?_⟩
    intro other hmem hceil
    apply hfirst
    rw [mem_sortedBy, List.mem_filter, decide_eq_true_eq]
    exact ⟨hmem, hceil⟩

theorem exists_planCapacity (h : Accepted workloads benchmark requirements) :
    ∃ plan, planCapacity workloads benchmark requirements = .ok plan := by
  have hvalid := (validate_eq_ok_iff workloads benchmark requirements).mpr h
  have hfloor : ("minimum replica floor", (requirements.minReplicas : ℚ)) ∈
      dimensions workloads benchmark requirements := mem_dimensions.mpr (Or.inl rfl)
  obtain ⟨replicas, hreplicas⟩ := exists_maxBy id (List.mem_map_of_mem
    (f := fun dimension : String × ℚ => ⌈dimension.2⌉) hfloor)
  obtain ⟨dimension, hmem, hceil⟩ := List.mem_map.mp (maxBy_spec hreplicas).1
  have hbinding : dimension ∈ sortedBy Prod.fst ((dimensions workloads benchmark
      requirements).filter fun dimension => ⌈dimension.2⌉ = replicas) := by
    rw [mem_sortedBy, List.mem_filter, decide_eq_true_eq]
    exact ⟨hmem, hceil⟩
  obtain ⟨bottleneck, hbottleneck⟩ :=
    exists_maxBy (fun dimension => toLex (dimension.2, dimension.1)) hbinding
  exact ⟨_, Except.bind_eq_ok_iff.mpr ⟨(), hvalid, Except.bind_eq_ok_iff.mpr ⟨replicas, hreplicas,
    Except.bind_eq_ok_iff.mpr ⟨bottleneck, hbottleneck, rfl⟩⟩⟩⟩

/-- The fleet is the least sufficient one, and its binding dimensions are what makes it least. -/
theorem planCapacity_exact (hvalid : validate workloads benchmark requirements = .ok ()) :
    ∃ plan, planCapacity workloads benchmark requirements = .ok plan ∧
      (∀ n : ℤ, plan.requiredReplicas ≤ n ↔ Sufficient workloads benchmark requirements n) ∧
      plan.bindingDimensions ≠ [] ∧
      (∀ name, name ∈ plan.bindingDimensions ↔
        Shortfall workloads benchmark requirements (plan.requiredReplicas - 1) name) ∧
      plan.bottleneck ∈ plan.bindingDimensions ∧
      benchmark.prefillTokensPerSecond * (1 - requirements.reservedHeadroomFraction) ≠ 0 ∧
      benchmark.outputTokensPerSecond * (1 - requirements.reservedHeadroomFraction) ≠ 0 ∧
      benchmark.maxConcurrentRequests * (1 - requirements.reservedHeadroomFraction) ≠ 0 ∧
      outputTokensPerSecond workloads * 3600 ≠ 0 := by
  have h := (validate_eq_ok_iff workloads benchmark requirements).mp hvalid
  obtain ⟨plan, hplan⟩ := exists_planCapacity h
  have hsized := planCapacity_sized hplan
  obtain ⟨dimension, hmem, hceil, hname, -⟩ := hsized.bottleneck
  have hbottleneck : plan.bottleneck ∈ plan.bindingDimensions :=
    (hsized.binding _).mpr ⟨dimension, hmem, hceil, hname⟩
  refine ⟨plan, hplan, ?_, List.ne_nil_of_mem hbottleneck, ?_, hbottleneck,
    h.prefill_rate_pos.ne', h.decode_rate_pos.ne', h.slots_rate_pos.ne',
    mul_ne_zero h.outputTokensPerSecond_pos.ne' (by norm_num)⟩
  · intro n
    rw [h.sufficient_iff]
    constructor
    · intro hle dimension hmem
      exact (hsized.required.2 ⟨dimension, hmem, rfl⟩).trans hle
    · intro hall
      obtain ⟨dimension, hmem, hattained⟩ := hsized.required.1
      exact hattained ▸ hall dimension hmem
  · intro name
    rw [hsized.binding, h.shortfall_iff]
    refine exists_congr fun dimension => and_congr_right fun hmem => and_congr_left fun _ => ?_
    have hle : ⌈dimension.2⌉ ≤ plan.requiredReplicas := hsized.required.2 ⟨dimension, hmem, rfl⟩
    omega

end Constraints

/-! ### A service at one and a half replicas of decode -/

def sampleWorkloads : List WorkloadClass := [⟨"chat", 3 / 2, 100, 100, 1, 1⟩]

def sampleBenchmark : ReplicaBenchmark := ⟨"replica", 1000, 100, 4, 2⟩

def sampleRequirements : CapacityRequirements := ⟨2, 10, 0, 40⟩

theorem planCapacity_exact_sample :
    ∃ plan, planCapacity sampleWorkloads sampleBenchmark sampleRequirements = .ok plan ∧
      plan.bindingDimensions ≠ [] ∧ plan.bottleneck ∈ plan.bindingDimensions := by
  obtain ⟨plan, hplan, -, hne, -, hbottleneck, -⟩ := planCapacity_exact (by decide +kernel :
    validate sampleWorkloads sampleBenchmark sampleRequirements = .ok ())
  exact ⟨plan, hplan, hne, hbottleneck⟩

end Capacity
