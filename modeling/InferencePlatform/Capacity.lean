import InferencePlatform.PythonBuiltins
import Mathlib.Data.Prod.Lex

/-!
# Fleet sizing

`planCapacity` sizes a fleet from the burst-adjusted demand of the workload classes. Rates,
seconds, fractions and prices are exact rationals. `Accepted` collects what the validator lets
through, and `Sufficient` is the purpose of the sizing: a fleet that covers prefill, decode and
concurrency with the reserved headroom, and the replica floor.
-/

namespace Capacity

open PythonBuiltins

structure WorkloadClass where
  name : String
  requestsPerSecond : ℚ
  promptTokens : ℤ
  outputTokens : ℤ
  meanServiceSeconds : ℚ
  burstMultiplier : ℚ
  deriving DecidableEq, Repr

structure ReplicaBenchmark where
  name : String
  prefillTokensPerSecond : ℚ
  outputTokensPerSecond : ℚ
  maxConcurrentRequests : ℤ
  hourlyCost : ℚ
  deriving DecidableEq, Repr

structure CapacityRequirements where
  minReplicas : ℤ
  maxReplicas : ℤ
  reservedHeadroomFraction : ℚ
  maxHourlyCost : ℚ
  deriving DecidableEq, Repr

structure CapacityPlan where
  releaseReady : Bool
  requiredReplicas : ℤ
  bottleneck : String
  bindingDimensions : List String
  promptTokensPerSecond : ℚ
  outputTokensPerSecond : ℚ
  concurrentRequests : ℚ
  reservedHeadroomFraction : ℚ
  hourlyCost : ℚ
  costPerMillionOutputTokens : ℚ
  violations : List String
  deriving DecidableEq, Repr

def validate (workloads : List WorkloadClass) (benchmark : ReplicaBenchmark)
    (requirements : CapacityRequirements) : Except PyError Unit :=
  let names := workloads.map (·.name)
  if workloads = [] then
    throw (.valueError "at least one workload class is required")
  else if names.any isBlank ∨ names.dedup.length ≠ names.length then
    throw (.valueError "workload names must be present and unique")
  else if workloads.any (fun item =>
      item.requestsPerSecond < 0 ∨ pyMin item.promptTokens [item.outputTokens] < 0 ∨
        item.meanServiceSeconds ≤ 0 ∨ item.burstMultiplier < 1) then
    throw (.valueError "workload rates are invalid")
  else if (workloads.map fun item => (item.outputTokens : ℚ) * item.requestsPerSecond).sum ≤ 0 then
    throw (.valueError "positive output-token demand is required for cost normalization")
  else if isBlank benchmark.name ∨ pyMin benchmark.prefillTokensPerSecond
      [benchmark.outputTokensPerSecond, (benchmark.maxConcurrentRequests : ℚ)] ≤ 0 ∨
      benchmark.hourlyCost < 0 then
    throw (.valueError "benchmark capacities must be positive and cost non-negative")
  else if requirements.minReplicas ≤ 0 ∨ requirements.maxReplicas < requirements.minReplicas then
    throw (.valueError "replica requirements are invalid")
  else if ¬ (0 ≤ requirements.reservedHeadroomFraction ∧
      requirements.reservedHeadroomFraction < 1) then
    throw (.valueError "reserved headroom must be in [0, 1)")
  else if requirements.maxHourlyCost < 0 then
    throw (.valueError "hourly budget may not be negative")
  else pure ()

/-! ### Demand -/

def promptTokensPerSecond (workloads : List WorkloadClass) : ℚ :=
  (workloads.map fun item =>
    item.requestsPerSecond * (item.promptTokens : ℚ) * item.burstMultiplier).sum

def outputTokensPerSecond (workloads : List WorkloadClass) : ℚ :=
  (workloads.map fun item =>
    item.requestsPerSecond * (item.outputTokens : ℚ) * item.burstMultiplier).sum

def concurrentRequests (workloads : List WorkloadClass) : ℚ :=
  (workloads.map fun item =>
    item.requestsPerSecond * item.meanServiceSeconds * item.burstMultiplier).sum

section Planner

variable (workloads : List WorkloadClass) (benchmark : ReplicaBenchmark)
  (requirements : CapacityRequirements)

def dimensions : List (String × ℚ) :=
  let usable := 1 - requirements.reservedHeadroomFraction
  [("minimum replica floor", requirements.minReplicas),
    ("prefill tokens",
      promptTokensPerSecond workloads / (benchmark.prefillTokensPerSecond * usable)),
    ("decode tokens",
      outputTokensPerSecond workloads / (benchmark.outputTokensPerSecond * usable)),
    ("request concurrency",
      concurrentRequests workloads / (benchmark.maxConcurrentRequests * usable))]

/-- Names and demands of the dimensions travel together, so `dimensions[name]` is the demand. -/
def planCapacity : Except PyError CapacityPlan := do
  validate workloads benchmark requirements
  let outputTps := outputTokensPerSecond workloads
  let dimensions := dimensions workloads benchmark requirements
  let replicas ← maxBy id (dimensions.map fun dimension => ⌈dimension.2⌉)
  let binding := sortedBy Prod.fst (dimensions.filter fun dimension => ⌈dimension.2⌉ = replicas)
  let bottleneck ← maxBy (fun dimension => toLex (dimension.2, dimension.1)) binding
  let hourlyCost := replicas * benchmark.hourlyCost
  let costPerMillion := hourlyCost / (outputTps * 3600) * 1000000
  let violations :=
    (if requirements.maxReplicas < replicas then ["required replicas exceed fleet ceiling"]
      else []) ++
    (if requirements.maxHourlyCost < hourlyCost then
      ["required fleet exceeds hourly cost budget"] else [])
  pure ⟨violations = [], replicas, bottleneck.1, binding.map Prod.fst,
    promptTokensPerSecond workloads, outputTps, concurrentRequests workloads,
    requirements.reservedHeadroomFraction, hourlyCost, costPerMillion, violations⟩

/-- What the validator accepts. -/
structure Accepted : Prop where
  nonempty : workloads ≠ []
  named : ∀ item ∈ workloads, isBlank item.name = false
  unique : (workloads.map (·.name)).Nodup
  rate_nonneg : ∀ item ∈ workloads, 0 ≤ item.requestsPerSecond
  prompt_nonneg : ∀ item ∈ workloads, 0 ≤ item.promptTokens
  output_nonneg : ∀ item ∈ workloads, 0 ≤ item.outputTokens
  service_pos : ∀ item ∈ workloads, 0 < item.meanServiceSeconds
  burst_ge_one : ∀ item ∈ workloads, 1 ≤ item.burstMultiplier
  demand_pos : 0 < (workloads.map fun item => (item.outputTokens : ℚ) * item.requestsPerSecond).sum
  benchmark_named : isBlank benchmark.name = false
  prefill_pos : 0 < benchmark.prefillTokensPerSecond
  decode_pos : 0 < benchmark.outputTokensPerSecond
  slots_pos : 0 < benchmark.maxConcurrentRequests
  cost_nonneg : 0 ≤ benchmark.hourlyCost
  min_pos : 0 < requirements.minReplicas
  min_le_max : requirements.minReplicas ≤ requirements.maxReplicas
  headroom_nonneg : 0 ≤ requirements.reservedHeadroomFraction
  headroom_lt_one : requirements.reservedHeadroomFraction < 1
  budget_nonneg : 0 ≤ requirements.maxHourlyCost

theorem validate_eq_ok_iff :
    validate workloads benchmark requirements = .ok () ↔
      Accepted workloads benchmark requirements := by
  unfold validate
  simp only [Except.ite_throw_eq_ok_iff, List.any_eq_true, List.mem_map, decide_eq_true_eq,
    dedup_length_eq_iff, pyMin_lt_iff, pyMin_le_iff, List.mem_cons, List.not_mem_nil, or_false,
    exists_eq_left, exists_eq_or_imp, not_or, not_exists, not_and, not_lt, not_le, not_not, ne_eq,
    forall_exists_index, and_imp, forall_apply_eq_imp_iff₂, Bool.not_eq_true, Classical.not_imp]
  constructor
  · rintro ⟨hne, ⟨hnamed, hunique⟩, hrates, hdemand, ⟨hname, ⟨hprefill, hdecode, hslots⟩, hcost⟩,
      ⟨hmin, hmax⟩, hheadroom, hbudget, -⟩
    exact ⟨hne, hnamed, hunique, fun item hi => (hrates item hi).1,
      fun item hi => (hrates item hi).2.1.1, fun item hi => (hrates item hi).2.1.2,
      fun item hi => (hrates item hi).2.2.1, fun item hi => (hrates item hi).2.2.2, hdemand, hname,
      hprefill, hdecode, by exact_mod_cast hslots, hcost, hmin, hmax, hheadroom.1, hheadroom.2,
      hbudget⟩
  · intro h
    refine ⟨h.nonempty, ⟨h.named, h.unique⟩, fun item hi => ⟨h.rate_nonneg item hi,
      ⟨h.prompt_nonneg item hi, h.output_nonneg item hi⟩, h.service_pos item hi,
      h.burst_ge_one item hi⟩, h.demand_pos, ⟨h.benchmark_named, ⟨h.prefill_pos, h.decode_pos, ?_⟩,
      h.cost_nonneg⟩, ⟨h.min_pos, h.min_le_max⟩, ⟨h.headroom_nonneg, h.headroom_lt_one⟩,
      h.budget_nonneg, rfl⟩
    exact_mod_cast h.slots_pos

/-! ### The least sufficient fleet -/

/-- A fleet of `n` replicas covers every demand with the reserved headroom, and the floor. -/
structure Sufficient (n : ℤ) : Prop where
  floor : requirements.minReplicas ≤ n
  prefill : promptTokensPerSecond workloads ≤
    n * benchmark.prefillTokensPerSecond * (1 - requirements.reservedHeadroomFraction)
  decode : outputTokensPerSecond workloads ≤
    n * benchmark.outputTokensPerSecond * (1 - requirements.reservedHeadroomFraction)
  concurrency : concurrentRequests workloads ≤
    n * benchmark.maxConcurrentRequests * (1 - requirements.reservedHeadroomFraction)

variable {workloads benchmark requirements}

theorem Accepted.prefill_rate_pos (h : Accepted workloads benchmark requirements) :
    0 < benchmark.prefillTokensPerSecond * (1 - requirements.reservedHeadroomFraction) :=
  mul_pos h.prefill_pos (sub_pos.mpr h.headroom_lt_one)

theorem Accepted.decode_rate_pos (h : Accepted workloads benchmark requirements) :
    0 < benchmark.outputTokensPerSecond * (1 - requirements.reservedHeadroomFraction) :=
  mul_pos h.decode_pos (sub_pos.mpr h.headroom_lt_one)

theorem Accepted.slots_rate_pos (h : Accepted workloads benchmark requirements) :
    0 < (benchmark.maxConcurrentRequests : ℚ) * (1 - requirements.reservedHeadroomFraction) :=
  mul_pos (by exact_mod_cast h.slots_pos) (sub_pos.mpr h.headroom_lt_one)

/-- The burst only adds to the output demand that the validator checks. -/
theorem Accepted.outputTokensPerSecond_pos (h : Accepted workloads benchmark requirements) :
    0 < outputTokensPerSecond workloads := by
  refine h.demand_pos.trans_le (List.sum_le_sum fun item hitem => ?_)
  have houtput : (0 : ℚ) ≤ item.outputTokens := by exact_mod_cast h.output_nonneg item hitem
  rw [mul_comm (item.outputTokens : ℚ)]
  exact le_mul_of_one_le_right (mul_nonneg (h.rate_nonneg item hitem) houtput)
    (h.burst_ge_one item hitem)

theorem Accepted.sufficient_iff (h : Accepted workloads benchmark requirements) (n : ℤ) :
    Sufficient workloads benchmark requirements n ↔
      ∀ dimension ∈ dimensions workloads benchmark requirements, ⌈dimension.2⌉ ≤ n := by
  simp only [dimensions, List.forall_mem_cons, List.not_mem_nil, false_implies, implies_true,
    and_true, Int.ceil_le, Int.cast_le, div_le_iff₀ h.prefill_rate_pos,
    div_le_iff₀ h.decode_rate_pos, div_le_iff₀ h.slots_rate_pos, ← mul_assoc]
  exact ⟨fun ⟨h₁, h₂, h₃, h₄⟩ => ⟨h₁, h₂, h₃, h₄⟩, fun ⟨h₁, h₂, h₃, h₄⟩ => ⟨h₁, h₂, h₃, h₄⟩⟩

/-- The planner returns the least sufficient fleet and gates its size and its cost. -/
theorem planCapacity_spec {plan : CapacityPlan}
    (h : planCapacity workloads benchmark requirements = .ok plan) :
    Accepted workloads benchmark requirements ∧
      IsLeast {n | Sufficient workloads benchmark requirements n} plan.requiredReplicas ∧
      (plan.releaseReady = true ↔ plan.violations = []) ∧
      (plan.violations = [] ↔ plan.requiredReplicas ≤ requirements.maxReplicas ∧
        plan.requiredReplicas * benchmark.hourlyCost ≤ requirements.maxHourlyCost) ∧
      plan.outputTokensPerSecond = outputTokensPerSecond workloads := by
  unfold planCapacity at h
  obtain ⟨_, hvalid, h⟩ := Except.bind_eq_ok_iff.mp h
  obtain ⟨replicas, hreplicas, h⟩ := Except.bind_eq_ok_iff.mp h
  obtain ⟨bottleneck, -, h⟩ := Except.bind_eq_ok_iff.mp h
  obtain rfl := Except.ok.inj h
  have haccepted := (validate_eq_ok_iff workloads benchmark requirements).mp hvalid
  obtain ⟨hmem, hmax⟩ := maxBy_spec hreplicas
  refine ⟨haccepted, ⟨?_, ?_⟩, by simp, ?_, rfl⟩
  · refine (haccepted.sufficient_iff replicas).mpr fun dimension hdimension => ?_
    exact hmax _ (List.mem_map_of_mem hdimension)
  · intro n hn
    obtain ⟨dimension, hdimension, rfl⟩ := List.mem_map.mp hmem
    exact (haccepted.sufficient_iff n).mp hn dimension hdimension
  · simp

theorem mem_violations_ceiling_iff {plan : CapacityPlan}
    (h : planCapacity workloads benchmark requirements = .ok plan) :
    "required replicas exceed fleet ceiling" ∈ plan.violations ↔
      requirements.maxReplicas < plan.requiredReplicas := by
  unfold planCapacity at h
  obtain ⟨_, -, h⟩ := Except.bind_eq_ok_iff.mp h
  obtain ⟨replicas, -, h⟩ := Except.bind_eq_ok_iff.mp h
  obtain ⟨bottleneck, -, h⟩ := Except.bind_eq_ok_iff.mp h
  obtain rfl := Except.ok.inj h
  simp

theorem Accepted.outputTokensPerSecond_nonneg (h : Accepted workloads benchmark requirements) :
    0 ≤ outputTokensPerSecond workloads :=
  h.outputTokensPerSecond_pos.le

end Planner

end Capacity
