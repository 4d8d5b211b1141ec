import InferencePlatform.CapacitySizing

/-!
# The bottleneck under growing traffic

Growth multiplies every workload dimension by one factor and leaves the replica floor alone. The
bottleneck has the largest demand of all dimensions before rounding, so a workload bottleneck
stays the largest one and binds whenever the fleet grows. When the floor is the bottleneck it
does not bind in any larger fleet.
-/

namespace Capacity

open PythonBuiltins

/-- The class with `g` times the requests. -/
def grow (g : ℚ) (item : WorkloadClass) : WorkloadClass :=
  { item with requestsPerSecond := g * item.requestsPerSecond }

section Growth

variable {workloads : List WorkloadClass} {benchmark : ReplicaBenchmark}
  {requirements : CapacityRequirements} {plan grown : CapacityPlan} {g : ℚ}

theorem sum_map_grow {f : WorkloadClass → ℚ} (hf : ∀ item, f (grow g item) = g * f item) :
    ((workloads.map (grow g)).map f).sum = g * (workloads.map f).sum := by
  rw [List.map_map, ← List.sum_map_mul_left]
  exact congrArg List.sum (List.map_congr_left fun item _ => hf item)

theorem promptTokensPerSecond_grow : promptTokensPerSecond (workloads.map (grow g)) =
    g * promptTokensPerSecond workloads :=
  sum_map_grow fun item => by simp only [grow, mul_assoc]

theorem outputTokensPerSecond_grow : outputTokensPerSecond (workloads.map (grow g)) =
    g * outputTokensPerSecond workloads :=
  sum_map_grow fun item => by simp only [grow, mul_assoc]

theorem concurrentRequests_grow : concurrentRequests (workloads.map (grow g)) =
    g * concurrentRequests workloads :=
  sum_map_grow fun item => by simp only [grow, mul_assoc]

theorem Accepted.grow (h : Accepted workloads benchmark requirements) (hg : 1 ≤ g) :
    Accepted (workloads.map (grow g)) benchmark requirements := by
  have hg' : 0 < g := zero_lt_one.trans_le hg
  exact {
    h with
    nonempty := fun hnil => h.nonempty (List.map_eq_nil_iff.mp hnil)
    named := List.forall_mem_map.mpr h.named
    unique := by
      rw [List.map_map]
      exact h.unique
    rate_nonneg := List.forall_mem_map.mpr fun item hitem =>
      mul_nonneg hg'.le (h.rate_nonneg item hitem)
    prompt_nonneg := List.forall_mem_map.mpr h.prompt_nonneg
    output_nonneg := List.forall_mem_map.mpr h.output_nonneg
    service_pos := List.forall_mem_map.mpr h.service_pos
    burst_ge_one := List.forall_mem_map.mpr h.burst_ge_one
    demand_pos := by
      rw [sum_map_grow fun item => by simp only [Capacity.grow, mul_left_comm]]
      exact mul_pos hg' h.demand_pos }

theorem floor_of_mem_dimensions {demand : ℚ}
    (h : ("minimum replica floor", demand) ∈ dimensions workloads benchmark requirements) :
    demand = requirements.minReplicas := by
  rcases mem_dimensions.mp h with h | h | h | h
  · exact congrArg Prod.snd h
  all_goals exact absurd (Prod.mk.inj h).1 (by decide)

theorem mem_dimensions_grow {name : String} {demand : ℚ}
    (hname : name ≠ "minimum replica floor") :
    (name, demand) ∈ dimensions (workloads.map (grow g)) benchmark requirements ↔
      ∃ before, (name, before) ∈ dimensions workloads benchmark requirements ∧
        demand = g * before := by
  simp only [mem_dimensions, promptTokensPerSecond_grow, outputTokensPerSecond_grow,
    concurrentRequests_grow, mul_div_assoc, Prod.mk.injEq]
  constructor
  · rintro (⟨rfl, rfl⟩ | ⟨rfl, rfl⟩ | ⟨rfl, rfl⟩ | ⟨rfl, rfl⟩)
    · exact absurd rfl hname
    · exact ⟨_, Or.inr (Or.inl ⟨rfl, rfl⟩), rfl⟩
    · exact ⟨_, Or.inr (Or.inr (Or.inl ⟨rfl, rfl⟩)), rfl⟩
    · exact ⟨_, Or.inr (Or.inr (Or.inr ⟨rfl, rfl⟩)), rfl⟩
  · rintro ⟨before, ⟨rfl, rfl⟩ | ⟨rfl, rfl⟩ | ⟨rfl, rfl⟩ | ⟨rfl, rfl⟩, rfl⟩
    · exact absurd rfl hname
    · exact Or.inr (Or.inl ⟨rfl, rfl⟩)
    · exact Or.inr (Or.inr (Or.inl ⟨rfl, rfl⟩))
    · exact Or.inr (Or.inr (Or.inr ⟨rfl, rfl⟩))

theorem Sized.min_le_required (hsized : Sized workloads benchmark requirements plan) :
    requirements.minReplicas ≤ plan.requiredReplicas :=
  hsized.required.2 ⟨_, mem_dimensions.mpr (Or.inl rfl), Int.ceil_intCast _⟩

/-- The bottleneck has the greatest demand before rounding, and among equals the last name. -/
theorem Sized.exists_bottleneck (hsized : Sized workloads benchmark requirements plan) :
    ∃ demand, (plan.bottleneck, demand) ∈ dimensions workloads benchmark requirements ∧
      ⌈demand⌉ = plan.requiredReplicas ∧
      ∀ other ∈ dimensions workloads benchmark requirements,
        other.2 < demand ∨ other.2 = demand ∧ other.1 ≤ plan.bottleneck := by
  obtain ⟨⟨name, demand⟩, hmem, hceil, rfl, hfirst⟩ := hsized.bottleneck
  change ⌈demand⌉ = plan.requiredReplicas at hceil
  refine ⟨demand, hmem, hceil, ?_⟩
  intro other hother
  have hle : ⌈other.2⌉ ≤ plan.requiredReplicas := hsized.required.2 ⟨other, hother, rfl⟩
  rcases hle.lt_or_eq with hlt | heq
  · left
    by_contra! hge
    have := Int.ceil_mono hge
    omega
  · exact Prod.Lex.toLex_le_toLex.mp (hfirst other hother heq)

/-- A workload bottleneck binds in every larger fleet. -/
theorem Sized.binds_of_raised (hg : 1 ≤ g) (hsized : Sized workloads benchmark requirements plan)
    (hgrown : Sized (workloads.map (grow g)) benchmark requirements grown)
    (hname : plan.bottleneck ≠ "minimum replica floor")
    (hraised : plan.requiredReplicas < grown.requiredReplicas) :
    plan.bottleneck ∈ grown.bindingDimensions := by
  obtain ⟨demand, hmem, -, hgreatest⟩ := hsized.exists_bottleneck
  have hmem' := (mem_dimensions_grow (g := g) hname).mpr ⟨demand, hmem, rfl⟩
  refine (hgrown.binding _).mpr ⟨_, hmem', ?_, rfl⟩
  apply le_antisymm (hgrown.required.2 ⟨_, hmem', rfl⟩)
  obtain ⟨⟨name, demand'⟩, hattained, hceil⟩ := hgrown.required.1
  rw [← hceil]
  apply Int.ceil_mono
  by_cases hfloor : name = "minimum replica floor"
  · subst hfloor
    have hmin := hsized.min_le_required
    rw [floor_of_mem_dimensions hattained, Int.ceil_intCast] at hceil
    omega
  · obtain ⟨before, hbefore, rfl⟩ := (mem_dimensions_grow hfloor).mp hattained
    have hle : before ≤ demand := by
      rcases hgreatest _ hbefore with hlt | ⟨heq, -⟩
      · exact hlt.le
      · exact heq.le
    exact mul_le_mul_of_nonneg_left hle (zero_le_one.trans hg)

theorem Sized.required_of_floor (hsized : Sized workloads benchmark requirements plan)
    (hname : plan.bottleneck = "minimum replica floor") :
    plan.requiredReplicas = requirements.minReplicas := by
  obtain ⟨demand, hmem, hceil, -⟩ := hsized.exists_bottleneck
  rw [hname] at hmem
  rw [← hceil, floor_of_mem_dimensions hmem, Int.ceil_intCast]

/-- The floor binds only in a fleet of exactly its size. -/
theorem Sized.required_of_floor_binds (hsized : Sized workloads benchmark requirements plan)
    (hbinds : "minimum replica floor" ∈ plan.bindingDimensions) :
    plan.requiredReplicas = requirements.minReplicas := by
  obtain ⟨⟨name, demand⟩, hmem, hceil, rfl⟩ := (hsized.binding _).mp hbinds
  rw [← hceil, floor_of_mem_dimensions hmem, Int.ceil_intCast]

variable (workloads benchmark requirements) in
/-- Some workload dimension is ranked above the replica floor; between equal demands the later name
wins. -/
def FloorOutranked : Prop :=
  requirements.minReplicas * benchmark.outputTokensPerSecond *
      (1 - requirements.reservedHeadroomFraction) < outputTokensPerSecond workloads ∨
    requirements.minReplicas * benchmark.prefillTokensPerSecond *
      (1 - requirements.reservedHeadroomFraction) ≤ promptTokensPerSecond workloads ∨
    requirements.minReplicas * benchmark.maxConcurrentRequests *
      (1 - requirements.reservedHeadroomFraction) ≤ concurrentRequests workloads

theorem Sized.bottleneck_ne_floor_iff (h : Accepted workloads benchmark requirements)
    (hsized : Sized workloads benchmark requirements plan) :
    plan.bottleneck ≠ "minimum replica floor" ↔
      FloorOutranked workloads benchmark requirements := by
  rw [FloorOutranked, mul_assoc, mul_assoc, mul_assoc, ← lt_div_iff₀ h.decode_rate_pos,
    ← le_div_iff₀ h.prefill_rate_pos, ← le_div_iff₀ h.slots_rate_pos]
  obtain ⟨demand, hmem, -, hgreatest⟩ := hsized.exists_bottleneck
  have hfloor := hgreatest _ (mem_dimensions.mpr (Or.inl rfl))
  have hprefill := hgreatest _ (mem_dimensions.mpr (Or.inr (Or.inl rfl)))
  have hdecode := hgreatest _ (mem_dimensions.mpr (Or.inr (Or.inr (Or.inl rfl))))
  have hslots := hgreatest _ (mem_dimensions.mpr (Or.inr (Or.inr (Or.inr rfl))))
  dsimp only at hfloor hprefill hdecode hslots
  constructor
  · intro hname
    rcases mem_dimensions.mp hmem with heq | heq | heq | heq
    · exact absurd (Prod.mk.inj heq).1 hname
    · obtain ⟨-, rfl⟩ := Prod.mk.inj heq
      exact Or.inr (Or.inl (hfloor.elim le_of_lt fun hf => hf.1.le))
    · obtain ⟨hbottleneck, rfl⟩ := Prod.mk.inj heq
      rw [hbottleneck] at hfloor
      exact Or.inl (hfloor.resolve_right fun hf => absurd hf.2 (by decide))
    · obtain ⟨-, rfl⟩ := Prod.mk.inj heq
      exact Or.inr (Or.inr (hfloor.elim le_of_lt fun hf => hf.1.le))
  · intro hcond hname
    rw [hname] at hmem hprefill hdecode hslots
    obtain rfl := floor_of_mem_dimensions hmem
    rcases hcond with hlt | hle | hle
    · exact absurd hlt (not_lt.mpr (hdecode.elim le_of_lt fun hd => hd.1.le))
    · exact absurd (hprefill.resolve_left (not_lt.mpr hle)).2 (by decide)
    · exact absurd (hslots.resolve_left (not_lt.mpr hle)).2 (by decide)

theorem Sized.not_binds_of_floor (hsized : Sized workloads benchmark requirements plan)
    (hgrown : Sized (workloads.map (grow g)) benchmark requirements grown)
    (hname : plan.bottleneck = "minimum replica floor")
    (hraised : plan.requiredReplicas < grown.requiredReplicas) :
    plan.bottleneck ∉ grown.bindingDimensions := by
  intro hbinds
  have hrequired := hsized.required_of_floor hname
  have hrequired' := hgrown.required_of_floor_binds (hname ▸ hbinds)
  omega

/-- A bottleneck binds in the raised fleet, unless it is the floor, which outranks the workload. -/
theorem bottleneck_binds_iff (h : planCapacity workloads benchmark requirements = .ok plan)
    (hg : 1 ≤ g) :
    ∃ grown, planCapacity (workloads.map (grow g)) benchmark requirements = .ok grown ∧
      ((plan.requiredReplicas < grown.requiredReplicas →
        plan.bottleneck ∈ grown.bindingDimensions) ↔
      FloorOutranked workloads benchmark requirements ∨
        Sufficient (workloads.map (grow g)) benchmark requirements requirements.minReplicas) := by
  obtain ⟨haccepted, -⟩ := planCapacity_spec h
  obtain ⟨grown, hgrown⟩ := exists_planCapacity (haccepted.grow hg)
  obtain ⟨-, hleast, -⟩ := planCapacity_spec hgrown
  have hsized := planCapacity_sized h
  have hsized' := planCapacity_sized hgrown
  refine ⟨grown, hgrown, ?_⟩
  rw [← hsized.bottleneck_ne_floor_iff haccepted]
  by_cases hname : plan.bottleneck = "minimum replica floor"
  · have hrequired := hsized.required_of_floor hname
    have hfits : Sufficient (workloads.map (grow g)) benchmark requirements
        requirements.minReplicas ↔ ¬ plan.requiredReplicas < grown.requiredReplicas := by
      rw [hrequired, not_lt]
      refine ⟨fun hfits => hleast.2 hfits, fun hle => ?_⟩
      exact le_antisymm hle hsized'.min_le_required ▸ hleast.1
    rw [hfits]
    constructor
    · intro hbinds
      exact Or.inr fun hraised => hsized.not_binds_of_floor hsized' hname hraised (hbinds hraised)
    · rintro (hne | hkept) hraised
      · exact absurd hname hne
      · exact absurd hraised hkept
  · exact iff_of_true (hsized.binds_of_raised hg hsized' hname) (Or.inl hname)

end Growth

theorem bottleneck_binds_iff_sample :
    ∃ grown, planCapacity (sampleWorkloads.map (grow 3)) sampleBenchmark
        { sampleRequirements with minReplicas := 1 } = .ok grown ∧
      (2 < grown.requiredReplicas → "decode tokens" ∈ grown.bindingDimensions) := by
  have h : planCapacity sampleWorkloads sampleBenchmark
      { sampleRequirements with minReplicas := 1 } = .ok ⟨true, 2, "decode tokens",
        ["decode tokens"], 150, 150, 3 / 2, 0, 4, 200 / 27, []⟩ := by decide +kernel
  obtain ⟨grown, hgrown, hiff⟩ := bottleneck_binds_iff h (show (1 : ℚ) ≤ 3 by norm_num)
  exact ⟨grown, hgrown, hiff.mpr (Or.inl (Or.inl (by decide +kernel)))⟩

/-- Decode traffic fills one and a half of the two replicas of the floor, and doubles. -/
theorem bottleneck_not_binding :
    ∃ plan grown, planCapacity sampleWorkloads sampleBenchmark sampleRequirements = .ok plan ∧
      "decode tokens" ∈ plan.bindingDimensions ∧
      planCapacity (sampleWorkloads.map (grow 2)) sampleBenchmark sampleRequirements =
        .ok grown ∧
      plan.requiredReplicas < grown.requiredReplicas ∧
      plan.bottleneck ∉ grown.bindingDimensions := by
  refine ⟨⟨true, 2, "minimum replica floor", ["decode tokens", "minimum replica floor"], 150, 150,
    3 / 2, 0, 4, 200 / 27, []⟩, ⟨true, 3, "decode tokens", ["decode tokens"], 300, 300, 3, 0, 6,
    50 / 9, []⟩, by decide +kernel, by decide, by decide +kernel, by decide, by decide⟩

end Capacity
