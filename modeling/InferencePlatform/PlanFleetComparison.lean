import InferencePlatform.CapacityPooling
import InferencePlatform.GateComparison
import InferencePlatform.PlanFleetRelease
import InferencePlatform.Timelines

/-!
# Comparing capstone plans

A plan judges three inputs: the workloads, the inventory and the candidate. Each decides its own
controls, so inputs of different plans can be put together and keep their evidence. Lighter
workloads, a richer inventory and a better candidate keep all evidence and the release.
-/

namespace PlanFleet

open PythonBuiltins Timelines

/-- Workloads of at least the same names that ask for no more. -/
structure Lighter (workloads' workloads : List Capacity.WorkloadClass) : Prop where
  names : workloads.map (·.name) ⊆ workloads'.map (·.name)
  prompt : Capacity.promptTokensPerSecond workloads' ≤ Capacity.promptTokensPerSecond workloads
  output : Capacity.outputTokensPerSecond workloads' ≤ Capacity.outputTokensPerSecond workloads
  concurrency : Capacity.concurrentRequests workloads' ≤ Capacity.concurrentRequests workloads

/-- A GPU in the same place that can do at least what `gpu` can. -/
structure Upgrades (gpu gpu' : Placement.GPU) : Prop where
  node : gpu'.node = gpu.node
  capabilities : gpu.capabilities ⊆ gpu'.capabilities
  memory : gpu.freeMemoryGib ≤ gpu'.freeMemoryGib

/-- The inventory after upgrades and additions, in any order. -/
def Richer (inventory' inventory : List Placement.GPU) : Prop :=
  ∃ upgraded, List.Forall₂ Upgrades inventory upgraded ∧ upgraded.Subperm inventory'

instance : Std.Refl Upgrades := ⟨fun _ => ⟨rfl, subset_rfl, le_rfl⟩⟩

instance : IsTrans Placement.GPU Upgrades :=
  ⟨fun _ _ _ h h' => ⟨h'.node.trans h.node, h.capabilities.trans h'.capabilities,
    h.memory.trans h'.memory⟩⟩

section Comparison

variable {workloads workloads' : List Capacity.WorkloadClass}
  {inventory inventory' : List Placement.GPU}
  {candidateRelease candidateRelease' : Rollouts.ReleaseMeasurement ℚ}
  {report report' : PlanReport} {decisions decisions' : PlanDecisions}

theorem HasGroup.of_richer {size : ℤ} (h : HasGroup inventory size)
    (hricher : Richer inventory' inventory) : HasGroup inventory' size := by
  obtain ⟨upgraded, hupgraded, hsubperm⟩ := hricher
  obtain ⟨group, hgroup, hsize, ⟨node, hnode⟩, heligible⟩ := h
  have hembed : List.SublistForall₂ Upgrades group upgraded :=
    IsTrans.trans _ _ _ hgroup.sublistForall₂
      (List.sublistForall₂_iff.mpr ⟨upgraded, hupgraded, List.Sublist.refl _⟩)
  obtain ⟨better, hbetter, hsub⟩ := List.sublistForall₂_iff.mp hembed
  obtain ⟨group', hperm, hgroup'⟩ := hsub.subperm.trans hsubperm
  have hupgrade : ∀ gpu' ∈ group', ∃ gpu ∈ group, Upgrades gpu gpu' := by
    intro gpu' hgpu'
    exact exists_mem_of_forall₂' hbetter (hperm.mem_iff.mp hgpu')
  refine ⟨group', hgroup', ?_, ⟨node, ?_⟩, ?_⟩
  · rw [hperm.length_eq, ← hbetter.length_eq, hsize]
  · intro gpu' hgpu'
    obtain ⟨gpu, hgpu, hup⟩ := hupgrade gpu' hgpu'
    rw [hup.node, hnode gpu hgpu]
  · intro gpu' hgpu'
    obtain ⟨gpu, hgpu, hup⟩ := hupgrade gpu' hgpu'
    exact ⟨(heligible gpu hgpu).1.trans hup.capabilities, (heligible gpu hgpu).2.trans hup.memory⟩

theorem Decided.requiredReplicas_le (h : Decided workloads inventory candidateRelease decisions)
    (h' : Decided workloads' inventory' candidateRelease' decisions')
    (hlighter : Lighter workloads' workloads) :
    decisions'.capacity.requiredReplicas ≤ decisions.capacity.requiredReplicas := by
  obtain ⟨-, hleast, -⟩ := Capacity.planCapacity_spec h.capacity
  obtain ⟨-, hleast', -⟩ := Capacity.planCapacity_spec h'.capacity
  exact hleast'.2 (hleast.1.of_le hlighter.prompt hlighter.output hlighter.concurrency)

theorem Decided.capacity_ready_of_le (h : Decided workloads inventory candidateRelease decisions)
    (h' : Decided workloads' inventory' candidateRelease' decisions')
    (hle : decisions'.capacity.requiredReplicas ≤ decisions.capacity.requiredReplicas)
    (hready : decisions.capacity.violations = []) : decisions'.capacity.violations = [] := by
  obtain ⟨hceiling, hbudget⟩ := h.capacity_iff.mp hready
  refine h'.capacity_iff.mpr ⟨hle.trans hceiling, le_trans ?_ hbudget⟩
  have hcost : (0 : ℚ) ≤ benchmark.hourlyCost := by decide +kernel
  exact mul_le_mul_of_nonneg_right (by exact_mod_cast hle) hcost

/-- Every control that the first plan earns is earned by the second one. -/
theorem Decided.controls_le (h : Decided workloads inventory candidateRelease decisions)
    (h' : Decided workloads' inventory' candidateRelease' decisions')
    (hlighter : Lighter workloads' workloads) (hricher : Richer inventory' inventory)
    (hdom : Rollouts.Dominates candidateRelease' candidateRelease) :
    List.Forall₂ (fun control control' => control.1 = control'.1 ∧ (control.2 → control'.2))
      (controls decisions) (controls decisions') := by
  have hle := h.requiredReplicas_le h' hlighter
  obtain ⟨-, -, hready, -⟩ := Capacity.planCapacity_spec h.capacity
  obtain ⟨-, -, hready', -⟩ := Capacity.planCapacity_spec h'.capacity
  obtain ⟨hbenign, hoversize⟩ := h'.admissions_succeed
  refine .cons ⟨rfl, fun _ => ?memory⟩ (.cons ⟨rfl, fun hcapacity => ?capacity⟩
    (.cons ⟨rfl, fun hlayout => ⟨h'.layoutMatches, ?layout⟩⟩ (.cons ⟨rfl, fun hplaced => ?placement⟩
      (.cons ⟨rfl, fun _ => hbenign⟩ (.cons ⟨rfl, fun _ => hoversize⟩
        (.cons ⟨rfl, fun hscaling => ?scaling⟩ (.cons ⟨rfl, fun hpromote => ?canary⟩ .nil)))))))
  case memory => exact (Memory.assessMemory_spec h'.memory).1.mpr memory_fits
  case capacity => exact hready'.mpr (h.capacity_ready_of_le h' hle (hready.mp hcapacity))
  case layout =>
    have hsupply := hlayout.2
    rw [h.layout.2.2.2] at hsupply
    rw [h'.layout.2.2.2]
    omega
  case placement => exact h'.placed_iff.mpr ((h.placed_iff.mp hplaced).of_richer hricher)
  case scaling =>
    change decisions.capacity.requiredReplicas ≤ decisions.autoscaling.targetReplicas at hscaling
    change decisions'.capacity.requiredReplicas ≤ decisions'.autoscaling.targetReplicas
    rw [h.scaling] at hscaling
    rw [h'.scaling]
    omega
  case canary =>
    exact (Rollouts.evaluateRollout_mono h.rollout h'.rollout ⟨le_rfl, le_rfl⟩ hdom
      (Rollouts.Relaxes.refl _)).1 hpromote

end Comparison

section Mixing

variable {w₁ w₂ w₃ : List Capacity.WorkloadClass} {i₁ i₂ i₃ : List Placement.GPU}
  {c₁ c₂ c₃ : Rollouts.ReleaseMeasurement ℚ} {r₁ r₂ r₃ : PlanReport} {d₁ d₂ d₃ : PlanDecisions}

theorem Decided.runPlan (h : Decided w₁ i₁ c₁ d₁) : runPlan w₁ i₁ c₁ = .ok (gradePlan w₁ d₁) :=
  Except.bind_eq_ok_iff.mpr ⟨_, h.capacity, Except.bind_eq_ok_iff.mpr ⟨_, h.memory,
    Except.bind_eq_ok_iff.mpr ⟨_, h.parallelism, Except.bind_eq_ok_iff.mpr ⟨_, h.placement,
      Except.bind_eq_ok_iff.mpr ⟨_, h.admissions, Except.bind_eq_ok_iff.mpr ⟨_, h.autoscaling,
        Except.bind_eq_ok_iff.mpr ⟨_, h.rollout, rfl⟩⟩⟩⟩⟩⟩⟩

/-- The request for the first replica is the same in every plan. -/
theorem Decided.firstReplica (h₁ : Decided w₁ i₁ c₁ d₁) (h₂ : Decided w₂ i₂ c₂ d₂) :
    placeFirstReplica d₁.parallelism d₁.memory i₂ = .ok d₂.placement := by
  have hmemory : d₂.memory = d₁.memory := Except.ok.inj (h₂.memory.symm.trans h₁.memory)
  rw [placeFirstReplica, if_pos h₁.layoutMatches, h₁.size_eq, ← h₂.size_eq, ← hmemory]
  exact h₂.placeReplica

/-- The decisions on the workloads of one plan, the inventory of a second and the candidate of a
third. -/
def mixDecisions (d₁ d₂ d₃ : PlanDecisions) : PlanDecisions :=
  { d₁ with placement := d₂.placement, rollout := d₃.rollout }

theorem Decided.mix (h₁ : Decided w₁ i₁ c₁ d₁) (h₂ : Decided w₂ i₂ c₂ d₂)
    (h₃ : Decided w₃ i₃ c₃ d₃) : Decided w₁ i₂ c₃ (mixDecisions d₁ d₂ d₃) := by
  have hplacement := h₁.firstReplica h₂
  exact ⟨h₁.capacity, h₁.memory, h₁.parallelism, hplacement, h₁.admissions, h₁.autoscaling,
    h₃.rollout⟩

theorem mem_observedEvidence_mix {name : String} :
    name ∈ observedEvidence w₁ (mixDecisions d₁ d₂ d₃) ↔
      if name = "gpu-placement" then name ∈ observedEvidence w₂ d₂
      else if name = "canary-gate" then name ∈ observedEvidence w₃ d₃
      else name ∈ observedEvidence w₁ d₁ := by
  have hplacement (w : List Capacity.WorkloadClass) (d : PlanDecisions) :
      "gpu-placement" ∈ observedEvidence w d ↔ d.placement.placed = true :=
    control_mem_observedEvidence w d
      (show ("gpu-placement", d.placement.placed = true) ∈ controls d by simp [controls])
  have hcanary (w : List Capacity.WorkloadClass) (d : PlanDecisions) :
      "canary-gate" ∈ observedEvidence w d ↔ d.rollout.action = .promote :=
    control_mem_observedEvidence w d
      (show ("canary-gate", d.rollout.action = .promote) ∈ controls d by simp [controls])
  split_ifs with hname hname'
  · rw [hname, hplacement, hplacement]
    rfl
  · rw [hname', hcanary, hcanary]
    rfl
  · simp only [mem_observedEvidence, controls, mixDecisions, List.mem_cons, List.not_mem_nil,
      or_false, exists_eq_or_imp, exists_eq_left, hname, hname', and_false, false_or]

/-- The inputs of three plans can be put together in one plan. It takes placement and canary from
the plans with its inventory and its candidate, and the rest from the plan with its workloads. -/
theorem runPlan_mix (h₁ : runPlan w₁ i₁ c₁ = .ok r₁) (h₂ : runPlan w₂ i₂ c₂ = .ok r₂)
    (h₃ : runPlan w₃ i₃ c₃ = .ok r₃) :
    ∃ r, runPlan w₁ i₂ c₃ = .ok r ∧
      r.decisions = mixDecisions r₁.decisions r₂.decisions r₃.decisions ∧
      (∀ name, name ∈ r.observedEvidence ↔
        if name = "gpu-placement" then name ∈ r₂.observedEvidence
        else if name = "canary-gate" then name ∈ r₃.observedEvidence
        else name ∈ r₁.observedEvidence) ∧
      (r₁.releaseReady = true → r₂.releaseReady = true → r₃.releaseReady = true →
        r.releaseReady = true) := by
  obtain ⟨hr₁, hd₁⟩ := runPlan_eq_gradePlan h₁
  obtain ⟨hr₂, hd₂⟩ := runPlan_eq_gradePlan h₂
  obtain ⟨hr₃, hd₃⟩ := runPlan_eq_gradePlan h₃
  refine ⟨_, (hd₁.mix hd₂ hd₃).runPlan, rfl, ?_, ?_⟩
  · intro name
    rw [hr₁, hr₂, hr₃]
    simp only [gradePlan, Finset.mem_sort]
    exact mem_observedEvidence_mix
  · rw [hr₁, hr₂, hr₃]
    simp only [gradePlan_releaseReady_iff, controls, List.forall_mem_cons, List.not_mem_nil,
      false_implies, implies_true, and_true]
    rintro ⟨hviolations, hnames, hmemory, hcapacity, hlayout, -, hbenign, hoversize, hscaling, -⟩
      ⟨-, -, -, -, -, hplaced, -⟩ ⟨-, -, -, -, -, -, -, -, -, hpromoted⟩
    exact ⟨hviolations, hnames, hmemory, hcapacity, hlayout, hplaced, hbenign, hoversize, hscaling,
      hpromoted⟩

end Mixing

/-! ### The capstone on a part of its inventory -/

theorem exists_of_isOk {workloads : List Capacity.WorkloadClass} {inventory : List Placement.GPU}
    {candidate : Rollouts.ReleaseMeasurement ℚ}
    (h : (runPlan workloads inventory candidate).isOk = true) :
    ∃ report, runPlan workloads inventory candidate = .ok report := by
  cases hrun : runPlan workloads inventory candidate with
  | ok report => exact ⟨report, rfl⟩
  | error e =>
      rw [hrun] at h
      cases h

theorem runPlan_mix_default : ∃ r₁ r₂ r,
    runPlan workloads (inventory.take 1) candidateRelease = .ok r₁ ∧
      runPlan (workloads.take 1) inventory candidateRelease = .ok r₂ ∧
      runPlan workloads inventory candidateRelease = .ok r ∧
      r.decisions = mixDecisions r₁.decisions r₂.decisions r₁.decisions := by
  have hok₁ : (runPlan workloads (inventory.take 1) candidateRelease).isOk = true := by
    decide +kernel
  have hok₂ : (runPlan (workloads.take 1) inventory candidateRelease).isOk = true := by
    decide +kernel
  obtain ⟨r₁, h₁⟩ := exists_of_isOk hok₁
  obtain ⟨r₂, h₂⟩ := exists_of_isOk hok₂
  obtain ⟨r, hrun, hdecisions, -⟩ := runPlan_mix h₁ h₂ h₁
  exact ⟨r₁, r₂, r, h₁, h₂, hrun, hdecisions⟩

end PlanFleet
