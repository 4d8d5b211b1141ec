import InferencePlatform.PlanFleet

/-!
# When the capstone plan is released

`Releasable` states the release conditions from the inputs and the module constants. The grade
of a plan is a set inclusion between strings, so the controls come first: no workload can have
the name of a control as its evidence, and each control is observed exactly when its own decision
succeeded. The decisions are then traced back to the inputs.
-/

namespace PlanFleet

open PythonBuiltins

/-! ### Evidence -/

/-- Every control with the success of its own decision. -/
def controls (decisions : PlanDecisions) : List (String × Prop) :=
  [("memory-fit", decisions.memory.fits = true),
    ("capacity-plan", decisions.capacity.releaseReady = true),
    ("parallel-layout", LayoutMatches decisions.parallelism ∧
      decisions.capacity.requiredReplicas ≤ decisions.parallelism.dataParallel),
    ("gpu-placement", decisions.placement.placed = true),
    ("benign-admission", decisions.benignAdmission.action = .admitted),
    ("oversize-shedding", decisions.oversizeAdmission.action = .shed ∧
      contains "token bound" decisions.oversizeAdmission.reason = true),
    ("queue-scaling",
      decisions.capacity.requiredReplicas ≤ decisions.autoscaling.targetReplicas),
    ("canary-gate", decisions.rollout.action = .promote)]

theorem mem_earned {condition : Prop} [Decidable condition] {control name : String} :
    name ∈ earned condition control ↔ condition ∧ name = control := by
  unfold earned
  split_ifs with h <;> simp [h]

theorem mem_observedEvidence {workloads : List Capacity.WorkloadClass} {decisions : PlanDecisions}
    {name : String} : name ∈ observedEvidence workloads decisions ↔
      (∃ workload ∈ workloads, "workload:" ++ workload.name = name) ∨
        ∃ control ∈ controls decisions, control.2 ∧ name = control.1 := by
  simp only [observedEvidence, controls, Finset.mem_union, List.mem_toFinset, List.mem_map,
    mem_earned, List.mem_cons, List.not_mem_nil, or_false, exists_eq_or_imp, exists_eq_left,
    or_assoc]

def controlNames : List String :=
  ["memory-fit", "capacity-plan", "parallel-layout", "gpu-placement", "benign-admission",
    "oversize-shedding", "queue-scaling", "canary-gate"]

theorem map_fst_controls (decisions : PlanDecisions) :
    (controls decisions).map Prod.fst = controlNames := rfl

/-- Workload evidence starts with a letter that starts no control name. -/
theorem workload_evidence_ne (name : String) {control : String} (h : control ∈ controlNames) :
    "workload:" ++ name ≠ control := by
  have hhead : ∀ control ∈ controlNames, control.toList.head? ≠ some 'w' := by decide
  rintro rfl
  refine hhead _ h ?_
  rw [String.toList_append]
  rfl

/-- A control is observed exactly when its decision succeeded, whatever the workloads are. -/
theorem control_mem_observedEvidence (workloads : List Capacity.WorkloadClass)
    (decisions : PlanDecisions) {control : String × Prop} (h : control ∈ controls decisions) :
    control.1 ∈ observedEvidence workloads decisions ↔ control.2 := by
  rw [mem_observedEvidence]
  have hname : control.1 ∈ controlNames := by
    rw [← map_fst_controls decisions]
    exact List.mem_map_of_mem h
  constructor
  · rintro (⟨workload, -, heq⟩ | ⟨control', h', hsuccess, heq⟩)
    · exact absurd heq (workload_evidence_ne workload.name hname)
    · have hnodup : ((controls decisions).map Prod.fst).Nodup := by
        rw [map_fst_controls]
        decide
      rwa [List.inj_on_of_nodup_map hnodup h h' heq]
  · intro hsuccess
    exact Or.inr ⟨control, h, hsuccess, rfl⟩

theorem workload_mem_observedEvidence (workloads : List Capacity.WorkloadClass)
    (decisions : PlanDecisions) (name : String) :
    "workload:" ++ name ∈ observedEvidence workloads decisions ↔
      name ∈ workloads.map (·.name) := by
  rw [mem_observedEvidence, List.mem_map]
  constructor
  · rintro (⟨workload, hworkload, heq⟩ | ⟨control, h, -, heq⟩)
    · refine ⟨workload, hworkload, ?_⟩
      have htext := congrArg String.toList heq
      rw [String.toList_append, String.toList_append] at htext
      exact String.toList_inj.mp (List.append_cancel_left htext)
    · refine absurd heq (workload_evidence_ne name ?_)
      rw [← map_fst_controls decisions]
      exact List.mem_map_of_mem h
  · rintro ⟨workload, hworkload, rfl⟩
    exact Or.inl ⟨workload, hworkload, rfl⟩

/-- The grade: no capacity violation, the two required workloads, and every control. -/
theorem gradePlan_releaseReady_iff (workloads : List Capacity.WorkloadClass)
    (decisions : PlanDecisions) :
    (gradePlan workloads decisions).releaseReady = true ↔
      decisions.capacity.violations = [] ∧
        ("interactive" ∈ workloads.map (·.name) ∧ "generation" ∈ workloads.map (·.name)) ∧
        ∀ control ∈ controls decisions, control.2 := by
  have hmissing : (requiredEvidence \ observedEvidence workloads decisions).sort = [] ↔
      requiredEvidence ⊆ observedEvidence workloads decisions := by
    rw [← List.length_eq_zero_iff, Finset.length_sort, Finset.card_eq_zero,
      Finset.sdiff_eq_empty_iff_subset]
  have hrequired : requiredEvidence ⊆ observedEvidence workloads decisions ↔
      ("interactive" ∈ workloads.map (·.name) ∧ "generation" ∈ workloads.map (·.name)) ∧
        ∀ control ∈ controls decisions, control.2 := by
    rw [← workload_mem_observedEvidence workloads decisions "interactive",
      ← workload_mem_observedEvidence workloads decisions "generation"]
    have hcontrols : (∀ control ∈ controls decisions, control.2) ↔
        ∀ name ∈ controlNames, name ∈ observedEvidence workloads decisions := by
      rw [← map_fst_controls decisions, List.forall_mem_map]
      exact forall₂_congr fun control h =>
        (control_mem_observedEvidence workloads decisions h).symm
    rw [hcontrols]
    simp only [requiredEvidence, Finset.insert_subset_iff, Finset.singleton_subset_iff,
      controlNames, List.forall_mem_cons, List.not_mem_nil, false_implies, implies_true, and_true,
      and_assoc]
    rfl
  have hviolation (missing : List String) : (if missing ≠ [] then
      ["missing required evidence: " ++ listRepr missing] else []) = [] ↔ missing = [] := by
    by_cases h : missing = [] <;> simp [h]
  simp only [gradePlan, decide_eq_true_eq, List.append_eq_nil_iff, hviolation, hmissing, hrequired]

/-! ### Decisions -/

/-- A report grades the decisions that the components made on the inputs. -/
structure Decided (workloads : List Capacity.WorkloadClass) (inventory : List Placement.GPU)
    (candidateRelease : Rollouts.ReleaseMeasurement ℚ) (decisions : PlanDecisions) : Prop where
  capacity : Capacity.planCapacity workloads benchmark capacityRequirements =
    .ok decisions.capacity
  memory : Memory.assessMemory modelMemory deploymentMemory = .ok decisions.memory
  parallelism : Parallelism.planParallelism
    ⟨weightGib, deploymentMemory.runtimeOverheadGib + decisions.memory.kvGibPerGpu, 1⟩ topology
    decisions.capacity.requiredReplicas = .ok decisions.parallelism
  placement : placeFirstReplica decisions.parallelism decisions.memory inventory =
    .ok decisions.placement
  admissions : decideAdmissions = .ok (decisions.benignAdmission, decisions.oversizeAdmission)
  autoscaling : Autoscaling.recommendReplicas [scalingObservation decisions.capacity]
    (scalingState decisions.capacity) scalingPolicy 100 = .ok decisions.autoscaling
  rollout : Rollouts.evaluateRollout baselineRelease candidateRelease releaseRequirements =
    .ok decisions.rollout

section Decisions

variable {workloads : List Capacity.WorkloadClass} {inventory : List Placement.GPU}
  {candidateRelease : Rollouts.ReleaseMeasurement ℚ} {report : PlanReport}
  {decisions : PlanDecisions}

theorem runPlan_eq_gradePlan (h : runPlan workloads inventory candidateRelease = .ok report) :
    report = gradePlan workloads report.decisions ∧
      Decided workloads inventory candidateRelease report.decisions := by
  obtain ⟨capacity, hcapacity, h⟩ := Except.bind_eq_ok_iff.mp h
  obtain ⟨memory, hmemory, h⟩ := Except.bind_eq_ok_iff.mp h
  obtain ⟨parallel, hparallel, h⟩ := Except.bind_eq_ok_iff.mp h
  obtain ⟨placement, hplacement, h⟩ := Except.bind_eq_ok_iff.mp h
  obtain ⟨⟨benign, oversize⟩, hadmissions, h⟩ := Except.bind_eq_ok_iff.mp h
  obtain ⟨scaling, hscaling, h⟩ := Except.bind_eq_ok_iff.mp h
  obtain ⟨rollout, hrollout, h⟩ := Except.bind_eq_ok_iff.mp h
  obtain rfl := Except.ok.inj h
  exact ⟨rfl, hcapacity, hmemory, hparallel, hplacement, hadmissions, hscaling, hrollout⟩

/-- The memory constants fit, so every plan has this evidence. -/
theorem memory_fits : Memory.requiredGib modelMemory deploymentMemory ≤
    Memory.usableGib deploymentMemory := by
  decide +kernel

/-- Weights with the runtime reservation of the memory plan, as the layout planner sees them. -/
def parallelModel : Parallelism.ParallelModel :=
  ⟨weightGib, deploymentMemory.runtimeOverheadGib +
    Memory.kvGibPerRequest modelMemory deploymentMemory * deploymentMemory.targetConcurrency, 1⟩

theorem chooseLayout_parallelModel : Parallelism.chooseLayout parallelModel topology =
    some (2, 1, Parallelism.layoutMemory parallelModel 2 1) := by
  decide +kernel

theorem Decided.layout (h : Decided workloads inventory candidateRelease decisions) :
    decisions.parallelism.feasible = true ∧ decisions.parallelism.tensorParallel = 2 ∧
      decisions.parallelism.pipelineParallel = 1 ∧
      decisions.parallelism.dataParallel = min decisions.capacity.requiredReplicas 4 := by
  have hplan := h.parallelism
  rw [(Memory.assessMemory_spec h.memory).2.1] at hplan
  exact Parallelism.planParallelism_of_chooseLayout chooseLayout_parallelModel hplan

theorem Decided.size_eq (h : Decided workloads inventory candidateRelease decisions) :
    decisions.parallelism.tensorParallel * decisions.parallelism.pipelineParallel = 2 := by
  obtain ⟨-, htp, hpp, -⟩ := h.layout
  rw [htp, hpp]
  rfl

theorem Decided.layoutMatches (h : Decided workloads inventory candidateRelease decisions) :
    LayoutMatches decisions.parallelism :=
  ⟨h.layout.1, h.size_eq⟩

/-- The layout always matches the memory plan, so a group is always requested. -/
theorem Decided.placeReplica (h : Decided workloads inventory candidateRelease decisions) :
    Placement.placeReplica (placementRequest
      (decisions.parallelism.tensorParallel * decisions.parallelism.pipelineParallel)
      decisions.memory.requiredGibPerGpu) inventory = .ok decisions.placement := by
  have hplace := h.placement
  rwa [placeFirstReplica, if_pos h.layoutMatches] at hplace

theorem Decided.admissions_succeed (h : Decided workloads inventory candidateRelease decisions) :
    decisions.benignAdmission.action = .admitted ∧
      decisions.oversizeAdmission.action = .shed ∧
      contains "token bound" decisions.oversizeAdmission.reason = true := by
  have hdecided : decideAdmissions =
      .ok (⟨.admitted, 500, "worst-case live-token reservation fits"⟩,
        ⟨.shed, 0, "request token bound exceeds policy"⟩) := by
    decide +kernel
  have heq := Except.ok.inj (h.admissions.symm.trans hdecided)
  obtain ⟨hbenign, hoversize⟩ := Prod.mk.inj heq
  rw [hbenign, hoversize]
  decide +kernel

/-- Rate demand at three quarters of the decode rate is what the decode dimension covers. -/
theorem demand_le_requiredReplicas {capacity : Capacity.CapacityPlan}
    (h : Capacity.planCapacity workloads benchmark capacityRequirements = .ok capacity) :
    Autoscaling.demand scalingPolicy (scalingObservation capacity) ≤
      capacity.requiredReplicas := by
  obtain ⟨-, ⟨hsufficient, -⟩, -, -, houtput⟩ := Capacity.planCapacity_spec h
  have hrate : ⌈capacity.outputTokensPerSecond / (350 * (3 / 4))⌉ ≤ capacity.requiredReplicas := by
    have hdecode := hsufficient.decode
    simp only [benchmark, capacityRequirements] at hdecode
    rw [Int.ceil_le, div_le_iff₀ (by norm_num), houtput]
    linarith
  have hfloor : 2 ≤ capacity.requiredReplicas := hsufficient.floor
  have hqueue : ⌈((0 : ℤ) : ℚ) / (350 * 10)⌉ = 0 := by norm_num
  simp only [Autoscaling.demand, scalingPolicy, scalingObservation, hqueue]
  omega

/-- The autoscaler targets the fleet that capacity planning asks for, up to the ceiling. -/
theorem scaling_targetReplicas {capacity : Capacity.CapacityPlan}
    {scaling : Autoscaling.ScaleDecision}
    (h : Capacity.planCapacity workloads benchmark capacityRequirements = .ok capacity)
    (hscaling : Autoscaling.recommendReplicas [scalingObservation capacity]
      (scalingState capacity) scalingPolicy 100 = .ok scaling) :
    scaling.targetReplicas = min 8 (max 2 capacity.requiredReplicas) := by
  have hrecent : (100 : ℚ) - scalingPolicy.scaleDownStabilizationSeconds <
      (scalingObservation capacity).timestamp := by
    change (100 : ℚ) - 60 < 100
    norm_num
  exact Autoscaling.recommendReplicas_of_recent hrecent (demand_le_requiredReplicas h) hscaling

theorem Decided.scaling (h : Decided workloads inventory candidateRelease decisions) :
    decisions.autoscaling.targetReplicas =
      min 8 (max 2 decisions.capacity.requiredReplicas) :=
  scaling_targetReplicas h.capacity h.autoscaling

/-- A same-node group of `size` inventory GPUs with the capabilities and the free memory that
the memory plan requires. -/
def HasGroup (inventory : List Placement.GPU) (size : ℤ) : Prop :=
  ∃ group : List Placement.GPU, group.Sublist inventory ∧ (group.length : ℤ) = size ∧
    (∃ node, ∀ gpu ∈ group, gpu.node = node) ∧
    ∀ gpu ∈ group, {"bf16", "fast-collective"} ⊆ gpu.capabilities ∧
      Memory.requiredGib modelMemory deploymentMemory ≤ gpu.freeMemoryGib

theorem Decided.placed_iff (h : Decided workloads inventory candidateRelease decisions) :
    decisions.placement.placed = true ↔ HasGroup inventory 2 := by
  have hplace := h.placeReplica
  rw [h.size_eq, (Memory.assessMemory_spec h.memory).2.2] at hplace
  rw [Placement.placeReplica_placed_iff hplace]
  constructor
  · rintro ⟨group, hgroup⟩
    exact ⟨group, hgroup.sublist, hgroup.size, hgroup.same_node rfl,
      fun gpu hgpu => (hgroup.eligible gpu hgpu).symm⟩
  · rintro ⟨group, hsub, hsize, hnode, heligible⟩
    exact ⟨group, hsub, hsize, fun gpu hgpu => (heligible gpu hgpu).symm, fun _ => hnode⟩

theorem Decided.capacity_iff (h : Decided workloads inventory candidateRelease decisions) :
    decisions.capacity.violations = [] ↔
      decisions.capacity.requiredReplicas ≤ capacityRequirements.maxReplicas ∧
      decisions.capacity.requiredReplicas * benchmark.hourlyCost ≤
        capacityRequirements.maxHourlyCost :=
  (Capacity.planCapacity_spec h.capacity).2.2.2.1

/-! ### The release conditions -/

/-- The conditions for a release, for the least sufficient fleet and the chosen layout. -/
structure ReleaseConditions (workloads : List Capacity.WorkloadClass)
    (inventory : List Placement.GPU) (candidateRelease : Rollouts.ReleaseMeasurement ℚ)
    (replicas tp pp : ℤ) : Prop where
  least : IsLeast {n | Capacity.Sufficient workloads benchmark capacityRequirements n} replicas
  layout : Parallelism.ChosenLayout parallelModel topology tp pp
  interactive : "interactive" ∈ workloads.map (·.name)
  generation : "generation" ∈ workloads.map (·.name)
  ceiling : replicas ≤ capacityRequirements.maxReplicas
  budget : replicas * benchmark.hourlyCost ≤ capacityRequirements.maxHourlyCost
  supply : replicas ≤ Parallelism.totalGpus topology / (tp * pp)
  memory : Memory.requiredGib modelMemory deploymentMemory ≤ Memory.usableGib deploymentMemory
  width : tp * pp = deploymentMemory.tensorParallelSize
  group : HasGroup inventory (tp * pp)
  canary : Rollouts.PassesGates baselineRelease candidateRelease releaseRequirements

theorem Decided.releaseConditions (h : Decided workloads inventory candidateRelease decisions)
    (hready : (gradePlan workloads decisions).releaseReady = true) :
    ReleaseConditions workloads inventory candidateRelease decisions.capacity.requiredReplicas
      2 1 := by
  obtain ⟨hviolations, ⟨hinteractive, hgeneration⟩, hcontrols⟩ :=
    (gradePlan_releaseReady_iff workloads decisions).mp hready
  simp only [controls, List.forall_mem_cons, List.not_mem_nil, false_implies, implies_true,
    and_true] at hcontrols
  obtain ⟨-, -, ⟨-, hsupply⟩, hplaced, -, -, -, hpromoted⟩ := hcontrols
  obtain ⟨hceiling, hbudget⟩ := h.capacity_iff.mp hviolations
  refine ⟨(Capacity.planCapacity_spec h.capacity).2.1,
    Parallelism.chooseLayout_spec (by decide) chooseLayout_parallelModel, hinteractive,
    hgeneration, hceiling, hbudget, ?_, memory_fits, rfl, h.placed_iff.mp hplaced,
    (Rollouts.evaluateRollout_promote_iff_passesGates h.rollout).mp hpromoted⟩
  rw [h.layout.2.2.2] at hsupply
  exact hsupply.trans (min_le_right _ _)

theorem Decided.releaseReady (h : Decided workloads inventory candidateRelease decisions)
    {replicas tp pp : ℤ}
    (hrelease : ReleaseConditions workloads inventory candidateRelease replicas tp pp) :
    (gradePlan workloads decisions).releaseReady = true := by
  obtain ⟨-, hleast, hready, -, -⟩ := Capacity.planCapacity_spec h.capacity
  obtain rfl := hrelease.least.unique hleast
  have hwidth : tp * pp = 2 := hrelease.width
  have hsupply : decisions.capacity.requiredReplicas ≤ 4 := by
    have hle := hrelease.supply
    rwa [hwidth] at hle
  have hviolations := h.capacity_iff.mpr ⟨hrelease.ceiling, hrelease.budget⟩
  have hgroup : HasGroup inventory 2 := hwidth ▸ hrelease.group
  refine (gradePlan_releaseReady_iff workloads decisions).mpr
    ⟨hviolations, ⟨hrelease.interactive, hrelease.generation⟩, ?_⟩
  simp only [controls, List.forall_mem_cons, List.not_mem_nil, false_implies, implies_true,
    and_true]
  obtain ⟨hbenign, hoversize⟩ := h.admissions_succeed
  refine ⟨(Memory.assessMemory_spec h.memory).1.mpr memory_fits, hready.mpr hviolations,
    ⟨h.layoutMatches, ?_⟩, h.placed_iff.mpr hgroup, hbenign, hoversize, ?_,
    (Rollouts.evaluateRollout_promote_iff_passesGates h.rollout).mpr hrelease.canary⟩
  · rw [h.layout.2.2.2]
    omega
  · rw [h.scaling]
    omega

/-- A plan is released exactly under the release conditions, and every control is observed
exactly when its own decision succeeded. -/
theorem runPlan_release_iff (h : runPlan workloads inventory candidateRelease = .ok report) :
    (report.releaseReady = true ↔ ∃ replicas tp pp : ℤ,
      ReleaseConditions workloads inventory candidateRelease replicas tp pp) ∧
    ∀ control ∈ controls report.decisions,
      control.1 ∈ report.observedEvidence ↔ control.2 := by
  obtain ⟨hreport, hdecided⟩ := runPlan_eq_gradePlan h
  constructor
  · rw [hreport]
    constructor
    · exact fun hready => ⟨_, 2, 1, hdecided.releaseConditions hready⟩
    · rintro ⟨replicas, tp, pp, hrelease⟩
      exact hdecided.releaseReady hrelease
  · intro control hcontrol
    rw [← control_mem_observedEvidence workloads report.decisions hcontrol]
    have hobserved : report.observedEvidence =
        (observedEvidence workloads report.decisions).sort := congrArg (·.observedEvidence) hreport
    rw [hobserved, Finset.mem_sort]

end Decisions

theorem runPlan_release_iff_default : ∃ report,
    runPlan workloads inventory candidateRelease = .ok report ∧
      (report.releaseReady = true ↔ ∃ replicas tp pp : ℤ,
        ReleaseConditions workloads inventory candidateRelease replicas tp pp) := by
  have hok : (runPlan workloads inventory candidateRelease).isOk = true := by decide +kernel
  cases h : runPlan workloads inventory candidateRelease with
  | ok report => exact ⟨report, rfl, (runPlan_release_iff h).1⟩
  | error e =>
      rw [h] at hok
      cases hok

end PlanFleet
