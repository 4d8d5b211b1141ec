import InferencePlatform.AutoscalingLoop
import InferencePlatform.MemoryLayout
import InferencePlatform.PlanFleetRelease

/-!
# Components that agree inside the capstone

The autoscaler of the capstone sees one observation at the decode rate of the capacity plan, with
a state at the size of that plan, and stays there up to the fleet ceiling. The memory and layout
decisions of a report are those of `MemoryLayout.assessAndPlan` at the capstone constants.
-/

namespace PlanFleet

open PythonBuiltins

section Agreement

variable {workloads : List Capacity.WorkloadClass} {inventory : List Placement.GPU}
  {candidateRelease : Rollouts.ReleaseMeasurement ℚ} {decisions : PlanDecisions}
  {capacity : Capacity.CapacityPlan}

theorem Decided.assessAndPlan (h : Decided workloads inventory candidateRelease decisions) :
    MemoryLayout.assessAndPlan modelMemory deploymentMemory topology
      decisions.capacity.requiredReplicas = .ok (decisions.memory, decisions.parallelism) := by
  have hparallelism : Parallelism.planParallelism
      (MemoryLayout.parallelModel modelMemory deploymentMemory decisions.memory) topology
      decisions.capacity.requiredReplicas = .ok decisions.parallelism := h.parallelism
  unfold MemoryLayout.assessAndPlan
  rw [h.memory]
  dsimp only [bind, Except.bind]
  rw [hparallelism]
  rfl

/-- The autoscaler accepts what every capacity plan hands over. -/
theorem scalingInputs_accepted
    (h : Capacity.planCapacity workloads benchmark capacityRequirements = .ok capacity) :
    Autoscaling.InputsAccepted [scalingObservation capacity] scalingPolicy 100 ∧
      Autoscaling.StateAccepted (scalingState capacity) := by
  obtain ⟨haccepted, ⟨hsufficient, -⟩, -, -, houtput⟩ := Capacity.planCapacity_spec h
  have hfloor : 2 ≤ capacity.requiredReplicas := hsufficient.floor
  refine ⟨⟨List.cons_ne_nil _ _, by decide, by decide, by norm_num [scalingPolicy],
    by norm_num [scalingPolicy], by norm_num [scalingPolicy], by norm_num [scalingPolicy],
    by norm_num [scalingPolicy], by norm_num [scalingPolicy], ?_, ?_, ?_⟩, ?_, ?_, le_rfl, ?_⟩
  · exact List.forall_mem_singleton.mpr le_rfl
  · exact List.forall_mem_singleton.mpr le_rfl
  · refine List.forall_mem_singleton.mpr ?_
    change 0 ≤ capacity.outputTokensPerSecond
    rw [houtput]
    exact haccepted.outputTokensPerSecond_nonneg
  · change 0 ≤ capacity.requiredReplicas
    omega
  · change 0 ≤ capacity.requiredReplicas
    omega
  · exact (add_zero capacity.requiredReplicas).le

theorem scaling_agrees {scaling : Autoscaling.ScaleDecision}
    (h : Capacity.planCapacity workloads benchmark capacityRequirements = .ok capacity)
    (hscaling : Autoscaling.recommendReplicas [scalingObservation capacity]
      (scalingState capacity) scalingPolicy 100 = .ok scaling) :
    scaling.targetReplicas = min 8 capacity.requiredReplicas ∧
      scaling.calculatedDemandReplicas ≤ capacity.requiredReplicas := by
  obtain ⟨-, ⟨hsufficient, -⟩, -, -, -⟩ := Capacity.planCapacity_spec h
  have hfloor : 2 ≤ capacity.requiredReplicas := hsufficient.floor
  constructor
  · rw [scaling_targetReplicas h hscaling, max_eq_right hfloor]
  · obtain ⟨-, newest, target, reason, hnewest, -, rfl⟩ := Autoscaling.exists_move_of_ok hscaling
    obtain rfl := List.mem_singleton.mp hnewest.mem
    exact demand_le_requiredReplicas h

/-- The scaling evidence of a report and the ceiling violation exclude each other. -/
theorem Decided.queueScaling_iff (h : Decided workloads inventory candidateRelease decisions) :
    "queue-scaling" ∈ observedEvidence workloads decisions ↔
      "required replicas exceed fleet ceiling" ∉ decisions.capacity.violations := by
  have hcontrol : ("queue-scaling",
      decisions.capacity.requiredReplicas ≤ decisions.autoscaling.targetReplicas) ∈
        controls decisions := by
    simp only [controls, List.mem_cons, true_or, or_true]
  rw [control_mem_observedEvidence workloads decisions hcontrol,
    (scaling_agrees h.capacity h.autoscaling).1, Capacity.mem_violations_ceiling_iff h.capacity,
    not_lt]
  change _ ↔ decisions.capacity.requiredReplicas ≤ 8
  omega

theorem capacity_autoscaler_agree
    (h : Capacity.planCapacity workloads benchmark capacityRequirements = .ok capacity) :
    (∃ scaling, Autoscaling.recommendReplicas [scalingObservation capacity]
      (scalingState capacity) scalingPolicy 100 = .ok scaling ∧
        scaling.targetReplicas = min 8 capacity.requiredReplicas ∧
        scaling.calculatedDemandReplicas ≤ capacity.requiredReplicas) ∧
    ∀ inventory candidateRelease report,
      runPlan workloads inventory candidateRelease = .ok report →
        report.decisions.capacity = capacity ∧
        report.decisions.autoscaling.targetReplicas = min 8 capacity.requiredReplicas ∧
        report.decisions.autoscaling.calculatedDemandReplicas ≤ capacity.requiredReplicas ∧
        ("queue-scaling" ∈ report.observedEvidence ↔
          "required replicas exceed fleet ceiling" ∉ capacity.violations) := by
  constructor
  · obtain ⟨scaling, hscaling⟩ :=
      Autoscaling.exists_recommendReplicas_iff.mpr (scalingInputs_accepted h)
    exact ⟨scaling, hscaling, scaling_agrees h hscaling⟩
  · intro inventory candidateRelease report hrun
    obtain ⟨hreport, hdecided⟩ := runPlan_eq_gradePlan hrun
    have hcapacity := Except.ok.inj (hdecided.capacity.symm.trans h)
    have hobserved : report.observedEvidence =
        (observedEvidence workloads report.decisions).sort := congrArg (·.observedEvidence) hreport
    obtain ⟨htarget, hdemand⟩ := scaling_agrees hdecided.capacity hdecided.autoscaling
    rw [hobserved, Finset.mem_sort, hdecided.queueScaling_iff, ← hcapacity]
    exact ⟨rfl, htarget, hdemand, Iff.rfl⟩

end Agreement

theorem capacity_autoscaler_agree_default :
    ∃ capacity, Capacity.planCapacity workloads benchmark capacityRequirements = .ok capacity ∧
      (∃ scaling, Autoscaling.recommendReplicas [scalingObservation capacity]
        (scalingState capacity) scalingPolicy 100 = .ok scaling ∧
          scaling.targetReplicas = min 8 capacity.requiredReplicas ∧
          scaling.calculatedDemandReplicas ≤ capacity.requiredReplicas) ∧
      ∀ report, runPlan workloads inventory candidateRelease = .ok report →
        ("queue-scaling" ∈ report.observedEvidence ↔
          "required replicas exceed fleet ceiling" ∉ capacity.violations) := by
  have hok : (Capacity.planCapacity workloads benchmark capacityRequirements).isOk = true := by
    decide +kernel
  cases h : Capacity.planCapacity workloads benchmark capacityRequirements with
  | ok capacity =>
      obtain ⟨hscaling, hreports⟩ := capacity_autoscaler_agree h
      exact ⟨capacity, rfl, hscaling, fun report hrun => (hreports _ _ report hrun).2.2.2⟩
  | error e =>
      rw [h] at hok
      cases hok

end PlanFleet
