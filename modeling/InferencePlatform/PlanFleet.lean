import InferencePlatform.Admission
import InferencePlatform.Autoscaling
import InferencePlatform.Capacity
import InferencePlatform.Memory
import InferencePlatform.Parallelism
import InferencePlatform.Placement
import InferencePlatform.Rollouts
import Mathlib.Data.Finset.Sort

/-!
# The capstone fleet plan

`runPlan` passes workloads, inventory and a candidate release through the seven components and
grades the evidence they earn against fixed requirements. The module constants are those of the
source with decimals read as exact rationals. A report keeps the decisions themselves where the
source turns them into dictionaries.
-/

namespace PlanFleet

open PythonBuiltins

def workloads : List Capacity.WorkloadClass :=
  [⟨"interactive", 3 / 2, 400, 100, 2, 3 / 2⟩, ⟨"generation", 1 / 2, 200, 600, 5, 2⟩]

def benchmark : Capacity.ReplicaBenchmark := ⟨"staging:model@abc:gpu-x", 1000, 350, 8, 17 / 4⟩

def capacityRequirements : Capacity.CapacityRequirements := ⟨2, 8, 1 / 4, 40⟩

def modelMemory : Memory.ModelMemory := ⟨30000000000, 16, 60, 8, 128, 2⟩

def deploymentMemory : Memory.DeploymentMemory := ⟨40, 2, 2, 4096, 6, 4, 9 / 10⟩

def topology : Parallelism.ClusterTopology := ⟨2, 4, 40, 9 / 10, true⟩

def inventory : List Placement.GPU :=
  [⟨"a0", "node-a", 40, {"bf16", "fast-collective"}, {"model@abc"}⟩,
    ⟨"a1", "node-a", 40, {"bf16", "fast-collective"}, {"model@abc"}⟩,
    ⟨"a2", "node-a", 40, {"bf16", "fast-collective"}, ∅⟩,
    ⟨"a3", "node-a", 40, {"bf16", "fast-collective"}, ∅⟩,
    ⟨"b0", "node-b", 40, {"bf16", "fast-collective"}, ∅⟩,
    ⟨"b1", "node-b", 40, {"bf16", "fast-collective"}, ∅⟩,
    ⟨"b2", "node-b", 40, {"bf16", "fast-collective"}, ∅⟩,
    ⟨"b3", "node-b", 40, {"bf16", "fast-collective"}, ∅⟩]

def baselineRelease : Rollouts.ReleaseMeasurement ℚ :=
  ⟨"stable", .canary, true, 10000, 9 / 10, 8 / 10, 1 / 10, 330, 1 / 1000⟩

def candidateRelease : Rollouts.ReleaseMeasurement ℚ :=
  ⟨"model@abc", .canary, true, 1000, 89 / 100, 8 / 10, 1 / 10, 350, 2 / 1000⟩

def releaseRequirements : Rollouts.ReleaseRequirements ℚ :=
  ⟨500, 86 / 100, 3 / 100, 1, 15 / 100, 95 / 100, 1 / 100⟩

def requiredEvidence : Finset String :=
  {"workload:interactive", "workload:generation", "memory-fit", "capacity-plan",
    "parallel-layout", "gpu-placement", "benign-admission", "oversize-shedding", "queue-scaling",
    "canary-gate"}

structure PlanDecisions where
  memory : Memory.MemoryAssessment
  capacity : Capacity.CapacityPlan
  parallelism : Parallelism.ParallelPlan
  placement : Placement.PlacementDecision
  benignAdmission : Admission.AdmissionDecision
  oversizeAdmission : Admission.AdmissionDecision
  autoscaling : Autoscaling.ScaleDecision
  rollout : Rollouts.RolloutDecision

structure PlanReport where
  releaseReady : Bool
  requiredEvidence : List String
  observedEvidence : List String
  violations : List String
  decisions : PlanDecisions
  decidingReasons : List (String × String)

/-! ### Decisions -/

def weightGib : ℚ := (modelMemory.parameters * modelMemory.weightBits : ℤ) / 8 / Memory.gib

/-- `layout_matches_memory_plan`. -/
def LayoutMatches (parallel : Parallelism.ParallelPlan) : Prop :=
  parallel.feasible = true ∧
    parallel.tensorParallel * parallel.pipelineParallel = deploymentMemory.tensorParallelSize

instance (parallel : Parallelism.ParallelPlan) : Decidable (LayoutMatches parallel) :=
  inferInstanceAs (Decidable (_ ∧ _))

def placementRequest (gpusPerReplica : ℤ) (memoryGibPerGpu : ℚ) : Placement.PlacementRequest :=
  ⟨"replica-1", "model@abc", gpusPerReplica, memoryGibPerGpu, {"bf16", "fast-collective"}, true⟩

def placeFirstReplica (parallel : Parallelism.ParallelPlan) (memory : Memory.MemoryAssessment)
    (inventory : List Placement.GPU) : Except PyError Placement.PlacementDecision :=
  if LayoutMatches parallel then
    Placement.placeReplica
      (placementRequest (parallel.tensorParallel * parallel.pipelineParallel)
        memory.requiredGibPerGpu) inventory
  else pure ⟨false, [], "no layout matching the memory plan, so no GPU group was requested"⟩

/-- The benign and the oversize request, decided in this order by one controller. -/
def decideAdmissions : Except PyError (Admission.AdmissionDecision × Admission.AdmissionDecision) :=
  do
  let admission ← Admission.AdmissionController.init ⟨8192, 4, 4096⟩
  let (benign, admission) :=
    (Admission.decide (⟨"interactive-request", 400, 100, 5⟩ : Admission.AdmissionRequest ℚ)
      0 (1 / 2)).run admission
  let benign ← benign
  let (oversize, _) :=
    (Admission.decide (⟨"unbounded-request", 4500, 4500, 30⟩ : Admission.AdmissionRequest ℚ)
      0 0).run admission
  let oversize ← oversize
  pure (benign, oversize)

def scalingPolicy : Autoscaling.AutoscalingPolicy := ⟨2, 8, 350, 3 / 4, 10, 5, 60⟩

def scalingObservation (capacity : Capacity.CapacityPlan) : Autoscaling.ScaleObservation :=
  ⟨100, 0, capacity.outputTokensPerSecond, 15 / 100⟩

def scalingState (capacity : Capacity.CapacityPlan) : Autoscaling.ScaleState :=
  ⟨capacity.requiredReplicas, capacity.requiredReplicas, 0, 0⟩

/-! ### Evidence -/

def earned (condition : Prop) [Decidable condition] (control : String) : Finset String :=
  if condition then {control} else ∅

def observedEvidence (workloads : List Capacity.WorkloadClass) (decisions : PlanDecisions) :
    Finset String :=
  (workloads.map fun workload => "workload:" ++ workload.name).toFinset ∪
    earned (decisions.memory.fits = true) "memory-fit" ∪
    earned (decisions.capacity.releaseReady = true) "capacity-plan" ∪
    earned (LayoutMatches decisions.parallelism ∧
      decisions.capacity.requiredReplicas ≤ decisions.parallelism.dataParallel)
        "parallel-layout" ∪
    earned (decisions.placement.placed = true) "gpu-placement" ∪
    earned (decisions.benignAdmission.action = .admitted) "benign-admission" ∪
    earned (decisions.oversizeAdmission.action = .shed ∧
      contains "token bound" decisions.oversizeAdmission.reason) "oversize-shedding" ∪
    earned (decisions.capacity.requiredReplicas ≤ decisions.autoscaling.targetReplicas)
      "queue-scaling" ∪
    earned (decisions.rollout.action = .promote) "canary-gate"

def decidingReasons (decisions : PlanDecisions) : List (String × String) :=
  [("memory-fit", decisions.memory.reason),
    ("capacity-plan", decisions.capacity.bottleneck ++ " sets " ++
      toString decisions.capacity.requiredReplicas ++ " replicas; binding dimensions: " ++
      ", ".intercalate decisions.capacity.bindingDimensions),
    ("parallel-layout", decisions.parallelism.reason),
    ("gpu-placement", decisions.placement.reason),
    ("benign-admission", decisions.benignAdmission.reason),
    ("oversize-shedding", decisions.oversizeAdmission.reason),
    ("queue-scaling", decisions.autoscaling.reason),
    ("canary-gate", "; ".intercalate decisions.rollout.decidingControls)]

/-- `f"{names}"` on a list of strings without quotes in them. -/
def listRepr (names : List String) : String :=
  "[" ++ ", ".intercalate (names.map fun name => "'" ++ name ++ "'") ++ "]"

def gradePlan (workloads : List Capacity.WorkloadClass) (decisions : PlanDecisions) : PlanReport :=
  let evidence := observedEvidence workloads decisions
  let missing := (requiredEvidence \ evidence).sort
  let violations := decisions.capacity.violations ++
    if missing ≠ [] then ["missing required evidence: " ++ listRepr missing] else []
  ⟨violations = [], requiredEvidence.sort, evidence.sort, violations, decisions,
    decidingReasons decisions⟩

def runPlan (workloads : List Capacity.WorkloadClass) (inventory : List Placement.GPU)
    (candidateRelease : Rollouts.ReleaseMeasurement ℚ) : Except PyError PlanReport := do
  let capacity ← Capacity.planCapacity workloads benchmark capacityRequirements
  let memory ← Memory.assessMemory modelMemory deploymentMemory
  let parallel ← Parallelism.planParallelism
    ⟨weightGib, deploymentMemory.runtimeOverheadGib + memory.kvGibPerGpu, 1⟩ topology
    capacity.requiredReplicas
  let placement ← placeFirstReplica parallel memory inventory
  let (benign, oversize) ← decideAdmissions
  let scaling ← Autoscaling.recommendReplicas [scalingObservation capacity]
    (scalingState capacity) scalingPolicy 100
  let rollout ← Rollouts.evaluateRollout baselineRelease candidateRelease releaseRequirements
  pure (gradePlan workloads
    ⟨memory, capacity, parallel, placement, benign, oversize, scaling, rollout⟩)

end PlanFleet
