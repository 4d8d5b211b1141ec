import InferencePlatform.GroupPacking
import InferencePlatform.PlanFleetRelease

/-!
# What the inventory can host

The capstone checks the replica count against its topology constant and places one replica in the
supplied inventory. `HostsReplicas` asks the inventory for several groups at once. The largest
number that it hosts is `hostedReplicas`: on every node, the whole groups that its eligible GPUs
make up.
-/

namespace PlanFleet

open PythonBuiltins GroupPacking

/-- `gpus_per_replica`. -/
def gpusPerReplica (parallel : Parallelism.ParallelPlan) : ℤ :=
  parallel.tensorParallel * parallel.pipelineParallel

/-- Disjoint groups of the inventory, as many as `n`, each able to host one replica. -/
def HostsReplicas (inventory : List Placement.GPU) (size : ℤ) (memoryGib : ℚ) (n : ℤ) : Prop :=
  ∃ groups : List (List Placement.GPU), n ≤ groups.length ∧
    (∀ group ∈ groups,
      Placement.IsGroup (placementRequest size memoryGib) inventory group) ∧
    groups.Pairwise List.Disjoint

def hostedReplicas (inventory : List Placement.GPU) (size : ℤ) (memoryGib : ℚ) : ℕ :=
  capacity (·.node) size.toNat
    (inventory.filter (Placement.Eligible (placementRequest size memoryGib)))

section Hosting

variable {workloads : List Capacity.WorkloadClass} {inventory : List Placement.GPU}
  {candidateRelease : Rollouts.ReleaseMeasurement ℚ} {report : PlanReport}
  {decisions : PlanDecisions} {size : ℤ} {memoryGib : ℚ}

theorem isPacking_iff (hsize : 0 < size) (groups : List (List Placement.GPU)) :
    IsPacking (·.node) size.toNat
        (inventory.filter (Placement.Eligible (placementRequest size memoryGib))) groups ↔
      (∀ group ∈ groups, Placement.IsGroup (placementRequest size memoryGib) inventory group) ∧
        groups.Pairwise List.Disjoint := by
  have hlength (group : List Placement.GPU) :
      group.length = size.toNat ↔ (group.length : ℤ) = size := by
    omega
  constructor
  · rintro ⟨hsub, hlen, hnode, hdisjoint⟩
    exact ⟨fun group hg => (Placement.isGroup_iff_of_sameNode rfl).mpr
      ⟨hsub group hg, (hlength group).mp (hlen group hg), hnode group hg⟩, hdisjoint⟩
  · rintro ⟨hgroups, hdisjoint⟩
    have hgroup := fun group hg => (Placement.isGroup_iff_of_sameNode rfl).mp (hgroups group hg)
    exact ⟨fun group hg => (hgroup group hg).1,
      fun group hg => (hlength group).mpr (hgroup group hg).2.1,
      fun group hg => (hgroup group hg).2.2, hdisjoint⟩

theorem hostsReplicas_iff (hsize : 0 < size) (hnodup : inventory.Nodup) (n : ℤ) :
    HostsReplicas inventory size memoryGib n ↔ n ≤ hostedReplicas inventory size memoryGib := by
  rw [← Int.toNat_le, hostedReplicas, ← exists_packing_iff (by omega) (hnodup.filter _)]
  simp only [HostsReplicas, isPacking_iff hsize, Int.toNat_le]

theorem released_fleet_hosted (hrun : runPlan workloads inventory candidateRelease = .ok report)
    (hready : report.releaseReady = true) :
    HostsReplicas inventory (gpusPerReplica report.decisions.parallelism)
      report.decisions.memory.requiredGibPerGpu 1 ∧
    report.decisions.capacity.requiredReplicas * gpusPerReplica report.decisions.parallelism ≤
      topology.nodes * topology.gpusPerNode ∧
    (HostsReplicas inventory (gpusPerReplica report.decisions.parallelism)
        report.decisions.memory.requiredGibPerGpu report.decisions.capacity.requiredReplicas ↔
      report.decisions.capacity.requiredReplicas ≤
        hostedReplicas inventory (gpusPerReplica report.decisions.parallelism)
          report.decisions.memory.requiredGibPerGpu) := by
  obtain ⟨hreport, hdecided⟩ := runPlan_eq_gradePlan hrun
  rw [hreport] at hready
  obtain ⟨-, -, hcontrols⟩ := (gradePlan_releaseReady_iff workloads report.decisions).mp hready
  simp only [controls, List.forall_mem_cons, List.not_mem_nil, false_implies, implies_true,
    and_true] at hcontrols
  obtain ⟨-, -, ⟨-, hsupply⟩, hplaced, -⟩ := hcontrols
  rw [hdecided.layout.2.2.2] at hsupply
  have hplace := hdecided.placeReplica
  have hsize : gpusPerReplica report.decisions.parallelism = 2 := hdecided.size_eq
  obtain ⟨group, hgroup⟩ := (Placement.placeReplica_placed_iff hplace).mp hplaced
  refine ⟨⟨[group], le_rfl, List.forall_mem_singleton.mpr hgroup, List.pairwise_singleton _ _⟩,
    ?_, hostsReplicas_iff (by omega) (Placement.nodup_of_placeReplica hplace) _⟩
  rw [hsize]
  change _ ≤ (8 : ℤ)
  omega

end Hosting

/-! ### Two GPUs are enough for a release -/

theorem requiredReplicas_default {capacity : Capacity.CapacityPlan}
    (h : Capacity.planCapacity workloads benchmark capacityRequirements = .ok capacity) :
    capacity.requiredReplicas = 4 := by
  have hfour : (Capacity.planCapacity workloads benchmark capacityRequirements).map
      (·.requiredReplicas) = .ok 4 := by
    decide +kernel
  rw [h] at hfour
  exact Except.ok.inj hfour

theorem candidateRelease_passesGates :
    Rollouts.PassesGates baselineRelease candidateRelease releaseRequirements := by
  constructor <;> decide +kernel

/-- The default workloads and candidate are released on any inventory with one group. -/
theorem exists_released {inventory : List Placement.GPU} (hgroup : HasGroup inventory 2)
    (hok : (runPlan workloads inventory candidateRelease).isOk = true) :
    ∃ report, runPlan workloads inventory candidateRelease = .ok report ∧
      report.releaseReady = true ∧ report.decisions.capacity.requiredReplicas = 4 := by
  cases hrun : runPlan workloads inventory candidateRelease with
  | error e =>
      rw [hrun] at hok
      cases hok
  | ok report =>
      obtain ⟨hreport, hdecided⟩ := runPlan_eq_gradePlan hrun
      have hrequired := requiredReplicas_default hdecided.capacity
      have hleast := (Capacity.planCapacity_spec hdecided.capacity).2.1
      have hconditions : ReleaseConditions workloads inventory candidateRelease 4 2 1 :=
        ⟨hrequired ▸ hleast, Parallelism.chooseLayout_spec (by decide) chooseLayout_parallelModel,
          by decide +kernel, by decide +kernel, by decide, by decide +kernel, by decide,
          memory_fits, rfl, hgroup, candidateRelease_passesGates⟩
      refine ⟨report, rfl, ?_, hrequired⟩
      rw [hreport]
      exact hdecided.releaseReady hconditions

def twoGpus : List Placement.GPU :=
  [⟨"a0", "node-a", 40, {"bf16", "fast-collective"}, {"model@abc"}⟩,
    ⟨"a1", "node-a", 40, {"bf16", "fast-collective"}, {"model@abc"}⟩]

theorem hasGroup_of_twoGpus {inventory : List Placement.GPU} (h : twoGpus.Sublist inventory) :
    HasGroup inventory 2 :=
  ⟨twoGpus, h, rfl, ⟨"node-a", by decide⟩, by decide +kernel⟩

theorem released_fleet_hosted_default : ∃ report,
    runPlan workloads inventory candidateRelease = .ok report ∧
    HostsReplicas inventory (gpusPerReplica report.decisions.parallelism)
      report.decisions.memory.requiredGibPerGpu 1 := by
  obtain ⟨report, hrun, hready, -⟩ := exists_released
    (hasGroup_of_twoGpus (List.sublist_append_left twoGpus (inventory.drop 2))) (by decide +kernel)
  exact ⟨report, hrun, (released_fleet_hosted hrun hready).1⟩

/-- A release for four replicas on an inventory that holds only one. -/
theorem released_fleet_not_hosted : ∃ report,
    runPlan workloads twoGpus candidateRelease = .ok report ∧ report.releaseReady = true ∧
    ¬ HostsReplicas twoGpus (gpusPerReplica report.decisions.parallelism)
      report.decisions.memory.requiredGibPerGpu report.decisions.capacity.requiredReplicas := by
  obtain ⟨report, hrun, hready, hrequired⟩ :=
    exists_released (hasGroup_of_twoGpus (List.Sublist.refl _)) (by decide +kernel)
  obtain ⟨-, hdecided⟩ := runPlan_eq_gradePlan hrun
  have hsize : gpusPerReplica report.decisions.parallelism = 2 := hdecided.size_eq
  refine ⟨report, hrun, hready, ?_⟩
  rw [hsize, hostsReplicas_iff (by decide) (by decide),
    (Memory.assessMemory_spec hdecided.memory).2.2, hrequired]
  decide +kernel

end PlanFleet
