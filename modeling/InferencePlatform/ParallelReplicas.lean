import InferencePlatform.GroupPacking
import InferencePlatform.ParallelClosedForm

/-!
# Replicas of a parallel plan on the cluster

The planner divides the GPUs of the cluster by the GPUs of a replica. `IsDeployment` places the
replicas: disjoint tensor groups, each inside one node, `pp` of them for every replica. Tensor
groups tile a node, so no GPU is wasted at a node boundary and the quotient is the largest number
of replicas that can be placed. It does not fall when the hardware grows or the model shrinks.
-/

namespace Parallelism

open GroupPacking

/-- Every GPU as its node and its place in the node. -/
def clusterGpus (topology : ClusterTopology) : List (ℕ × ℕ) :=
  List.range topology.nodes.toNat ×ˢ List.range topology.gpusPerNode.toNat

/-- Replicas of `pp` groups of `tp` GPUs, all groups disjoint and none on two nodes. -/
structure IsDeployment (topology : ClusterTopology) (tp pp : ℤ)
    (replicas : List (List (List (ℕ × ℕ)))) : Prop where
  stages : ∀ replica ∈ replicas, replica.length = pp.toNat
  groups : IsPacking Prod.fst tp.toNat (clusterGpus topology) replicas.flatten

/-- No more memory is needed, and no less hardware is there. -/
structure Eases (model : ParallelModel) (topology : ClusterTopology) (model' : ParallelModel)
    (topology' : ClusterTopology) : Prop where
  weight_le : model'.weightMemoryGib ≤ model.weightMemoryGib
  runtime_le : model'.runtimeMemoryGibPerGpu ≤ model.runtimeMemoryGibPerGpu
  nodes_le : topology.nodes ≤ topology'.nodes
  gpus_le : topology.gpusPerNode ≤ topology'.gpusPerNode
  gpu_memory_le : topology.gpuMemoryGib ≤ topology'.gpuMemoryGib
  fraction_le : topology.usableFraction ≤ topology'.usableFraction

section Replicas

variable {model model' : ParallelModel} {topology topology' : ClusterTopology}
  {targetReplicas tp pp g : ℤ} {plan : ParallelPlan}

theorem clusterGpus_nodup : (clusterGpus topology).Nodup :=
  List.nodup_range.product List.nodup_range

theorem capacity_clusterGpus (hgpus : 0 < topology.gpusPerNode) (size : ℕ) :
    capacity Prod.fst size (clusterGpus topology) =
      topology.nodes.toNat * (topology.gpusPerNode.toNat / size) := by
  have hrange : List.range topology.gpusPerNode.toNat ≠ [] := by
    rw [Ne, List.range_eq_nil]
    omega
  rw [clusterGpus, capacity_product List.nodup_range hrange, List.length_range, List.length_range]

/-- Replicas can be placed up to the quotient of the GPU counts. -/
theorem exists_deployment_iff (h : Accepted model topology targetReplicas)
    (hlayout : IsLayout model topology tp pp) (m : ℕ) :
    (∃ replicas, replicas.length = m ∧ IsDeployment topology tp pp replicas) ↔
      (m : ℤ) ≤ totalGpus topology / (tp * pp) := by
  have htp : 0 < tp := zero_lt_one.trans_le hlayout.tensor_pos
  have hpp : 0 < pp := zero_lt_one.trans_le hlayout.pipeline_pos
  have hbundles : (∃ replicas, replicas.length = m ∧ IsDeployment topology tp pp replicas) ↔
      m * pp.toNat ≤ capacity Prod.fst tp.toNat (clusterGpus topology) := by
    rw [← exists_bundles_iff (by omega) clusterGpus_nodup]
    exact exists_congr fun replicas => and_congr_right fun _ =>
      ⟨fun hd => ⟨hd.stages, hd.groups⟩, fun ⟨hstages, hgroups⟩ => ⟨hstages, hgroups⟩⟩
  obtain ⟨width, hwidth⟩ := hlayout.tensor_dvd
  have hnodes := Int.toNat_of_nonneg h.nodes_pos.le
  have hgpus := Int.toNat_of_nonneg h.gpus_pos.le
  have hgroups : ((topology.nodes.toNat * (topology.gpusPerNode.toNat / tp.toNat) : ℕ) : ℤ) =
      topology.nodes * width := by
    rw [Nat.cast_mul, Int.natCast_ediv, hnodes, hgpus, Int.toNat_of_nonneg htp.le, hwidth,
      Int.mul_ediv_cancel_left _ htp.ne']
  rw [hbundles, capacity_clusterGpus h.gpus_pos, ← Int.ofNat_le, hgroups, Nat.cast_mul,
    Int.toNat_of_nonneg hpp.le, Int.le_ediv_iff_mul_le (mul_pos htp hpp), totalGpus, hwidth,
    mul_left_comm (m : ℤ), mul_left_comm topology.nodes]
  exact (mul_le_mul_iff_right₀ htp).symm

theorem isGreatest_deployed (h : Accepted model topology targetReplicas)
    (hlayout : IsLayout model topology tp pp) :
    IsGreatest {m | ∃ replicas, replicas.length = m ∧ IsDeployment topology tp pp replicas}
      (totalGpus topology / (tp * pp)).toNat := by
  have hnonneg : 0 ≤ totalGpus topology / (tp * pp) :=
    Int.ediv_nonneg (mul_pos h.nodes_pos h.gpus_pos).le hlayout.gpus_pos.le
  constructor
  · exact (exists_deployment_iff h hlayout _).mpr (Int.toNat_of_nonneg hnonneg).le
  · intro m hm
    have hle := (exists_deployment_iff h hlayout m).mp hm
    omega

theorem IsLayout.one_le_replicas (hlayout : IsLayout model topology tp pp) :
    1 ≤ totalGpus topology / (tp * pp) := by
  rw [Int.le_ediv_iff_mul_le hlayout.gpus_pos, one_mul]
  exact hlayout.fits_cluster

/-! ### More hardware -/

theorem Eases.totalGpus_le (h : Accepted model topology targetReplicas)
    (h' : Accepted model' topology' targetReplicas)
    (heases : Eases model topology model' topology') :
    totalGpus topology ≤ totalGpus topology' :=
  mul_le_mul heases.nodes_le heases.gpus_le h.gpus_pos.le h'.nodes_pos.le

theorem Eases.fits (h : Accepted model topology targetReplicas)
    (h' : Accepted model' topology' targetReplicas)
    (heases : Eases model topology model' topology') (hg : 0 < g)
    (hfits : Fits model topology g) : Fits model' topology' g := by
  have hg' : (0 : ℚ) < g := by exact_mod_cast hg
  calc model'.weightMemoryGib / g + model'.runtimeMemoryGibPerGpu
      ≤ model.weightMemoryGib / g + model.runtimeMemoryGibPerGpu :=
        add_le_add (div_le_div_of_nonneg_right heases.weight_le hg'.le) heases.runtime_le
    _ ≤ usableGib topology := hfits
    _ ≤ usableGib topology' := mul_le_mul heases.gpu_memory_le heases.fraction_le
        h.fraction_pos.le h'.gpu_memory_pos.le

theorem dataParallel_nonneg (h : planParallelism model topology targetReplicas = .ok plan) :
    0 ≤ plan.dataParallel := by
  obtain ⟨haccepted, ⟨-, hzero, -⟩ | ⟨-, hplanned⟩⟩ := planParallelism_cases h
  · exact hzero.ge
  · have hone := hplanned.chosen.isLayout.one_le_replicas
    have htarget := haccepted.target_pos
    rw [hplanned.dataParallel]
    omega

/-- Fewer GPUs for a replica and more in the cluster leave room for no fewer replicas. -/
theorem Planned.dataParallel_le {plan' : ParallelPlan}
    (hplanned : Planned model topology targetReplicas plan)
    (hplanned' : Planned model' topology' targetReplicas plan')
    (htotal : totalGpus topology ≤ totalGpus topology')
    (hgpus : plan'.tensorParallel * plan'.pipelineParallel ≤
      plan.tensorParallel * plan.pipelineParallel) : plan.dataParallel ≤ plan'.dataParallel := by
  have hlayout := hplanned.chosen.isLayout
  have hreplicas := hlayout.one_le_replicas
  rw [hplanned.dataParallel, hplanned'.dataParallel]
  apply min_le_min_left
  rw [Int.le_ediv_iff_mul_le hplanned'.chosen.isLayout.gpus_pos]
  calc totalGpus topology / (plan.tensorParallel * plan.pipelineParallel) *
        (plan'.tensorParallel * plan'.pipelineParallel)
      ≤ totalGpus topology / (plan.tensorParallel * plan.pipelineParallel) *
          (plan.tensorParallel * plan.pipelineParallel) :=
        mul_le_mul_of_nonneg_left hgpus (zero_le_one.trans hreplicas)
    _ ≤ totalGpus topology := Int.ediv_mul_le _ hlayout.gpus_pos.ne'
    _ ≤ totalGpus topology' := htotal

theorem Eases.planned (h : Accepted model topology targetReplicas)
    (h' : Accepted model' topology' targetReplicas)
    (heases : Eases model topology model' topology') {plan' : ParallelPlan}
    (hplanned : Planned model topology targetReplicas plan)
    (hplan' : planParallelism model' topology' targetReplicas = .ok plan') :
    Planned model' topology' targetReplicas plan' ∧
      plan'.tensorParallel * plan'.pipelineParallel ≤
        plan.tensorParallel * plan.pipelineParallel := by
  have hlayout := hplanned.chosen.isLayout
  have hfits : Fits model' topology' (plan.tensorParallel * plan.pipelineParallel) :=
    heases.fits h h' hlayout.gpus_pos hlayout.fits_memory
  have hle := hlayout.fits_cluster.trans (heases.totalGpus_le h h')
  obtain ⟨-, ⟨-, -, hnone⟩ | ⟨-, hplanned'⟩⟩ := planParallelism_cases hplan'
  · exact absurd (isLayout_pipeline hlayout.gpus_pos hle hfits) (hnone _ _)
  · exact ⟨hplanned', hplanned'.chosen.isLeast.2 ⟨hlayout.gpus_pos, hfits⟩⟩

/-- The planned replicas fit the cluster, and easing the problem never costs a replica. -/
theorem planParallelism_replicas (hvalid : validate model topology targetReplicas = .ok ()) :
    ∃ plan, planParallelism model topology targetReplicas = .ok plan ∧
      (plan.feasible = true → ∃ most : ℕ,
        IsGreatest {m | ∃ replicas, replicas.length = m ∧
          IsDeployment topology plan.tensorParallel plan.pipelineParallel replicas} most ∧
        1 ≤ most ∧ plan.dataParallel = min targetReplicas most) ∧
      (plan.feasible = false → plan.dataParallel = 0) ∧
      ∀ model' topology', validate model' topology' targetReplicas = .ok () →
        Eases model topology model' topology' →
        ∃ plan', planParallelism model' topology' targetReplicas = .ok plan' ∧
          plan.dataParallel ≤ plan'.dataParallel ∧
          (plan.feasible = true → plan'.feasible = true →
            plan'.tensorParallel * plan'.pipelineParallel ≤
              plan.tensorParallel * plan.pipelineParallel) := by
  have h := validate_eq_ok_iff.mp hvalid
  obtain ⟨plan, hplan, -⟩ := exists_planParallelism h
  refine ⟨plan, hplan, ?_⟩
  obtain ⟨-, ⟨hfeasible, hzero, -⟩ | ⟨hfeasible, hplanned⟩⟩ := planParallelism_cases hplan
  · rw [hfeasible]
    refine ⟨fun h => absurd h (by decide), fun _ => hzero, ?_⟩
    intro model' topology' hvalid' _
    obtain ⟨plan', hplan', -⟩ := exists_planParallelism (validate_eq_ok_iff.mp hvalid')
    exact ⟨plan', hplan', hzero ▸ dataParallel_nonneg hplan', fun h => absurd h (by decide)⟩
  · have hlayout := hplanned.chosen.isLayout
    have hone := hlayout.one_le_replicas
    refine ⟨fun _ => ⟨_, isGreatest_deployed h hlayout, by omega, ?_⟩,
      fun hfalse => absurd (hfeasible.symm.trans hfalse) (by decide), ?_⟩
    · rw [hplanned.dataParallel, Int.toNat_of_nonneg (by omega)]
    · intro model' topology' hvalid' heases
      have h' := validate_eq_ok_iff.mp hvalid'
      obtain ⟨plan', hplan', -⟩ := exists_planParallelism h'
      obtain ⟨hplanned', hgpus⟩ := heases.planned h h' hplanned hplan'
      exact ⟨plan', hplan', hplanned.dataParallel_le hplanned' (heases.totalGpus_le h h') hgpus,
        fun _ _ => hgpus⟩

end Replicas

theorem planParallelism_replicas_sample :
    ∃ plan plan', planParallelism sampleModel sampleTopology 3 = .ok plan ∧
      planParallelism sampleModel { sampleTopology with gpusPerNode := 6 } 3 = .ok plan' ∧
      plan.dataParallel ≤ plan'.dataParallel := by
  obtain ⟨plan, hplan, -, -, hmono⟩ := planParallelism_replicas (by decide +kernel :
    validate sampleModel sampleTopology 3 = .ok ())
  obtain ⟨plan', hplan', hle, -⟩ := hmono sampleModel { sampleTopology with gpusPerNode := 6 }
    (by decide +kernel) (by constructor <;> decide +kernel)
  exact ⟨plan, plan', hplan, hplan', hle⟩

end Parallelism
