import InferencePlatform.Memory
import InferencePlatform.Parallelism

/-!
# Memory assessment and layout planning

The capstone assesses memory for a declared tensor width and then searches a layout for the same
weights, with the assessed KV reservation and the runtime overhead as memory per GPU. Both sides
compute the memory of one GPU: sharded over the declared width, or over the GPUs of the layout.
-/

namespace MemoryLayout

open Memory Parallelism

section Agreement

variable (model : ModelMemory) (deployment : DeploymentMemory) (topology : ClusterTopology)
  (targetReplicas : ℤ)

/-- The weights of the memory model, with the reservation that a memory assessment computed. -/
def parallelModel (memory : MemoryAssessment) : ParallelModel :=
  ⟨(model.parameters * model.weightBits : ℤ) / 8 / gib,
    deployment.runtimeOverheadGib + memory.kvGibPerGpu, 1⟩

def assessAndPlan : Except PyError (MemoryAssessment × ParallelPlan) := do
  let memory ← assessMemory model deployment
  let parallel ← planParallelism (parallelModel model deployment memory) topology targetReplicas
  pure (memory, parallel)

variable {model deployment topology targetReplicas} {memory : MemoryAssessment}

/-- A layout of the declared width needs per GPU what the assessment requires. -/
theorem layoutMemory_eq_requiredGib (hmemory : assessMemory model deployment = .ok memory)
    {tp pp : ℤ} (hwidth : tp * pp = deployment.tensorParallelSize) :
    layoutMemory (parallelModel model deployment memory) tp pp =
      requiredGib model deployment := by
  rw [layoutMemory, hwidth, parallelModel, (assessMemory_spec hmemory).2.1, requiredGib, fixedGib,
    weightGib, div_right_comm _ gib, add_assoc]

/-- The planner accepts what the assessment hands over whenever the cluster has GPUs. -/
theorem parallelModel_accepted (h : Memory.Accepted model deployment)
    (hgpu : topology.gpuMemoryGib = deployment.gpuMemoryGib)
    (hfraction : topology.usableFraction = deployment.usableFraction)
    (hnodes : 0 < topology.nodes) (hgpus : 0 < topology.gpusPerNode)
    (htarget : 1 ≤ targetReplicas) (hmemory : assessMemory model deployment = .ok memory) :
    Parallelism.Accepted (parallelModel model deployment memory) topology targetReplicas where
  weight_pos := by
    have hbits : 0 < model.parameters * model.weightBits :=
      mul_pos h.parameters_pos h.weight_bits_pos
    have hgib : 0 < gib := by norm_num [gib]
    exact div_pos (div_pos (by exact_mod_cast hbits) (by norm_num)) hgib
  runtime_nonneg := by
    rw [parallelModel, (assessMemory_spec hmemory).2.1]
    exact add_nonneg h.overhead_nonneg (mul_nonneg h.kvGibPerRequest_pos.le
      (by exact_mod_cast h.concurrency_pos.le))
  experts_pos := zero_lt_one
  nodes_pos := hnodes
  gpus_pos := hgpus
  gpu_memory_pos := hgpu ▸ h.gpu_memory_pos
  fraction_pos := hfraction ▸ h.fraction_pos
  fraction_le_one := hfraction ▸ h.fraction_le_one
  target_pos := htarget

/-- One stage per GPU of the declared width is a layout on any cluster that is large enough. -/
theorem isLayout_declared (h : Memory.Accepted model deployment)
    (hgpu : topology.gpuMemoryGib = deployment.gpuMemoryGib)
    (hfraction : topology.usableFraction = deployment.usableFraction)
    (hmemory : assessMemory model deployment = .ok memory)
    (hfits : requiredGib model deployment ≤ Memory.usableGib deployment)
    (hcluster : deployment.tensorParallelSize ≤ totalGpus topology) :
    IsLayout (parallelModel model deployment memory) topology 1 deployment.tensorParallelSize where
  tensor_pos := le_rfl
  tensor_dvd := one_dvd _
  tensor_link := .inl rfl
  pipeline_pos := h.tensor_parallel_pos
  fits_cluster := (one_mul deployment.tensorParallelSize).symm ▸ hcluster
  fits_memory := by
    rw [layoutMemory_eq_requiredGib hmemory (one_mul _), Parallelism.usableGib, hgpu, hfraction]
    exact hfits

theorem assessAndPlan_agree (hmodel : Memory.validate model deployment = .ok ())
    (hgpu : topology.gpuMemoryGib = deployment.gpuMemoryGib)
    (hfraction : topology.usableFraction = deployment.usableFraction)
    (hnodes : 0 < topology.nodes) (hgpus : 0 < topology.gpusPerNode)
    (htarget : 1 ≤ targetReplicas) :
    ∃ memory plan, assessAndPlan model deployment topology targetReplicas = .ok (memory, plan) ∧
      (plan.feasible = true →
        plan.tensorParallel * plan.pipelineParallel = deployment.tensorParallelSize →
          plan.memoryGibPerGpu = (memory.requiredGibPerGpu : WithTop ℚ) ∧ memory.fits = true) ∧
      (memory.fits = true →
        deployment.tensorParallelSize ≤ topology.nodes * topology.gpusPerNode →
          plan.feasible = true ∧
            plan.tensorParallel * plan.pipelineParallel ≤ deployment.tensorParallelSize) := by
  have h := Memory.validate_eq_ok_iff.mp hmodel
  obtain ⟨memory, hmemory⟩ := exists_assessMemory h
  obtain ⟨hfits, -, hrequired⟩ := assessMemory_spec hmemory
  obtain ⟨plan, hplan, hchoice⟩ := exists_planParallelism
    (parallelModel_accepted h hgpu hfraction hnodes hgpus htarget hmemory)
  refine ⟨memory, plan, ?_, fun hfeasible hwidth => ?_, fun hfit hcluster => ?_⟩
  · unfold assessAndPlan
    rw [hmemory]
    dsimp only [bind, Except.bind]
    rw [hplan]
    rfl
  · rcases hchoice with ⟨hinfeasible, -⟩ | ⟨-, hchosen, hlayout⟩
    · exact absurd (hfeasible.symm.trans hinfeasible) (by decide)
    · have hsame := layoutMemory_eq_requiredGib hmemory hwidth
      refine ⟨by rw [hlayout, hsame, hrequired], hfits.mpr ?_⟩
      have husable := hchosen.isLayout.fits_memory
      rwa [hsame, Parallelism.usableGib, hgpu, hfraction] at husable
  · have hdeclared := isLayout_declared h hgpu hfraction hmemory (hfits.mp hfit) hcluster
    rcases hchoice with ⟨-, hnone⟩ | ⟨hfeasible, hchosen, -⟩
    · exact absurd hdeclared (hnone _ _)
    · exact ⟨hfeasible, (hchosen.mul_le hdeclared).trans_eq (one_mul _)⟩

theorem assessAndPlan_agree_eight_gpus : ∃ memory plan,
    assessAndPlan ⟨30000000000, 16, 60, 8, 128, 2⟩ ⟨40, 2, 2, 4096, 6, 4, 9 / 10⟩
      ⟨2, 4, 40, 9 / 10, true⟩ 4 = .ok (memory, plan) ∧
      (plan.feasible = true → plan.tensorParallel * plan.pipelineParallel = 2 →
        plan.memoryGibPerGpu = (memory.requiredGibPerGpu : WithTop ℚ) ∧ memory.fits = true) ∧
      (memory.fits = true → (2 : ℤ) ≤ 2 * 4 →
        plan.feasible = true ∧ plan.tensorParallel * plan.pipelineParallel ≤ 2) :=
  assessAndPlan_agree (by decide +kernel) rfl rfl (by decide) (by decide) (by decide)

end Agreement

end MemoryLayout
