import InferencePlatform.PythonBuiltins
import Mathlib.Data.Prod.Lex

/-!
# Parallel layouts

A layout is a tensor width, a number of pipeline stages and the memory it needs per GPU.
`layoutCandidates` enumerates the layouts that fit, `chooseLayout` takes the first one of least
score, and `planParallelism` fills the cluster with replicas of it. Memory sizes are exact
rationals, and the memory of an infeasible plan is infinite.
-/

namespace Parallelism

open PythonBuiltins

structure ParallelModel where
  weightMemoryGib : ℚ
  runtimeMemoryGibPerGpu : ℚ
  experts : ℤ := 1
  deriving DecidableEq, Repr

structure ClusterTopology where
  nodes : ℤ
  gpusPerNode : ℤ
  gpuMemoryGib : ℚ
  usableFraction : ℚ
  fastIntraNodeCollectives : Bool
  deriving DecidableEq, Repr

structure ParallelPlan where
  feasible : Bool
  tensorParallel : ℤ
  pipelineParallel : ℤ
  dataParallel : ℤ
  expertParallel : ℤ
  memoryGibPerGpu : WithTop ℚ
  reason : String
  deriving DecidableEq

def validate (model : ParallelModel) (topology : ClusterTopology) (targetReplicas : ℤ) :
    Except PyError Unit :=
  if model.weightMemoryGib ≤ 0 ∨ model.runtimeMemoryGibPerGpu < 0 then
    throw (.valueError "model memory must be positive with non-negative runtime memory")
  else if model.experts ≤ 0 then
    throw (.valueError "expert count must be positive")
  else if pyMin (topology.nodes : ℚ) [(topology.gpusPerNode : ℚ), topology.gpuMemoryGib] ≤ 0 then
    throw (.valueError "cluster capacity must be positive")
  else if ¬ (0 < topology.usableFraction ∧ topology.usableFraction ≤ 1) then
    throw (.valueError "usable_fraction must be in (0, 1]")
  else if targetReplicas ≤ 0 then
    throw (.valueError "target_replicas must be positive")
  else pure ()

def largestDivisorAtMost (value maximum : ℤ) : Except PyError ℤ :=
  maxBy id ((pyRange 1 (maximum + 1)).filter fun divisor => value % divisor = 0)

section Planner

variable (model : ParallelModel) (topology : ClusterTopology)

def totalGpus : ℤ := topology.nodes * topology.gpusPerNode

def usableGib : ℚ := topology.gpuMemoryGib * topology.usableFraction

def tensorWidths : List ℤ :=
  (pyRange 1 (topology.gpusPerNode + 1)).filter fun width =>
    topology.gpusPerNode % width = 0 ∧ (width = 1 ∨ topology.fastIntraNodeCollectives)

def layoutMemory (tp pp : ℤ) : ℚ :=
  model.weightMemoryGib / (tp * pp : ℤ) + model.runtimeMemoryGibPerGpu

def layoutCandidates : List (ℤ × ℤ × ℚ) :=
  (tensorWidths topology).flatMap fun tp =>
    (pyRange 1 (totalGpus topology / tp + 1)).filterMap fun pp =>
      if layoutMemory model tp pp ≤ usableGib topology then some (tp, pp, layoutMemory model tp pp)
      else none

def score (candidate : ℤ × ℤ × ℚ) : ℤ ×ₗ ℤ :=
  let (tp, pp, _) := candidate
  toLex (tp * pp, if topology.fastIntraNodeCollectives then pp else tp)

def chooseLayout : Option (ℤ × ℤ × ℚ) :=
  minBy? (score topology) (layoutCandidates model topology)

def planParallelism (targetReplicas : ℤ) : Except PyError ParallelPlan := do
  validate model topology targetReplicas
  match chooseLayout model topology with
  | none =>
    pure ⟨false, 0, 0, 0, 0, ⊤, "no supported tensor/pipeline layout fits usable GPU memory"⟩
  | some (tp, pp, memory) =>
    let gpusPerReplica := tp * pp
    let availableReplicas := totalGpus topology / gpusPerReplica
    let dp := min targetReplicas availableReplicas
    let ep ← largestDivisorAtMost model.experts gpusPerReplica
    let reason :=
      if dp < targetReplicas then
        "layout fits, but cluster supplies " ++ toString dp ++ "/" ++ toString targetReplicas ++
          " requested replicas"
      else if 1 < pp ∧ tp = 1 then
        "pipeline split chosen because tensor collectives are unavailable or unnecessary"
      else if 1 < tp then
        "intra-node tensor split is the smallest fast-link layout that fits"
      else "one GPU per replica fits; remaining GPUs provide data parallelism"
    pure ⟨true, tp, pp, dp, ep, memory, reason⟩

/-! ### The chosen layout -/

/-- A layout that the planner may use: tensor groups tile a node, and the memory fits. -/
structure IsLayout (tp pp : ℤ) : Prop where
  tensor_pos : 1 ≤ tp
  tensor_dvd : tp ∣ topology.gpusPerNode
  tensor_link : tp = 1 ∨ topology.fastIntraNodeCollectives = true
  pipeline_pos : 1 ≤ pp
  fits_cluster : tp * pp ≤ totalGpus topology
  fits_memory : layoutMemory model tp pp ≤ usableGib topology

/-- The layout with the fewest GPUs, and among those the one the link speed prefers. -/
structure ChosenLayout (tp pp : ℤ) : Prop where
  isLayout : IsLayout model topology tp pp
  least : ∀ tp' pp', IsLayout model topology tp' pp' →
    score topology (tp, pp, layoutMemory model tp pp) ≤
      score topology (tp', pp', layoutMemory model tp' pp')

variable {model topology}

theorem mem_layoutCandidates (hnode : 0 < topology.gpusPerNode) {tp pp : ℤ} {memory : ℚ} :
    (tp, pp, memory) ∈ layoutCandidates model topology ↔
      IsLayout model topology tp pp ∧ memory = layoutMemory model tp pp := by
  simp only [layoutCandidates, tensorWidths, List.mem_flatMap, List.mem_filter, mem_pyRange,
    decide_eq_true_eq, List.mem_filterMap, Option.ite_none_right_eq_some, Option.some.injEq,
    Prod.mk.injEq]
  constructor
  · rintro ⟨tp, ⟨⟨htp, -⟩, hdvd, hlink⟩, pp, ⟨hpp, hle⟩, hmemory, rfl, rfl, rfl⟩
    refine ⟨⟨htp, Int.dvd_of_emod_eq_zero hdvd, hlink, hpp, ?_, hmemory⟩, rfl⟩
    have hmul := (Int.le_ediv_iff_mul_le (by omega)).mp (Int.lt_add_one_iff.mp hle)
    rwa [mul_comm] at hmul
  · rintro ⟨h, rfl⟩
    have htp := h.tensor_pos
    refine ⟨tp, ⟨⟨htp, ?_⟩, Int.emod_eq_zero_of_dvd h.tensor_dvd, h.tensor_link⟩, pp,
      ⟨h.pipeline_pos, ?_⟩, h.fits_memory, rfl, rfl, rfl⟩
    · exact Int.lt_add_one_iff.mpr (Int.le_of_dvd hnode h.tensor_dvd)
    · refine Int.lt_add_one_iff.mpr ((Int.le_ediv_iff_mul_le (by omega)).mpr ?_)
      rw [mul_comm]
      exact h.fits_cluster

theorem chooseLayout_spec (hnode : 0 < topology.gpusPerNode) {tp pp : ℤ} {memory : ℚ}
    (h : chooseLayout model topology = some (tp, pp, memory)) :
    ChosenLayout model topology tp pp := by
  obtain ⟨hmem, hleast⟩ := minBy?_spec h
  obtain ⟨hlayout, rfl⟩ := (mem_layoutCandidates hnode).mp hmem
  refine ⟨hlayout, fun tp' pp' h' => ?_⟩
  exact hleast _ ((mem_layoutCandidates hnode).mpr ⟨h', rfl⟩)

theorem planParallelism_of_chooseLayout {targetReplicas : ℤ} {plan : ParallelPlan} {tp pp : ℤ}
    {memory : ℚ} (hlayout : chooseLayout model topology = some (tp, pp, memory))
    (h : planParallelism model topology targetReplicas = .ok plan) :
    plan.feasible = true ∧ plan.tensorParallel = tp ∧ plan.pipelineParallel = pp ∧
      plan.dataParallel = min targetReplicas (totalGpus topology / (tp * pp)) := by
  obtain ⟨_, -, h⟩ := Except.bind_eq_ok_iff.mp h
  rw [hlayout] at h
  obtain ⟨ep, -, h⟩ := Except.bind_eq_ok_iff.mp h
  obtain rfl := Except.ok.inj h
  exact ⟨rfl, rfl, rfl, rfl⟩

/-! ### Accepted inputs -/

variable (model topology) in
structure Accepted (targetReplicas : ℤ) : Prop where
  weight_pos : 0 < model.weightMemoryGib
  runtime_nonneg : 0 ≤ model.runtimeMemoryGibPerGpu
  experts_pos : 0 < model.experts
  nodes_pos : 0 < topology.nodes
  gpus_pos : 0 < topology.gpusPerNode
  gpu_memory_pos : 0 < topology.gpuMemoryGib
  fraction_pos : 0 < topology.usableFraction
  fraction_le_one : topology.usableFraction ≤ 1
  target_pos : 0 < targetReplicas

theorem validate_eq_ok_iff {targetReplicas : ℤ} :
    validate model topology targetReplicas = .ok () ↔ Accepted model topology targetReplicas := by
  unfold validate
  simp only [Except.ite_throw_eq_ok_iff, pyMin_le_iff, List.mem_cons, List.not_mem_nil, or_false,
    exists_eq_or_imp, exists_eq_left, not_or, not_lt, not_le, not_not]
  constructor
  · rintro ⟨⟨hweight, hruntime⟩, hexperts, ⟨hnodes, hgpus, hmemory⟩, hfraction, htarget, -⟩
    exact ⟨hweight, hruntime, hexperts, by exact_mod_cast hnodes, by exact_mod_cast hgpus,
      hmemory, hfraction.1, hfraction.2, htarget⟩
  · intro h
    exact ⟨⟨h.weight_pos, h.runtime_nonneg⟩, h.experts_pos, ⟨by exact_mod_cast h.nodes_pos,
      by exact_mod_cast h.gpus_pos, h.gpu_memory_pos⟩, ⟨h.fraction_pos, h.fraction_le_one⟩,
      h.target_pos, rfl⟩

/-- One divides every expert count, so the search for expert parallelism never comes up empty. -/
theorem exists_largestDivisorAtMost (value : ℤ) {maximum : ℤ} (h : 1 ≤ maximum) :
    ∃ divisor, largestDivisorAtMost value maximum = .ok divisor := by
  refine exists_maxBy id (List.mem_filter.mpr ⟨mem_pyRange.mpr ⟨le_rfl, ?_⟩, ?_⟩)
  · exact Int.lt_add_one_iff.mpr h
  · exact decide_eq_true (Int.emod_one value)

variable (model topology) in
/-- A feasible plan, in terms of the chosen layout. -/
structure Planned (targetReplicas : ℤ) (plan : ParallelPlan) : Prop where
  chosen : ChosenLayout model topology plan.tensorParallel plan.pipelineParallel
  memory : plan.memoryGibPerGpu =
    (layoutMemory model plan.tensorParallel plan.pipelineParallel : ℚ)
  dataParallel : plan.dataParallel = min targetReplicas
    (totalGpus topology / (plan.tensorParallel * plan.pipelineParallel))
  experts : largestDivisorAtMost model.experts (plan.tensorParallel * plan.pipelineParallel) =
    .ok plan.expertParallel

/-- A plan is the chosen layout with its replicas, or there is no layout at all. -/
theorem planParallelism_cases {targetReplicas : ℤ} {plan : ParallelPlan}
    (h : planParallelism model topology targetReplicas = .ok plan) :
    Accepted model topology targetReplicas ∧
      ((plan.feasible = false ∧ plan.dataParallel = 0 ∧
          ∀ tp pp, ¬ IsLayout model topology tp pp) ∨
        (plan.feasible = true ∧ Planned model topology targetReplicas plan)) := by
  obtain ⟨_, hvalid, h⟩ := Except.bind_eq_ok_iff.mp h
  have haccepted := validate_eq_ok_iff.mp hvalid
  refine ⟨haccepted, ?_⟩
  cases hchoice : chooseLayout model topology with
  | none =>
      rw [hchoice] at h
      obtain rfl := Except.ok.inj h
      refine Or.inl ⟨rfl, rfl, fun tp pp hlayout => ?_⟩
      have hmem := (mem_layoutCandidates haccepted.gpus_pos).mpr ⟨hlayout, rfl⟩
      rw [minBy?_eq_none_iff.mp hchoice] at hmem
      exact absurd hmem List.not_mem_nil
  | some candidate =>
      obtain ⟨tp, pp, memory⟩ := candidate
      rw [hchoice] at h
      obtain ⟨ep, hep, h⟩ := Except.bind_eq_ok_iff.mp h
      obtain rfl := Except.ok.inj h
      obtain ⟨-, rfl⟩ := (mem_layoutCandidates haccepted.gpus_pos).mp (minBy?_spec hchoice).1
      exact Or.inr ⟨rfl, chooseLayout_spec haccepted.gpus_pos hchoice, rfl, rfl, hep⟩

/-- Accepted inputs get a plan, and it is the chosen layout unless no layout fits. -/
theorem exists_planParallelism {targetReplicas : ℤ} (h : Accepted model topology targetReplicas) :
    ∃ plan, planParallelism model topology targetReplicas = .ok plan ∧
      ((plan.feasible = false ∧ ∀ tp pp, ¬ IsLayout model topology tp pp) ∨
        (plan.feasible = true ∧
          ChosenLayout model topology plan.tensorParallel plan.pipelineParallel ∧
          plan.memoryGibPerGpu =
            (layoutMemory model plan.tensorParallel plan.pipelineParallel : ℚ))) := by
  have hreturns : ∃ plan, planParallelism model topology targetReplicas = .ok plan := by
    unfold planParallelism
    rw [validate_eq_ok_iff.mpr h]
    cases hchoice : chooseLayout model topology with
    | none => exact ⟨_, rfl⟩
    | some candidate =>
        have hlayout := (chooseLayout_spec h.gpus_pos hchoice).isLayout
        obtain ⟨ep, hep⟩ := exists_largestDivisorAtMost model.experts
          (one_le_mul_of_one_le_of_one_le hlayout.tensor_pos hlayout.pipeline_pos)
        exact ⟨_, Except.bind_eq_ok_iff.mpr ⟨(), rfl, Except.bind_eq_ok_iff.mpr ⟨ep, hep, rfl⟩⟩⟩
  obtain ⟨plan, hplan⟩ := hreturns
  refine ⟨plan, hplan, ?_⟩
  obtain ⟨-, ⟨hfeasible, -, hnone⟩ | ⟨hfeasible, hplanned⟩⟩ := planParallelism_cases hplan
  · exact Or.inl ⟨hfeasible, hnone⟩
  · exact Or.inr ⟨hfeasible, hplanned.chosen, hplanned.memory⟩

theorem ChosenLayout.mul_le {tp pp tp' pp' : ℤ} (h : ChosenLayout model topology tp pp)
    (h' : IsLayout model topology tp' pp') : tp * pp ≤ tp' * pp' := by
  have hle := h.least tp' pp' h'
  rcases Prod.Lex.toLex_le_toLex.mp hle with hlt | ⟨heq, -⟩
  · exact hlt.le
  · exact heq.le

end Planner

end Parallelism
