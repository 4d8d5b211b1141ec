import InferencePlatform.Parallelism
import Mathlib.Data.Int.GCD

/-!
# The closed form of the layout search

A layout fits the memory when it spreads the weights over enough GPUs, and one pipeline stage per
GPU is always a candidate. The search therefore stops at the least number of GPUs that fit, and
the tie-break makes the tensor groups as wide as a node allows: the greatest common divisor of
that number and the size of a node. More hardware and less memory only lower the number.
-/

namespace Parallelism

open PythonBuiltins

section ClosedForm

variable (model : ParallelModel) (topology : ClusterTopology)

/-- The weights spread over `g` GPUs leave room for the runtime on each. -/
def Fits (g : ℤ) : Prop :=
  model.weightMemoryGib / g + model.runtimeMemoryGibPerGpu ≤ usableGib topology

variable {model topology} {targetReplicas tp pp g : ℤ} {plan : ParallelPlan}

theorem layoutMemory_le_iff :
    layoutMemory model tp pp ≤ usableGib topology ↔ Fits model topology (tp * pp) := Iff.rfl

theorem Fits.mono {g' : ℤ} (h : Accepted model topology targetReplicas) (hg : 0 < g)
    (hle : g ≤ g') (hfits : Fits model topology g) : Fits model topology g' := by
  have hg' : (0 : ℚ) < g := by exact_mod_cast hg
  have hle' : (g : ℚ) ≤ g' := by exact_mod_cast hle
  exact (add_le_add_left (div_le_div_of_nonneg_left h.weight_pos.le hg' hle') _).trans hfits

/-- One pipeline stage per GPU is a layout on any topology. -/
theorem isLayout_pipeline (hg : 0 < g) (hle : g ≤ totalGpus topology)
    (hfits : Fits model topology g) : IsLayout model topology 1 g where
  tensor_pos := le_rfl
  tensor_dvd := one_dvd _
  tensor_link := Or.inl rfl
  pipeline_pos := hg
  fits_cluster := by rwa [one_mul]
  fits_memory := by rwa [layoutMemory_le_iff, one_mul]

theorem IsLayout.gpus_pos (h : IsLayout model topology tp pp) : 0 < tp * pp :=
  mul_pos (zero_lt_one.trans_le h.tensor_pos) (zero_lt_one.trans_le h.pipeline_pos)

theorem exists_isLayout_iff (h : Accepted model topology targetReplicas) :
    (∃ tp pp, IsLayout model topology tp pp) ↔ Fits model topology (totalGpus topology) := by
  constructor
  · rintro ⟨tp, pp, hlayout⟩
    exact Fits.mono h hlayout.gpus_pos hlayout.fits_cluster hlayout.fits_memory
  · intro hfits
    exact ⟨1, _, isLayout_pipeline (mul_pos h.nodes_pos h.gpus_pos) le_rfl hfits⟩

theorem ChosenLayout.isLeast (h : ChosenLayout model topology tp pp) :
    IsLeast {g : ℤ | 0 < g ∧ Fits model topology g} (tp * pp) := by
  refine ⟨⟨h.isLayout.gpus_pos, h.isLayout.fits_memory⟩, ?_⟩
  rintro g ⟨hg, hfits⟩
  rcases le_or_gt g (totalGpus topology) with hle | hgt
  · have hmul := h.mul_le (isLayout_pipeline hg hle hfits)
    rwa [one_mul] at hmul
  · exact h.isLayout.fits_cluster.trans hgt.le

theorem ChosenLayout.tensor_eq_one (h : ChosenLayout model topology tp pp)
    (hslow : topology.fastIntraNodeCollectives = false) : tp = 1 :=
  h.isLayout.tensor_link.resolve_right (by rw [hslow]; decide)

/-- On fast links the tensor groups are as wide as the node allows. -/
theorem ChosenLayout.tensor_eq_gcd (h : ChosenLayout model topology tp pp)
    (hfast : topology.fastIntraNodeCollectives = true) :
    tp = Int.gcd (tp * pp) topology.gpusPerNode := by
  have hlayout := h.isLayout
  have hgpus := hlayout.gpus_pos
  apply le_antisymm
  · refine Int.le_of_dvd ?_ (Int.dvd_coe_gcd (dvd_mul_right tp pp) hlayout.tensor_dvd)
    exact_mod_cast Int.gcd_pos_of_ne_zero_left _ hgpus.ne'
  · have hwide := Int.gcd_pos_of_ne_zero_left topology.gpusPerNode hgpus.ne'
    have hdvd := Int.gcd_dvd_left (tp * pp) topology.gpusPerNode
    have hnode := Int.gcd_dvd_right (tp * pp) topology.gpusPerNode
    generalize (tp * pp).gcd topology.gpusPerNode = width at *
    obtain ⟨stages, hstages⟩ := hdvd
    have hpos : 0 < (width : ℤ) := by exact_mod_cast hwide
    have hstages_pos : 0 < stages := pos_of_mul_pos_right (hstages ▸ hgpus) hpos.le
    have hwidest : IsLayout model topology width stages :=
      ⟨hpos, hnode, Or.inr hfast, hstages_pos, hstages ▸ hlayout.fits_cluster,
        by rw [layoutMemory_le_iff, ← hstages]; exact hlayout.fits_memory⟩
    have hle : pp ≤ stages := by
      have hscore := h.least width stages hwidest
      simp only [score, hfast, if_true, ← hstages, Prod.Lex.toLex_le_toLex, lt_irrefl,
        false_or, true_and] at hscore
      exact hscore
    refine le_of_mul_le_mul_right ?_ hstages_pos
    rw [← hstages]
    exact mul_le_mul_of_nonneg_left hle (zero_le_one.trans hlayout.tensor_pos)

theorem largestDivisorAtMost_spec {value maximum divisor : ℤ}
    (h : largestDivisorAtMost value maximum = .ok divisor) :
    IsGreatest {d | 1 ≤ d ∧ d ≤ maximum ∧ d ∣ value} divisor := by
  have hmem (d : ℤ) : d ∈ (pyRange 1 (maximum + 1)).filter (fun d => value % d = 0) ↔
      1 ≤ d ∧ d ≤ maximum ∧ d ∣ value := by
    rw [List.mem_filter, mem_pyRange, Int.lt_add_one_iff, decide_eq_true_eq, and_assoc,
      Int.dvd_iff_emod_eq_zero]
  obtain ⟨hdivisor, hmax⟩ := maxBy_spec h
  exact ⟨(hmem divisor).mp hdivisor, fun d hd => hmax d ((hmem d).mpr hd)⟩

/-- The search finds the closed form. -/
theorem planParallelism_closed_form
    (hvalid : validate model topology targetReplicas = .ok ()) :
    ∃ plan, planParallelism model topology targetReplicas = .ok plan ∧
      (plan.feasible = true ↔
        model.weightMemoryGib / (topology.nodes * topology.gpusPerNode : ℤ) +
          model.runtimeMemoryGibPerGpu ≤ topology.gpuMemoryGib * topology.usableFraction) ∧
      (plan.feasible = true → ∃ g : ℤ,
        IsLeast {g : ℤ | 0 < g ∧ model.weightMemoryGib / g + model.runtimeMemoryGibPerGpu ≤
          topology.gpuMemoryGib * topology.usableFraction} g ∧
        plan.tensorParallel * plan.pipelineParallel = g ∧
        plan.tensorParallel = (if topology.fastIntraNodeCollectives then
          (Int.gcd g topology.gpusPerNode : ℤ) else 1) ∧
        plan.memoryGibPerGpu =
          ((model.weightMemoryGib / g + model.runtimeMemoryGibPerGpu : ℚ) : WithTop ℚ) ∧
        IsGreatest {d | 1 ≤ d ∧ d ≤ g ∧ d ∣ model.experts} plan.expertParallel) := by
  have haccepted := validate_eq_ok_iff.mp hvalid
  obtain ⟨plan, hplan, -⟩ := exists_planParallelism haccepted
  refine ⟨plan, hplan, ?_⟩
  obtain ⟨-, ⟨hfeasible, -, hnone⟩ | ⟨hfeasible, hplanned⟩⟩ := planParallelism_cases hplan
  · have hunfit : ¬ Fits model topology (totalGpus topology) := fun hfits => by
      obtain ⟨tp, pp, hlayout⟩ := (exists_isLayout_iff haccepted).mpr hfits
      exact hnone tp pp hlayout
    rw [hfeasible]
    exact ⟨iff_of_false (by decide) hunfit, fun h => absurd h (by decide)⟩
  · have hchosen := hplanned.chosen
    refine ⟨iff_of_true hfeasible ((exists_isLayout_iff haccepted).mp ⟨_, _, hchosen.isLayout⟩),
      fun _ => ⟨_, hchosen.isLeast, rfl, ?_, hplanned.memory,
        largestDivisorAtMost_spec hplanned.experts⟩⟩
    cases hlink : topology.fastIntraNodeCollectives with
    | false => exact hchosen.tensor_eq_one hlink
    | true => exact hchosen.tensor_eq_gcd hlink

end ClosedForm

/-! ### Two nodes of four GPUs -/

def sampleModel : ParallelModel := ⟨140, 4, 8⟩

def sampleTopology : ClusterTopology := ⟨2, 4, 80, 9 / 10, true⟩

theorem planParallelism_closed_form_sample :
    ∃ plan, planParallelism sampleModel sampleTopology 3 = .ok plan ∧
      plan.tensorParallel * plan.pipelineParallel = 3 ∧ plan.tensorParallel = 1 := by
  obtain ⟨plan, hplan, hfeasible, hform⟩ := planParallelism_closed_form (by decide +kernel :
    validate sampleModel sampleTopology 3 = .ok ())
  obtain ⟨g, hleast, hgpus, htensor, -⟩ := hform (hfeasible.mpr (by decide +kernel))
  obtain rfl : g = 3 := by
    refine hleast.unique ⟨by constructor <;> decide +kernel, ?_⟩
    rintro k ⟨hk, hfits⟩
    by_contra! hlt
    have htwo : k = 1 ∨ k = 2 := by omega
    rcases htwo with rfl | rfl
    · exact absurd hfits (by decide +kernel)
    · exact absurd hfits (by decide +kernel)
  exact ⟨plan, hplan, hgpus, htensor⟩

end Parallelism
