import InferencePlatform.PythonBuiltins

/-!
# Memory fit

`assessMemory` adds sharded weights, the KV reservation of the target concurrency and the
runtime overhead, and compares the sum with the usable memory of one GPU. Sizes in GiB are
exact rationals. The reported maximum concurrency comes from a floor division of the clamped
headroom; `fits_iff_le_maxConcurrency` shows that it agrees with the sum for every target.
-/

namespace Memory

open PythonBuiltins

def gib : ℚ := 1024 ^ 3

structure ModelMemory where
  parameters : ℤ
  weightBits : ℤ
  layers : ℤ
  kvHeads : ℤ
  headDim : ℤ
  kvElementBytes : ℤ := 2
  deriving DecidableEq, Repr

structure DeploymentMemory where
  gpuMemoryGib : ℚ
  tensorParallelSize : ℤ
  kvShards : ℤ
  maxLiveTokensPerRequest : ℤ
  targetConcurrency : ℤ
  runtimeOverheadGib : ℚ
  usableFraction : ℚ := 9 / 10
  deriving DecidableEq, Repr

structure MemoryAssessment where
  fits : Bool
  weightGibPerGpu : ℚ
  kvGibPerGpu : ℚ
  overheadGibPerGpu : ℚ
  requiredGibPerGpu : ℚ
  usableGibPerGpu : ℚ
  maxConcurrency : ℤ
  reason : String
  deriving DecidableEq, Repr

def validate (model : ModelMemory) (deployment : DeploymentMemory) : Except PyError Unit :=
  if pyMin model.parameters
      [model.weightBits, model.layers, model.kvHeads, model.headDim, model.kvElementBytes] ≤ 0 then
    throw (.valueError "all model memory fields must be positive")
  else if pyMin deployment.gpuMemoryGib
      [(deployment.tensorParallelSize : ℚ), (deployment.kvShards : ℚ),
        (deployment.maxLiveTokensPerRequest : ℚ), (deployment.targetConcurrency : ℚ)] ≤ 0 then
    throw (.valueError "deployment capacity fields must be positive")
  else if deployment.runtimeOverheadGib < 0 then
    throw (.valueError "runtime overhead may not be negative")
  else if ¬ (0 < deployment.usableFraction ∧ deployment.usableFraction ≤ 1) then
    throw (.valueError "usable_fraction must be in (0, 1]")
  else pure ()

section Assessment

variable (model : ModelMemory) (deployment : DeploymentMemory)

def weightGib : ℚ :=
  (model.parameters * model.weightBits : ℤ) / 8 / deployment.tensorParallelSize / gib

def kvGibPerRequest : ℚ :=
  (2 * model.layers * model.kvHeads * model.headDim * model.kvElementBytes : ℤ) /
    deployment.kvShards / gib * deployment.maxLiveTokensPerRequest

def usableGib : ℚ := deployment.gpuMemoryGib * deployment.usableFraction

def fixedGib : ℚ := weightGib model deployment + deployment.runtimeOverheadGib

def requiredGib : ℚ :=
  fixedGib model deployment + kvGibPerRequest model deployment * deployment.targetConcurrency

def assessMemory : Except PyError MemoryAssessment := do
  validate model deployment
  let usable := usableGib deployment
  let availableForKv := max 0 (usable - fixedGib model deployment)
  let kvPerRequest := kvGibPerRequest model deployment
  let required := requiredGib model deployment
  let fits := required ≤ usable
  let reason :=
    if fits then "fits with " ++ fixed2 (usable - required) ++ " GiB headroom per GPU"
    else "requires " ++ fixed2 (required - usable) ++ " GiB more per GPU"
  pure ⟨fits, weightGib model deployment, kvPerRequest * deployment.targetConcurrency,
    deployment.runtimeOverheadGib, required, usable, ⌊availableForKv / kvPerRequest⌋, reason⟩

/-- What the validator accepts. -/
structure Accepted : Prop where
  parameters_pos : 0 < model.parameters
  weight_bits_pos : 0 < model.weightBits
  layers_pos : 0 < model.layers
  kv_heads_pos : 0 < model.kvHeads
  head_dim_pos : 0 < model.headDim
  kv_element_bytes_pos : 0 < model.kvElementBytes
  gpu_memory_pos : 0 < deployment.gpuMemoryGib
  tensor_parallel_pos : 0 < deployment.tensorParallelSize
  kv_shards_pos : 0 < deployment.kvShards
  live_tokens_pos : 0 < deployment.maxLiveTokensPerRequest
  concurrency_pos : 0 < deployment.targetConcurrency
  overhead_nonneg : 0 ≤ deployment.runtimeOverheadGib
  fraction_pos : 0 < deployment.usableFraction
  fraction_le_one : deployment.usableFraction ≤ 1

variable {model deployment}

theorem validate_eq_ok_iff : validate model deployment = .ok () ↔ Accepted model deployment := by
  unfold validate
  simp only [Except.ite_throw_eq_ok_iff, pyMin_le_iff, List.mem_cons, List.not_mem_nil, or_false,
    exists_eq_or_imp, exists_eq_left, not_or, not_lt, not_le, not_not]
  constructor
  · rintro ⟨⟨hparameters, hbits, hlayers, hheads, hdim, hbytes⟩,
      ⟨hgpu, hwidth, hshards, htokens, hconcurrency⟩, hoverhead, hfraction, -⟩
    exact ⟨hparameters, hbits, hlayers, hheads, hdim, hbytes, hgpu, by exact_mod_cast hwidth,
      by exact_mod_cast hshards, by exact_mod_cast htokens, by exact_mod_cast hconcurrency,
      hoverhead, hfraction.1, hfraction.2⟩
  · intro h
    exact ⟨⟨h.parameters_pos, h.weight_bits_pos, h.layers_pos, h.kv_heads_pos, h.head_dim_pos,
      h.kv_element_bytes_pos⟩, ⟨h.gpu_memory_pos, by exact_mod_cast h.tensor_parallel_pos,
      by exact_mod_cast h.kv_shards_pos, by exact_mod_cast h.live_tokens_pos,
      by exact_mod_cast h.concurrency_pos⟩, h.overhead_nonneg,
      ⟨h.fraction_pos, h.fraction_le_one⟩, rfl⟩

theorem exists_assessMemory (h : Accepted model deployment) :
    ∃ memory, assessMemory model deployment = .ok memory := by
  unfold assessMemory
  rw [validate_eq_ok_iff.mpr h]
  exact ⟨_, rfl⟩

theorem assessMemory_spec {memory : MemoryAssessment}
    (h : assessMemory model deployment = .ok memory) :
    (memory.fits = true ↔ requiredGib model deployment ≤ usableGib deployment) ∧
      memory.kvGibPerGpu = kvGibPerRequest model deployment * deployment.targetConcurrency ∧
      memory.requiredGibPerGpu = requiredGib model deployment := by
  obtain ⟨_, -, h⟩ := Except.bind_eq_ok_iff.mp h
  obtain rfl := Except.ok.inj h
  exact ⟨decide_eq_true_iff, rfl, rfl⟩

/-! ### Concurrency -/

theorem Accepted.of_assessMemory {memory : MemoryAssessment}
    (h : assessMemory model deployment = .ok memory) : Accepted model deployment := by
  obtain ⟨_, hvalid, -⟩ := Except.bind_eq_ok_iff.mp h
  exact validate_eq_ok_iff.mp hvalid

/-- The validator asks nothing of the target concurrency beyond its sign. -/
theorem Accepted.withConcurrency (h : Accepted model deployment) {c : ℤ} (hc : 1 ≤ c) :
    Accepted model { deployment with targetConcurrency := c } :=
  { h with concurrency_pos := hc }

theorem Accepted.kvGibPerRequest_pos (h : Accepted model deployment) :
    0 < kvGibPerRequest model deployment := by
  have hbytes : 0 < 2 * model.layers * model.kvHeads * model.headDim * model.kvElementBytes := by
    have := h.layers_pos
    have := h.kv_heads_pos
    have := h.head_dim_pos
    have := h.kv_element_bytes_pos
    positivity
  have hgib : 0 < gib := by norm_num [gib]
  exact mul_pos (div_pos (div_pos (by exact_mod_cast hbytes)
    (by exact_mod_cast h.kv_shards_pos)) hgib) (by exact_mod_cast h.live_tokens_pos)

theorem maxConcurrency_eq {memory : MemoryAssessment}
    (h : assessMemory model deployment = .ok memory) :
    memory.maxConcurrency = ⌊max 0 (usableGib deployment - fixedGib model deployment) /
      kvGibPerRequest model deployment⌋ := by
  obtain ⟨_, -, h⟩ := Except.bind_eq_ok_iff.mp h
  obtain rfl := Except.ok.inj h
  rfl

/-- A positive demand is never met by the clamp at zero. -/
theorem le_floor_headroom_iff {headroom demand : ℚ} (hdemand : 0 < demand) {c : ℤ} (hc : 1 ≤ c) :
    c ≤ ⌊max 0 headroom / demand⌋ ↔ demand * c ≤ headroom := by
  have hpos : 0 < demand * c := mul_pos hdemand (by exact_mod_cast hc)
  rw [Int.le_floor, le_div_iff₀ hdemand, mul_comm, le_max_iff]
  exact or_iff_right (not_le.mpr hpos)

theorem maxConcurrency_nonneg {memory : MemoryAssessment}
    (h : assessMemory model deployment = .ok memory) : 0 ≤ memory.maxConcurrency := by
  rw [maxConcurrency_eq h]
  exact Int.floor_nonneg.mpr (div_nonneg (le_max_left _ _)
    (Accepted.of_assessMemory h).kvGibPerRequest_pos.le)

/-- Asking for `c` requests changes the requirement and nothing else of the assessment. -/
theorem exists_assessMemory_withConcurrency {memory : MemoryAssessment}
    (h : assessMemory model deployment = .ok memory) {c : ℤ} (hc : 1 ≤ c) :
    ∃ asked, assessMemory model { deployment with targetConcurrency := c } = .ok asked ∧
      (asked.fits = true ↔ c ≤ memory.maxConcurrency) := by
  have haccepted := Accepted.of_assessMemory h
  obtain ⟨asked, hasked⟩ := exists_assessMemory (haccepted.withConcurrency hc)
  have hfits := (assessMemory_spec hasked).1
  refine ⟨asked, hasked, ?_⟩
  rw [hfits, maxConcurrency_eq h, le_floor_headroom_iff haccepted.kvGibPerRequest_pos hc,
    le_sub_iff_add_le']
  rfl

/-- The verdict and the reported maximum concurrency answer the same question. -/
theorem fits_iff_le_maxConcurrency {memory : MemoryAssessment}
    (h : assessMemory model deployment = .ok memory) :
    (∀ c : ℤ, 1 ≤ c → ∃ asked,
      assessMemory model { deployment with targetConcurrency := c } = .ok asked ∧
        (asked.fits = true ↔ c ≤ memory.maxConcurrency)) ∧
      (memory.fits = true ↔ deployment.targetConcurrency ≤ memory.maxConcurrency) ∧
      (∃ single, assessMemory model { deployment with targetConcurrency := 1 } = .ok single ∧
        (memory.maxConcurrency = 0 ↔ single.fits = false)) ∧
      (memory.usableGibPerGpu < memory.weightGibPerGpu + memory.overheadGibPerGpu →
        memory.maxConcurrency = 0) := by
  have hnonneg := maxConcurrency_nonneg h
  obtain ⟨single, hsingle, hone⟩ := exists_assessMemory_withConcurrency h le_rfl
  have hzero : memory.maxConcurrency = 0 ↔ single.fits = false := by
    rw [← Bool.not_eq_true, hone]
    omega
  refine ⟨fun c hc => exists_assessMemory_withConcurrency h hc, ?_, ⟨single, hsingle, hzero⟩, ?_⟩
  · obtain ⟨asked, hasked, hfits⟩ :=
      exists_assessMemory_withConcurrency h (Accepted.of_assessMemory h).concurrency_pos
    obtain rfl := Except.ok.inj (h.symm.trans hasked)
    exact hfits
  · intro hover
    have hfixed : usableGib deployment < fixedGib model deployment := by
      obtain ⟨_, -, h⟩ := Except.bind_eq_ok_iff.mp h
      obtain rfl := Except.ok.inj h
      exact hover
    rw [maxConcurrency_eq h, max_eq_left (sub_nonpos.mpr hfixed.le), zero_div, Int.floor_zero]

theorem fits_iff_le_maxConcurrency_two_gpus :
    ∃ memory, assessMemory ⟨30000000000, 16, 60, 8, 128, 2⟩ ⟨40, 2, 2, 4096, 6, 4, 9 / 10⟩ =
      .ok memory ∧
      (∀ c : ℤ, 1 ≤ c → ∃ asked,
        assessMemory ⟨30000000000, 16, 60, 8, 128, 2⟩ ⟨40, 2, 2, 4096, c, 4, 9 / 10⟩ = .ok asked ∧
          (asked.fits = true ↔ c ≤ memory.maxConcurrency)) ∧
      (memory.fits = true ↔ 6 ≤ memory.maxConcurrency) := by
  have haccepted : Accepted ⟨30000000000, 16, 60, 8, 128, 2⟩ ⟨40, 2, 2, 4096, 6, 4, 9 / 10⟩ :=
    validate_eq_ok_iff.mp (by decide +kernel)
  obtain ⟨memory, h⟩ := exists_assessMemory haccepted
  obtain ⟨hall, hfits, -⟩ := fits_iff_le_maxConcurrency h
  exact ⟨memory, h, hall, hfits⟩

end Assessment

end Memory
