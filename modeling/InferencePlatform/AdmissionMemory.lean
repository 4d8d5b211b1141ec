import InferencePlatform.AdmissionBursts
import InferencePlatform.Memory

/-!
# Admission and the memory of a GPU

The memory assessment counts in requests of the full length, the controller in live tokens. What
is resident on a GPU is the weights, the overhead and the KV state of every reserved token. It fits
in every state of every run exactly when the token budget is within `tokenCapacity`, of which the
assessment reports the number of full-length requests.
-/

namespace Memory

variable {model : ModelMemory} {deployment : DeploymentMemory} {memory : MemoryAssessment}

section Tokens

variable (model : ModelMemory) (deployment : DeploymentMemory)

def kvGibPerToken : ℚ :=
  (2 * model.layers * model.kvHeads * model.headDim * model.kvElementBytes : ℤ) /
    deployment.kvShards / gib

/-- The live tokens that fit beside the weights and the overhead. -/
def tokenCapacity : ℤ :=
  ⌊max 0 (usableGib deployment - fixedGib model deployment) / kvGibPerToken model deployment⌋

theorem kvGibPerRequest_eq : kvGibPerRequest model deployment =
    kvGibPerToken model deployment * deployment.maxLiveTokensPerRequest := rfl

end Tokens

theorem Accepted.kvGibPerToken_pos (h : Accepted model deployment) :
    0 < kvGibPerToken model deployment := by
  have hrequest := h.kvGibPerRequest_pos
  rw [kvGibPerRequest_eq] at hrequest
  exact pos_of_mul_pos_left hrequest (by exact_mod_cast h.live_tokens_pos.le)

/-- The reported concurrency is the token capacity in units of full-length requests. -/
theorem maxConcurrency_eq_div (h : assessMemory model deployment = .ok memory) :
    memory.maxConcurrency =
      tokenCapacity model deployment / deployment.maxLiveTokensPerRequest := by
  have hlength := (Accepted.of_assessMemory h).live_tokens_pos
  have hlength' : (0 : ℚ) < deployment.maxLiveTokensPerRequest := by exact_mod_cast hlength
  refine eq_of_forall_le_iff fun c => ?_
  rw [maxConcurrency_eq h, kvGibPerRequest_eq, ← div_div, Int.le_floor, le_div_iff₀ hlength',
    Int.le_ediv_iff_mul_le hlength, tokenCapacity, Int.le_floor, Int.cast_mul]

/-- The capacity holds the reported number of full-length requests and less than one more. -/
theorem tokenCapacity_mem_Ico (h : assessMemory model deployment = .ok memory) :
    tokenCapacity model deployment ∈
      Set.Ico (memory.maxConcurrency * deployment.maxLiveTokensPerRequest)
        ((memory.maxConcurrency + 1) * deployment.maxLiveTokensPerRequest) := by
  have hlength := (Accepted.of_assessMemory h).live_tokens_pos
  rw [maxConcurrency_eq_div h]
  exact ⟨Int.ediv_mul_le _ hlength.ne', Int.lt_ediv_add_one_mul_self _ hlength⟩

end Memory

namespace Admission

open CallRuns OrderedDict PythonBuiltins Reservation

/-- What is resident on one GPU when every reservation is used to the full. -/
def residentGib (model : Memory.ModelMemory) (deployment : Memory.DeploymentMemory)
    (self : AdmissionController) : ℚ :=
  Memory.fixedGib model deployment +
    Memory.kvGibPerToken model deployment * admittedTokens self.decisions

def admittedCount (self : AdmissionController) : ℕ :=
  (self.decisions.values.filter (fun d => d.action = .admitted)).length

variable {T : Type} [Add T] [Zero T] [LT T] [DecidableLT T]

section Budget

variable {policy : AdmissionPolicy} {self : AdmissionController} {model : Memory.ModelMemory}
  {deployment : Memory.DeploymentMemory} {memory : Memory.MemoryAssessment}

/-- Requests of one token each under fresh identifiers. -/
def unitBurst (now est deadline : T) (n : ℕ) : List (Arrival T) :=
  (List.range n).map fun i => ⟨⟨repeatName i, 1, 0, deadline⟩, now, est⟩

omit [DecidableLT T] in
theorem unitBurst_passes {now est deadline : T} (hest : ¬ est < 0)
    (hdeadline : ¬ deadline < now + est) (hbound : 0 < policy.maxTokensPerRequest) (n : ℕ) :
    ∀ a ∈ unitBurst now est deadline n, a.Passes policy := by
  intro a ha
  obtain ⟨i, -, rfl⟩ := List.mem_map.mp ha
  exact ⟨isBlank_repeatName i, zero_le_one, le_rfl, zero_lt_one, hest, hbound, hdeadline⟩

omit [Add T] [Zero T] [LT T] [DecidableLT T] in
theorem unitBurst_nodup (now est deadline : T) (n : ℕ) :
    ((unitBurst now est deadline n).map Arrival.identifier).Nodup := by
  rw [unitBurst, List.map_map]
  exact List.nodup_range.map repeatName_injective

omit [Add T] [Zero T] [LT T] [DecidableLT T] in
theorem unitBurst_sum (now est deadline : T) (n : ℕ) :
    ((unitBurst now est deadline n).map Arrival.tokens).sum = n := by
  rw [unitBurst, List.map_map]
  change ((List.range n).map fun _ => (1 : ℤ)).sum = n
  rw [List.map_const', List.sum_replicate, List.length_range, nsmul_one]

/-- The budget can be used up to the last token. -/
theorem exists_run_full (h : AdmissionController.init policy = .ok self)
    (hclock : ∃ now est deadline : T, ¬ est < 0 ∧ ¬ deadline < now + est) :
    ∃ calls : List (AdmissionCall T),
      (finalState step self calls).liveTokens = policy.maxLiveTokens := by
  obtain ⟨now, est, deadline, hest, hdeadline⟩ := hclock
  have hI := init_inStep h
  obtain ⟨⟨⟨hlive, hbound⟩, -⟩, rfl⟩ := AdmissionController.init_eq_ok_iff.mp h
  have hn : (policy.maxLiveTokens.toNat : ℤ) = policy.maxLiveTokens := Int.toNat_of_nonneg hlive.le
  have hpass := unitBurst_passes hest hdeadline hbound policy.maxLiveTokens.toNat
  have hadmits := burst_admits ⟨policy, 0, 0, .empty⟩ _ hpass
    (unitBurst_nodup now est deadline policy.maxLiveTokens.toNat) fun _ _ => rfl
  have hsum := unitBurst_sum now est deadline policy.maxLiveTokens.toNat
  obtain ⟨hfinal, -⟩ := hadmits.of_taken_eq <| by
    apply (taken_eq_iff hI.freeTokens_nonneg fun a ha => (hpass a ha).tokens_pos.le).mpr
    rw [hsum, hn, hI.freeTokens_eq, sub_zero]
  exact ⟨_, by rw [hfinal, hsum, hn, zero_add]⟩

theorem residentGib_le_iff (hmem : Memory.assessMemory model deployment = .ok memory) (n : ℤ)
    (hn : 0 < n) :
    Memory.fixedGib model deployment + Memory.kvGibPerToken model deployment * n ≤
      memory.usableGibPerGpu ↔ n ≤ Memory.tokenCapacity model deployment := by
  have hpos := (Memory.Accepted.of_assessMemory hmem).kvGibPerToken_pos
  rw [Memory.tokenCapacity, Memory.le_floor_headroom_iff hpos hn, le_sub_iff_add_le']
  obtain ⟨_, -, h⟩ := Except.bind_eq_ok_iff.mp hmem
  obtain rfl := Except.ok.inj h
  rfl

theorem InStep.residentGib_le (hI : InStep policy self)
    (hmem : Memory.assessMemory model deployment = .ok memory)
    (hbudget : Memory.fixedGib model deployment +
      Memory.kvGibPerToken model deployment * policy.maxLiveTokens ≤ memory.usableGibPerGpu) :
    residentGib model deployment self ≤ memory.usableGibPerGpu := by
  have hpos := (Memory.Accepted.of_assessMemory hmem).kvGibPerToken_pos
  have hle : (self.liveTokens : ℚ) ≤ policy.maxLiveTokens := Int.cast_le.mpr hI.live_le
  have hkv := mul_le_mul_of_nonneg_left hle hpos.le
  rw [residentGib, ← hI.live_eq]
  linarith

/-- A token budget is safe in every state of every run exactly when it is within the token
capacity. That capacity is the assessed concurrency in full-length requests and less than one
more, so a budget of that many such requests is safe and one of one more is not. -/
theorem resident_fits_iff (hmem : Memory.assessMemory model deployment = .ok memory)
    (h : AdmissionController.init policy = .ok self)
    (hclock : ∃ now est deadline : T, ¬ est < 0 ∧ ¬ deadline < now + est) :
    ((∀ calls : List (AdmissionCall T),
        residentGib model deployment (finalState step self calls) ≤ memory.usableGibPerGpu) ↔
      policy.maxLiveTokens ≤ Memory.tokenCapacity model deployment) ∧
    memory.maxConcurrency =
      Memory.tokenCapacity model deployment / deployment.maxLiveTokensPerRequest ∧
    (policy.maxLiveTokens ≤ memory.maxConcurrency * deployment.maxLiveTokensPerRequest →
      ∀ calls : List (AdmissionCall T),
        residentGib model deployment (finalState step self calls) ≤ memory.usableGibPerGpu) ∧
    ((memory.maxConcurrency + 1) * deployment.maxLiveTokensPerRequest ≤ policy.maxLiveTokens →
      ∃ calls : List (AdmissionCall T),
        memory.usableGibPerGpu < residentGib model deployment (finalState step self calls)) := by
  have hlive := (AdmissionController.init_eq_ok_iff.mp h).1.1.1
  obtain ⟨hfloor, hceil⟩ := Memory.tokenCapacity_mem_Ico hmem
  have hiff : (∀ calls : List (AdmissionCall T),
      residentGib model deployment (finalState step self calls) ≤ memory.usableGibPerGpu) ↔
        policy.maxLiveTokens ≤ Memory.tokenCapacity model deployment := by
    rw [← residentGib_le_iff hmem _ hlive]
    constructor
    · intro hsafe
      obtain ⟨calls, hfull⟩ := exists_run_full h hclock
      have hle := hsafe calls
      rwa [residentGib, ← (run_inStep (init_inStep h) calls).live_eq, hfull] at hle
    · exact fun hbudget calls => (run_inStep (init_inStep h) calls).residentGib_le hmem hbudget
  refine ⟨hiff, Memory.maxConcurrency_eq_div hmem, fun hbudget => ?_, fun hbudget => ?_⟩
  · exact hiff.mpr (hbudget.trans hfloor)
  · have hunsafe := mt hiff.mp (not_le.mpr (hceil.trans_le hbudget))
    simpa only [not_forall, not_le] using hunsafe

theorem capstoneMemory_accepted :
    Memory.Accepted ⟨30000000000, 16, 60, 8, 128, 2⟩ ⟨40, 2, 2, 4096, 6, 4, 9 / 10⟩ :=
  Memory.validate_eq_ok_iff.mp (by decide +kernel)

/-- The budget of the capstone on its deployment. -/
theorem resident_fits_iff_capstone : ∃ memory,
    Memory.assessMemory ⟨30000000000, 16, 60, 8, 128, 2⟩ ⟨40, 2, 2, 4096, 6, 4, 9 / 10⟩ =
      .ok memory ∧
    ∀ calls : List (AdmissionCall ℚ),
      residentGib ⟨30000000000, 16, 60, 8, 128, 2⟩ ⟨40, 2, 2, 4096, 6, 4, 9 / 10⟩
        (finalState step ⟨⟨8192, 4, 4096⟩, 0, 0, .empty⟩ calls) ≤ memory.usableGibPerGpu := by
  obtain ⟨memory, hmem⟩ := Memory.exists_assessMemory capstoneMemory_accepted
  refine ⟨memory, hmem, ?_⟩
  refine (resident_fits_iff hmem (show AdmissionController.init ⟨8192, 4, 4096⟩ = _ from rfl)
    ⟨0, 0, 0, by decide +kernel⟩).1.mpr ?_
  decide +kernel

omit [Add T] [Zero T] [LT T] [DecidableLT T] in
/-- Every admitted request holds at most what the policy allows one request. -/
theorem InStep.live_le_count (h : InStep policy self) :
    self.liveTokens ≤ admittedCount self * policy.maxTokensPerRequest := by
  rw [h.live_eq, admittedTokens, admittedCount, ← nsmul_eq_mul]
  have hle := List.sum_le_card_nsmul
    ((self.decisions.values.filter (fun d => d.action = .admitted)).map (·.reservedTokens))
    policy.maxTokensPerRequest ?_
  · rwa [List.length_map] at hle
  intro n hn
  obtain ⟨d, hd, rfl⟩ := List.mem_map.mp hn
  obtain ⟨hvalue, haction⟩ := List.mem_filter.mp hd
  obtain ⟨⟨x, d'⟩, hitem, rfl⟩ := List.mem_map.mp hvalue
  exact (h.reserved x d' (get?_eq_some_iff.mpr hitem) (by simpa using haction)).2

/-- A budget of as many full-length requests as the assessment reports delivers that concurrency:
while fewer requests are admitted, a new one that passes its own checks is admitted at once, and
everything admitted still fits the GPU. -/
theorem admission_delivers_concurrency
    (hmem : Memory.assessMemory model deployment = .ok memory)
    (h : AdmissionController.init policy = .ok self)
    (hbudget : policy.maxLiveTokens =
      memory.maxConcurrency * deployment.maxLiveTokensPerRequest)
    (hbound : policy.maxTokensPerRequest ≤ deployment.maxLiveTokensPerRequest)
    (before : List (AdmissionCall T)) {a : Arrival T} (hpass : a.Passes policy)
    (hnew : (finalState step self before).decisions.get? a.identifier = none)
    (hfew : admittedCount (finalState step self before) < memory.maxConcurrency) :
    (step (finalState step self before) a.call).1 = .ok (some (admission a.tokens)) ∧
    residentGib model deployment (step (finalState step self before) a.call).2 ≤
      memory.usableGibPerGpu := by
  have hI := run_inStep (init_inStep h) before
  have hcount := hI.live_le_count
  have hlength := (Memory.Accepted.of_assessMemory hmem).live_tokens_pos
  have hlive := (AdmissionController.init_eq_ok_iff.mp h).1.1.1
  have hfits : (finalState step self before).liveTokens + a.tokens ≤ policy.maxLiveTokens := by
    have hslots : (admittedCount (finalState step self before) + 1 : ℤ) ≤ memory.maxConcurrency :=
      hfew
    calc (finalState step self before).liveTokens + a.tokens
        ≤ admittedCount (finalState step self before) * policy.maxTokensPerRequest +
            policy.maxTokensPerRequest := add_le_add hcount hpass.tokens_le
      _ = (admittedCount (finalState step self before) + 1) * policy.maxTokensPerRequest := by ring
      _ ≤ (admittedCount (finalState step self before) + 1) *
            deployment.maxLiveTokensPerRequest := mul_le_mul_of_nonneg_left hbound (by positivity)
      _ ≤ memory.maxConcurrency * deployment.maxLiveTokensPerRequest :=
          mul_le_mul_of_nonneg_right hslots hlength.le
      _ = policy.maxLiveTokens := hbudget.symm
  constructor
  · rw [step_arrival _ (hI.policy_eq ▸ hpass) hnew, hI.policy_eq, if_pos hfits]
  · have hcapacity : policy.maxLiveTokens ≤ Memory.tokenCapacity model deployment :=
      hbudget.trans_le (Memory.tokenCapacity_mem_Ico hmem).1
    have hI' := transition_inStep (step_transition (finalState step self before) a.call) hI
    exact hI'.residentGib_le hmem ((residentGib_le_iff hmem _ hlive).mpr hcapacity)

theorem admission_delivers_concurrency_sample :
    ∃ memory, Memory.assessMemory ⟨30000000000, 16, 60, 8, 128, 2⟩
        ⟨40, 2, 2, 4096, 6, 4, 9 / 10⟩ = .ok memory ∧
      (step ⟨⟨32768, 4, 4096⟩, 0, 0, .empty⟩
        (Arrival.call ⟨⟨"chat", 4000, 96, (10 : ℚ)⟩, 0, 1⟩)).1 =
          .ok (some (admission 4096)) := by
  obtain ⟨memory, hmem⟩ := Memory.exists_assessMemory capstoneMemory_accepted
  have hconcurrency : memory.maxConcurrency = 8 := by
    rw [Memory.maxConcurrency_eq_div hmem]
    decide +kernel
  refine ⟨memory, hmem, ?_⟩
  refine (admission_delivers_concurrency hmem
    (show AdmissionController.init ⟨32768, 4, 4096⟩ = _ from rfl) (by rw [hconcurrency]; rfl)
    le_rfl [] (a := ⟨⟨"chat", 4000, 96, (10 : ℚ)⟩, 0, 1⟩) ?_ rfl ?_).1
  · constructor <;> decide +kernel
  · rw [hconcurrency]
    decide

end Budget

end Admission
