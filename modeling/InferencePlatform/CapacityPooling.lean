import InferencePlatform.CapacitySizing

/-!
# Pooling, reordering and splitting workloads

The plan reads a workload tuple through three sums. Sums of a pooled tuple are the sums of its
parts, so a pooled fleet needs no more replicas than the two fleets together and no fewer than
either. Reordering the classes or splitting one of them leaves the sums alone.
-/

namespace Capacity

open PythonBuiltins

/-- A class with a share of the requests of `item`. -/
def WorkloadClass.part (item : WorkloadClass) (name : String) (rate : ℚ) : WorkloadClass :=
  { item with name := name, requestsPerSecond := rate }

section Sums

variable {A B : List WorkloadClass}

theorem promptTokensPerSecond_append : promptTokensPerSecond (A ++ B) =
    promptTokensPerSecond A + promptTokensPerSecond B := by
  simp only [promptTokensPerSecond, List.map_append, List.sum_append]

theorem outputTokensPerSecond_append : outputTokensPerSecond (A ++ B) =
    outputTokensPerSecond A + outputTokensPerSecond B := by
  simp only [outputTokensPerSecond, List.map_append, List.sum_append]

theorem concurrentRequests_append : concurrentRequests (A ++ B) =
    concurrentRequests A + concurrentRequests B := by
  simp only [concurrentRequests, List.map_append, List.sum_append]

/-- A quantity proportional to the requests is the same for a class and for its two parts. -/
theorem sum_map_part {f : WorkloadClass → ℚ} {pre post : List WorkloadClass} {item : WorkloadClass}
    {name₁ name₂ : String} {rate₁ rate₂ : ℚ}
    (hf : f (item.part name₁ rate₁) + f (item.part name₂ rate₂) = f item) :
    ((pre ++ item.part name₁ rate₁ :: item.part name₂ rate₂ :: post).map f).sum =
      ((pre ++ item :: post).map f).sum := by
  simp only [List.map_append, List.map_cons, List.sum_append, List.sum_cons]
  rw [← hf, add_assoc (f _)]

end Sums

section Pooling

variable {A B : List WorkloadClass} {benchmark : ReplicaBenchmark}
  {requirements : CapacityRequirements} {plan : CapacityPlan}

theorem Accepted.sum_nonneg (h : Accepted A benchmark requirements) {use : WorkloadClass → ℚ}
    (huse : ∀ item ∈ A, 0 ≤ use item) :
    0 ≤ (A.map fun item => item.requestsPerSecond * use item * item.burstMultiplier).sum := by
  refine List.sum_nonneg fun rate hrate => ?_
  obtain ⟨item, hitem, rfl⟩ := List.mem_map.mp hrate
  exact mul_nonneg (mul_nonneg (h.rate_nonneg item hitem) (huse item hitem))
    (zero_le_one.trans (h.burst_ge_one item hitem))

theorem Accepted.promptTokensPerSecond_nonneg (h : Accepted A benchmark requirements) :
    0 ≤ promptTokensPerSecond A :=
  h.sum_nonneg fun item hitem => by exact_mod_cast h.prompt_nonneg item hitem

theorem Accepted.concurrentRequests_nonneg (h : Accepted A benchmark requirements) :
    0 ≤ concurrentRequests A :=
  h.sum_nonneg fun item hitem => (h.service_pos item hitem).le

theorem Accepted.append (hA : Accepted A benchmark requirements)
    (hB : Accepted B benchmark requirements)
    (hnames : (A.map (·.name)).Disjoint (B.map (·.name))) :
    Accepted (A ++ B) benchmark requirements := by
  exact {
    hA with
    nonempty := List.append_ne_nil_of_left_ne_nil hA.nonempty B
    named := List.forall_mem_append.mpr ⟨hA.named, hB.named⟩
    unique := by
      rw [List.map_append]
      exact hA.unique.append hB.unique hnames
    rate_nonneg := List.forall_mem_append.mpr ⟨hA.rate_nonneg, hB.rate_nonneg⟩
    prompt_nonneg := List.forall_mem_append.mpr ⟨hA.prompt_nonneg, hB.prompt_nonneg⟩
    output_nonneg := List.forall_mem_append.mpr ⟨hA.output_nonneg, hB.output_nonneg⟩
    service_pos := List.forall_mem_append.mpr ⟨hA.service_pos, hB.service_pos⟩
    burst_ge_one := List.forall_mem_append.mpr ⟨hA.burst_ge_one, hB.burst_ge_one⟩
    demand_pos := by
      rw [List.map_append, List.sum_append]
      exact add_pos hA.demand_pos hB.demand_pos }

/-- Two fleets side by side cover the pooled workload. -/
theorem Sufficient.append (hB : Accepted B benchmark requirements) {n m : ℤ}
    (hn : Sufficient A benchmark requirements n) (hm : Sufficient B benchmark requirements m) :
    Sufficient (A ++ B) benchmark requirements (n + m) := by
  have hadd (rate : ℚ) : ((n + m : ℤ) : ℚ) * rate * (1 - requirements.reservedHeadroomFraction) =
      n * rate * (1 - requirements.reservedHeadroomFraction) +
        m * rate * (1 - requirements.reservedHeadroomFraction) := by
    push_cast
    ring
  constructor
  case floor =>
    have := hn.floor
    have := hm.floor
    have := hB.min_pos
    omega
  case prefill =>
    rw [promptTokensPerSecond_append, hadd]
    exact add_le_add hn.prefill hm.prefill
  case decode =>
    rw [outputTokensPerSecond_append, hadd]
    exact add_le_add hn.decode hm.decode
  case concurrency =>
    rw [concurrentRequests_append, hadd]
    exact add_le_add hn.concurrency hm.concurrency

theorem Sufficient.of_le {n : ℤ} (hprompt : promptTokensPerSecond A ≤ promptTokensPerSecond B)
    (houtput : outputTokensPerSecond A ≤ outputTokensPerSecond B)
    (hconcurrent : concurrentRequests A ≤ concurrentRequests B)
    (h : Sufficient B benchmark requirements n) : Sufficient A benchmark requirements n :=
  ⟨h.floor, hprompt.trans h.prefill, houtput.trans h.decode, hconcurrent.trans h.concurrency⟩

theorem Sufficient.of_append_left (hB : Accepted B benchmark requirements) {n : ℤ}
    (h : Sufficient (A ++ B) benchmark requirements n) : Sufficient A benchmark requirements n := by
  apply h.of_le
  · rw [promptTokensPerSecond_append]
    exact le_add_of_nonneg_right hB.promptTokensPerSecond_nonneg
  · rw [outputTokensPerSecond_append]
    exact le_add_of_nonneg_right hB.outputTokensPerSecond_nonneg
  · rw [concurrentRequests_append]
    exact le_add_of_nonneg_right hB.concurrentRequests_nonneg

theorem Sufficient.of_append_right (hA : Accepted A benchmark requirements) {n : ℤ}
    (h : Sufficient (A ++ B) benchmark requirements n) : Sufficient B benchmark requirements n := by
  apply h.of_le
  · rw [promptTokensPerSecond_append]
    exact le_add_of_nonneg_left hA.promptTokensPerSecond_nonneg
  · rw [outputTokensPerSecond_append]
    exact le_add_of_nonneg_left hA.outputTokensPerSecond_nonneg
  · rw [concurrentRequests_append]
    exact le_add_of_nonneg_left hA.concurrentRequests_nonneg

/-- The plan depends on an accepted tuple through its three sums. -/
theorem planCapacity_eq_of_sums (h : planCapacity A benchmark requirements = .ok plan)
    (hB : Accepted B benchmark requirements)
    (hprompt : promptTokensPerSecond B = promptTokensPerSecond A)
    (houtput : outputTokensPerSecond B = outputTokensPerSecond A)
    (hconcurrent : concurrentRequests B = concurrentRequests A) :
    planCapacity B benchmark requirements = .ok plan := by
  have hA := (planCapacity_spec h).1
  have hvalid : validate B benchmark requirements = validate A benchmark requirements := by
    rw [(validate_eq_ok_iff _ _ _).mpr hA, (validate_eq_ok_iff _ _ _).mpr hB]
  rw [← h]
  unfold planCapacity dimensions
  rw [hvalid, hprompt, houtput, hconcurrent]

theorem Accepted.of_perm (hperm : B.Perm A) (h : Accepted A benchmark requirements) :
    Accepted B benchmark requirements := by
  have hall {P : WorkloadClass → Prop} (hP : ∀ item ∈ A, P item) : ∀ item ∈ B, P item :=
    fun item hitem => hP item (hperm.mem_iff.mp hitem)
  exact {
    h with
    nonempty := by
      rintro rfl
      exact h.nonempty (List.nil_perm.mp hperm)
    named := hall h.named
    unique := (hperm.map _).nodup_iff.mpr h.unique
    rate_nonneg := hall h.rate_nonneg
    prompt_nonneg := hall h.prompt_nonneg
    output_nonneg := hall h.output_nonneg
    service_pos := hall h.service_pos
    burst_ge_one := hall h.burst_ge_one
    demand_pos := by
      rw [(hperm.map _).sum_eq]
      exact h.demand_pos }

theorem planCapacity_perm (hperm : B.Perm A)
    (h : planCapacity A benchmark requirements = .ok plan) :
    planCapacity B benchmark requirements = .ok plan :=
  planCapacity_eq_of_sums h ((planCapacity_spec h).1.of_perm hperm) (hperm.map _).sum_eq
    (hperm.map _).sum_eq (hperm.map _).sum_eq

section Split

variable {pre post : List WorkloadClass} {item : WorkloadClass} {name₁ name₂ : String}
  {rate₁ rate₂ : ℚ}

theorem Accepted.split (h : Accepted (pre ++ item :: post) benchmark requirements)
    (hname₁ : isBlank name₁ = false) (hname₂ : isBlank name₂ = false)
    (hunique : ((pre ++ item.part name₁ rate₁ :: item.part name₂ rate₂ :: post).map
      (·.name)).Nodup)
    (hrate₁ : 0 ≤ rate₁) (hrate₂ : 0 ≤ rate₂) (hsum : rate₁ + rate₂ = item.requestsPerSecond) :
    Accepted (pre ++ item.part name₁ rate₁ :: item.part name₂ rate₂ :: post) benchmark
      requirements := by
  have hall {P : WorkloadClass → Prop} (hP : ∀ k ∈ pre ++ item :: post, P k)
      (h₁ : P (item.part name₁ rate₁)) (h₂ : P (item.part name₂ rate₂)) :
      ∀ k ∈ pre ++ item.part name₁ rate₁ :: item.part name₂ rate₂ :: post, P k := by
    simp only [List.forall_mem_append, List.forall_mem_cons] at hP ⊢
    exact ⟨hP.1, h₁, h₂, hP.2.2⟩
  have hitem : item ∈ pre ++ item :: post := List.mem_append_right _ List.mem_cons_self
  exact {
    h with
    nonempty := by simp
    named := hall h.named hname₁ hname₂
    unique := hunique
    rate_nonneg := hall h.rate_nonneg hrate₁ hrate₂
    prompt_nonneg := hall h.prompt_nonneg (h.prompt_nonneg item hitem) (h.prompt_nonneg item hitem)
    output_nonneg := hall h.output_nonneg (h.output_nonneg item hitem) (h.output_nonneg item hitem)
    service_pos := hall h.service_pos (h.service_pos item hitem) (h.service_pos item hitem)
    burst_ge_one := hall h.burst_ge_one (h.burst_ge_one item hitem) (h.burst_ge_one item hitem)
    demand_pos := by
      rw [sum_map_part (by simp only [WorkloadClass.part, ← hsum, mul_add])]
      exact h.demand_pos }

theorem planCapacity_split
    (h : planCapacity (pre ++ item :: post) benchmark requirements = .ok plan)
    (hsplit : Accepted (pre ++ item.part name₁ rate₁ :: item.part name₂ rate₂ :: post) benchmark
      requirements)
    (hsum : rate₁ + rate₂ = item.requestsPerSecond) :
    planCapacity (pre ++ item.part name₁ rate₁ :: item.part name₂ rate₂ :: post) benchmark
      requirements = .ok plan :=
  planCapacity_eq_of_sums h hsplit
    (sum_map_part (by simp only [WorkloadClass.part, ← hsum, add_mul]))
    (sum_map_part (by simp only [WorkloadClass.part, ← hsum, add_mul]))
    (sum_map_part (by simp only [WorkloadClass.part, ← hsum, add_mul]))

end Split

end Pooling

/-- The pooling law of fleet sizing. -/
theorem planCapacity_pooling (benchmark : ReplicaBenchmark) (requirements : CapacityRequirements) :
    (∀ A B planA planB, planCapacity A benchmark requirements = .ok planA →
      planCapacity B benchmark requirements = .ok planB →
      (A.map (·.name)).Disjoint (B.map (·.name)) →
      ∃ plan, planCapacity (A ++ B) benchmark requirements = .ok plan ∧
        max planA.requiredReplicas planB.requiredReplicas ≤ plan.requiredReplicas ∧
        plan.requiredReplicas ≤ planA.requiredReplicas + planB.requiredReplicas) ∧
    (∀ A A' plan, A'.Perm A → planCapacity A benchmark requirements = .ok plan →
      planCapacity A' benchmark requirements = .ok plan) ∧
    (∀ pre item post name₁ name₂ rate₁ rate₂ plan,
      planCapacity (pre ++ item :: post) benchmark requirements = .ok plan →
      isBlank name₁ = false → isBlank name₂ = false →
      ((pre ++ item.part name₁ rate₁ :: item.part name₂ rate₂ :: post).map (·.name)).Nodup →
      0 ≤ rate₁ → 0 ≤ rate₂ → rate₁ + rate₂ = item.requestsPerSecond →
      planCapacity (pre ++ item.part name₁ rate₁ :: item.part name₂ rate₂ :: post) benchmark
        requirements = .ok plan) := by
  refine ⟨?_, fun A A' plan hperm h => planCapacity_perm hperm h, ?_⟩
  · intro A B planA planB hplanA hplanB hnames
    obtain ⟨hA, hleastA, -⟩ := planCapacity_spec hplanA
    obtain ⟨hB, hleastB, -⟩ := planCapacity_spec hplanB
    obtain ⟨plan, hplan⟩ := exists_planCapacity (hA.append hB hnames)
    obtain ⟨-, hleast, -⟩ := planCapacity_spec hplan
    refine ⟨plan, hplan, max_le ?_ ?_, ?_⟩
    · exact hleastA.2 (hleast.1.of_append_left hB)
    · exact hleastB.2 (hleast.1.of_append_right hA)
    · exact hleast.2 (hleastA.1.append hB hleastB.1)
  · intro pre item post name₁ name₂ rate₁ rate₂ plan h hname₁ hname₂ hunique hrate₁ hrate₂ hsum
    have haccepted := (planCapacity_spec h).1
    exact planCapacity_split h
      (haccepted.split hname₁ hname₂ hunique hrate₁ hrate₂ hsum) hsum

theorem planCapacity_pooling_sample :
    ∃ plan, planCapacity [⟨"chat-eu", 1, 100, 100, 1, 1⟩, ⟨"chat-us", 1 / 2, 100, 100, 1, 1⟩]
      sampleBenchmark sampleRequirements = .ok plan ∧ plan.requiredReplicas = 2 := by
  have h : planCapacity ([] ++ ⟨"chat", 3 / 2, 100, 100, 1, 1⟩ :: []) sampleBenchmark
      sampleRequirements = .ok ⟨true, 2, "minimum replica floor",
        ["decode tokens", "minimum replica floor"], 150, 150, 3 / 2, 0, 4, 200 / 27, []⟩ := by
    decide +kernel
  have hsplit := (planCapacity_pooling sampleBenchmark sampleRequirements).2.2 [] _ [] "chat-eu"
    "chat-us" 1 (1 / 2) _ h (by decide +kernel) (by decide +kernel) (by decide) (by norm_num)
    (by norm_num) (by norm_num)
  exact ⟨_, hsplit, rfl⟩

end Capacity
