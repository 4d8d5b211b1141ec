import InferencePlatform.BatchingRecurrence
import InferencePlatform.LaneWorkload

/-!
# What a batching run adds up to

Over the span of a run the lanes in service add up to the tokens of the workload, and the queue
lengths to the total wait. Continuous batching holds as many lanes as there are unfinished
requests to fill them, and either mode is compared with every other way to serve the workload.
-/

namespace Batching

open PythonBuiltins LaneSchedule

/-- Requests that emit a token at `step`. -/
def BatchRun.inService (run : BatchRun) (step : ℤ) : ℕ :=
  run.completions.countP (fun c => c.firstServiceStep ≤ step ∧ step < c.completionStep)

/-- Requests that have arrived by `step` and whose first service is still to come. -/
def BatchRun.queued (run : BatchRun) (requests : List BatchRequest) (step : ℤ) : ℕ :=
  requests.countP (fun r => r.arrivalStep ≤ step ∧
    ∀ c ∈ run.completions, c.identifier = r.identifier → step < c.firstServiceStep)

/-- Requests that have arrived by `step` and whose completion is still to come. -/
def BatchRun.unfinished (run : BatchRun) (requests : List BatchRequest) (step : ℤ) : ℕ :=
  requests.countP (fun r => r.arrivalStep ≤ step ∧
    ∀ c ∈ run.completions, c.identifier = r.identifier → step < c.completionStep)

section Counts

variable {requests : List BatchRequest} {capacity : ℤ} {mode : BatchMode}
  {start : BatchRequest → ℤ} {run : BatchRun}

theorem Schedule.inService_eq (h : Schedule requests capacity mode start run) (step : ℤ) :
    run.inService step =
      busy BatchRequest.outputTokens start (sortedBy queueKey requests) step := by
  rw [BatchRun.inService, h.completions.countP_eq, List.countP_map]
  exact ((sortedBy_perm queueKey requests).countP_eq _).symm

/-- The completion with the identifier of a request is its own. -/
theorem Schedule.completion_of_identifier (h : Schedule requests capacity mode start run)
    (haccepted : Accepted requests) {r : BatchRequest} (hr : r ∈ requests) {P : Completion → Prop} :
    (∀ c ∈ run.completions, c.identifier = r.identifier → P c) ↔ P (completionOf start r) := by
  constructor
  · intro hall
    exact hall _ (h.mem_completions.mpr ⟨r, hr, rfl⟩) rfl
  · intro hr' c hc hid
    obtain ⟨k, hk, rfl⟩ := h.mem_completions.mp hc
    have hkr : k = r := List.inj_on_of_nodup_map haccepted.unique hk hr hid
    rwa [hkr]

theorem Schedule.queued_eq (h : Schedule requests capacity mode start run)
    (haccepted : Accepted requests) (step : ℤ) : run.queued requests step =
      waiting BatchRequest.arrivalStep start (sortedBy queueKey requests) step := by
  rw [waiting, (sortedBy_perm queueKey requests).countP_eq]
  apply List.countP_congr
  intro r hr
  simp only [decide_eq_true_eq, h.completion_of_identifier haccepted hr (P := fun c =>
    step < c.firstServiceStep)]
  rfl

theorem Schedule.unfinished_eq (h : Schedule requests capacity mode start run)
    (haccepted : Accepted requests) (step : ℤ) : run.unfinished requests step =
      backlog BatchRequest.arrivalStep BatchRequest.outputTokens start
        (sortedBy queueKey requests) step := by
  rw [backlog, (sortedBy_perm queueKey requests).countP_eq]
  apply List.countP_congr
  intro r hr
  simp only [decide_eq_true_eq, h.completion_of_identifier haccepted hr (P := fun c =>
    step < c.completionStep)]
  rfl

theorem output_nonneg (h : Accepted requests) :
    ∀ r ∈ sortedBy queueKey requests, 0 ≤ r.outputTokens := by
  intro r hr
  have := h.output_pos r ((mem_sortedBy queueKey).mp hr)
  omega

end Counts

/-- Every lane-step serves one token, every step in the queue is counted once in the total wait,
and continuous batching leaves a lane free only when no request could use it. -/
theorem simulateBatching_accounting {requests : List BatchRequest} (h : Accepted requests)
    {capacity : ℤ} (hcapacity : 1 ≤ capacity) (mode : BatchMode) :
    ∃ run first, Returns requests capacity mode run ∧
      IsLeast {t | ∃ r ∈ requests, r.arrivalStep = t} first ∧
      ((∑ step ∈ Finset.Ico first (first + run.makespanSteps), run.inService step : ℕ) : ℤ) =
        (requests.map (·.outputTokens)).sum ∧
      ((∑ step ∈ Finset.Ico first (first + run.makespanSteps), run.queued requests step : ℕ) : ℤ) =
        run.totalWaitSteps ∧
      (mode = .continuous → ∀ step : ℤ,
        (run.inService step : ℤ) = min capacity (run.unfinished requests step)) := by
  obtain ⟨start, run, hrec, hreturns, -⟩ := exists_recurrence h hcapacity mode
  obtain ⟨last, first, hlast, hfirst, hmakespan⟩ := hrec.makespan
  have hmem {r : BatchRequest} : r ∈ sortedBy queueKey requests ↔ r ∈ requests :=
    mem_sortedBy queueKey
  have hend : first + run.makespanSteps = last := by omega
  have hfrom : ∀ r ∈ sortedBy queueKey requests, first ≤ r.arrivalStep :=
    fun r hr => hfirst.2 ⟨r, hmem.mp hr, rfl⟩
  have hto : ∀ r ∈ sortedBy queueKey requests, start r + r.outputTokens ≤ last :=
    fun r hr => hlast.2 ⟨r, hmem.mp hr, rfl⟩
  have harrived := hrec.valid.arrived
  refine ⟨run, first, hreturns, hfirst, ?_, ?_, ?_⟩
  · simp only [hend, hrec.inService_eq]
    rw [sum_busy_eq (output_nonneg h) (fun r hr => (hfrom r hr).trans (harrived r hr)) hto]
    exact ((sortedBy_perm queueKey requests).map _).sum_eq
  · simp only [hend, hrec.queued_eq h]
    rw [sum_waiting_eq harrived hfrom, hrec.totalWait]
    · exact ((sortedBy_perm queueKey requests).map _).sum_eq
    · intro r hr
      have := hto r hr
      have := output_nonneg h r hr
      omega
  · rintro rfl step
    rw [hrec.inService_eq, hrec.unfinished_eq h]
    exact busy_eq_min (output_nonneg h) hrec.valid hrec.keepsBusy step

theorem simulateBatching_accounting_example :
    ∃ run first, Returns [⟨"long", 0, 5⟩, ⟨"late", 7, 1⟩, ⟨"short", 0, 1⟩] 2 .continuous run ∧
      ((∑ step ∈ Finset.Ico first (first + run.makespanSteps), run.inService step : ℕ) : ℤ) =
        7 := by
  obtain ⟨run, first, hreturns, -, htokens, -⟩ :=
    simulateBatching_accounting accepted_example (show (1 : ℤ) ≤ 2 by decide) .continuous
  exact ⟨run, first, hreturns, htokens⟩

/-! ### Against every other scheduler -/

/-- Whoever serves the workload on as many lanes, in whatever order and knowing it in advance,
takes at least half the span of continuous batching, and static batching loses a factor of at
most one more than the lanes. -/
theorem simulateBatching_competitive {requests : List BatchRequest} (h : Accepted requests)
    {capacity : ℤ} (hcapacity : 1 ≤ capacity) (mode : BatchMode) :
    ∃ run first, Returns requests capacity mode run ∧
      IsLeast {t | ∃ r ∈ requests, r.arrivalStep = t} first ∧
      ∀ (start : BatchRequest → ℤ) (finish : ℤ),
        (∀ r ∈ requests, r.arrivalStep ≤ start r) →
        (∀ step : ℤ, (requests.countP
          (fun r => start r ≤ step ∧ step < start r + r.outputTokens) : ℤ) ≤ capacity) →
        (∀ r ∈ requests, start r + r.outputTokens ≤ finish) →
        (mode = .continuous → run.makespanSteps ≤ 2 * (finish - first)) ∧
        (mode = .static → run.makespanSteps ≤ (capacity + 1) * (finish - first)) := by
  obtain ⟨start, run, hrec, hreturns, -⟩ := exists_recurrence h hcapacity mode
  obtain ⟨last, first, ⟨⟨r, hr, hlast⟩, -⟩, hfirst, hmakespan⟩ := hrec.makespan
  refine ⟨run, first, hreturns, hfirst, ?_⟩
  intro start' finish harrived hlanes hfinish
  have hmem {r : BatchRequest} : r ∈ sortedBy queueKey requests ↔ r ∈ requests :=
    mem_sortedBy queueKey
  have hother : Feasible BatchRequest.arrivalStep BatchRequest.outputTokens start' capacity
      (sortedBy queueKey requests) := by
    refine ⟨fun r hr => harrived r (hmem.mp hr), fun step => ?_⟩
    rw [busy, (sortedBy_perm queueKey requests).countP_eq]
    exact hlanes step
  have hheld : 0 ≤ lanesHeld mode capacity := by
    cases mode with
    | static => exact zero_le_one
    | continuous => exact zero_le_one.trans hcapacity
  have hbound := hrec.keepsBusy.mul_finish_le hheld hother (output_nonneg h)
    (fun r hr => hfirst.2 ⟨r, hmem.mp hr, rfl⟩) (fun r hr => hfinish r (hmem.mp hr)) r
    (hmem.mpr hr)
  rw [hlast, ← hmakespan] at hbound
  constructor
  · rintro rfl
    simp only [lanesHeld, ← two_mul] at hbound
    rw [mul_comm 2 capacity, mul_assoc] at hbound
    exact le_of_mul_le_mul_left hbound (by omega)
  · rintro rfl
    simpa only [lanesHeld, one_mul, add_comm capacity 1] using hbound

theorem simulateBatching_competitive_example :
    ∃ run first, Returns [⟨"long", 0, 5⟩, ⟨"late", 7, 1⟩, ⟨"short", 0, 1⟩] 1 .continuous run ∧
      run.makespanSteps ≤ 2 * (8 - first) := by
  obtain ⟨run, first, hreturns, -, hall⟩ :=
    simulateBatching_competitive accepted_example le_rfl .continuous
  refine ⟨run, first, hreturns, (hall (fun r => if r.outputTokens = 5 then 1
    else if r.arrivalStep = 7 then 7 else 0) 8 (by decide) ?_ (by decide)).1 rfl⟩
  intro step
  simp only [List.countP_cons, List.countP_nil, decide_eq_true_eq]
  norm_num
  split_ifs <;> omega

end Batching
