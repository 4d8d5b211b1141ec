import InferencePlatform.BatchingSchedule

/-!
# The two batching modes on one workload

Both modes return a valid schedule of every accepted workload. The continuous one keeps all of
its lanes busy, so on the common queue order it starts, and therefore completes, each request no
later than the static one; waits and makespan follow request by request.
-/

namespace Batching

open PythonBuiltins LaneSchedule

section Schedules

variable {requests : List BatchRequest} {capacity : ℤ} {mode : BatchMode}
  {start : BatchRequest → ℤ} {run : BatchRun}

theorem Schedule.mem_completions (h : Schedule requests capacity mode start run)
    {c : Completion} : c ∈ run.completions ↔ ∃ r ∈ requests, completionOf start r = c := by
  rw [h.completions.mem_iff, List.mem_map]

theorem Schedule.identifiers (h : Schedule requests capacity mode start run) :
    (run.completions.map (·.identifier)).Perm (requests.map (·.identifier)) := by
  have hperm := h.completions.map (·.identifier)
  rwa [List.map_map] at hperm

theorem Schedule.in_service_le (h : Schedule requests capacity mode start run) (step : ℤ) :
    (run.completions.countP
      (fun c => c.firstServiceStep ≤ step ∧ step < c.completionStep) : ℤ) ≤ capacity := by
  rw [h.completions.countP_eq, List.countP_map]
  refine le_of_eq_of_le ?_ (h.valid.lanes_suffice step)
  exact congrArg Nat.cast ((sortedBy_perm queueKey requests).countP_eq _).symm

theorem Schedule.fifo (h : Schedule requests capacity mode start run)
    (haccepted : Accepted requests) : ∀ r ∈ requests, ∀ k ∈ requests,
      queueKey r ≤ queueKey k → start r ≤ start k := by
  have hback : (sortedBy queueKey requests).Pairwise
      (flip fun r k => queueKey r ≤ queueKey k → start r ≤ start k) := by
    refine (queue_strict haccepted).imp ?_
    exact fun hlt hge => absurd hge (not_le.mpr hlt)
  have hforth : (sortedBy queueKey requests).Pairwise
      (fun r k => queueKey r ≤ queueKey k → start r ≤ start k) := by
    refine h.valid.fifo.imp ?_
    exact fun hle _ => hle
  have hall := List.Pairwise.forall_of_forall_of_flip (fun r _ _ => le_rfl) hforth hback
  intro r hr k hk
  exact hall ((mem_sortedBy queueKey).mpr hr) ((mem_sortedBy queueKey).mpr hk)

end Schedules

/-- Both modes terminate with a valid schedule of every accepted workload. -/
theorem simulateBatching_valid_schedule {requests : List BatchRequest} (h : Accepted requests)
    {capacity : ℤ} (hcapacity : 1 ≤ capacity) (mode : BatchMode) :
    ∃ (run : BatchRun) (start : BatchRequest → ℤ) (passes : ℕ),
      (∀ fuel, passes < fuel →
        simulateBatching fuel requests capacity mode = some (.ok run)) ∧
      run.completions.Perm
        (requests.map fun r => ⟨r.identifier, start r, start r + r.outputTokens⟩) ∧
      (∀ r ∈ requests, r.arrivalStep ≤ start r) ∧
      (∀ step : ℤ, (run.completions.countP
        (fun c => c.firstServiceStep ≤ step ∧ step < c.completionStep) : ℤ) ≤ capacity) ∧
      (∀ r ∈ requests, ∀ k ∈ requests, queueKey r ≤ queueKey k → start r ≤ start k) ∧
      (∃ last first, IsGreatest {t | ∃ c ∈ run.completions, c.completionStep = t} last ∧
        IsLeast {t | ∃ r ∈ requests, r.arrivalStep = t} first ∧
        run.makespanSteps = last - first) ∧
      run.totalWaitSteps = (requests.map fun r => start r - r.arrivalStep).sum := by
  obtain ⟨start, run, passes, hschedule, hrun⟩ := simulateBatching_schedule h hcapacity mode
  refine ⟨run, start, passes, hrun, hschedule.completions, ?_, hschedule.in_service_le,
    hschedule.fifo h, ?_, hschedule.totalWait⟩
  · intro r hr
    exact hschedule.valid.arrived r ((mem_sortedBy queueKey).mpr hr)
  · obtain ⟨last, first, hlast, hfirst, hmakespan⟩ := hschedule.makespan
    refine ⟨last, first, ?_, hfirst, hmakespan⟩
    have hset : {t | ∃ c ∈ run.completions, c.completionStep = t} =
        {t | ∃ r ∈ requests, start r + r.outputTokens = t} := by
      ext t
      change (∃ c ∈ run.completions, c.completionStep = t) ↔
        ∃ r ∈ requests, start r + r.outputTokens = t
      simp only [hschedule.mem_completions]
      constructor
      · rintro ⟨_, ⟨r, hr, rfl⟩, ht⟩
        exact ⟨r, hr, ht⟩
      · rintro ⟨r, hr, ht⟩
        exact ⟨_, ⟨r, hr, rfl⟩, ht⟩
    rwa [hset]

theorem accepted_example : Accepted [⟨"long", 0, 5⟩, ⟨"late", 7, 1⟩, ⟨"short", 0, 1⟩] := by
  constructor <;> decide

theorem simulateBatching_valid_schedule_example :
    ∃ run passes, ∀ fuel, passes < fuel → simulateBatching fuel
      [⟨"long", 0, 5⟩, ⟨"late", 7, 1⟩, ⟨"short", 0, 1⟩] 1 .static = some (.ok run) := by
  obtain ⟨run, _, passes, hrun, _⟩ :=
    simulateBatching_valid_schedule accepted_example le_rfl .static
  exact ⟨run, passes, hrun⟩

/-- Request by request, continuous batching starts and completes no later than static batching. -/
theorem continuous_dominates_static {requests : List BatchRequest} (h : Accepted requests)
    {capacity : ℤ} (hcapacity : 1 ≤ capacity) :
    ∃ continuous static passes,
      (∀ fuel, passes < fuel →
        simulateBatching fuel requests capacity .continuous = some (.ok continuous) ∧
        simulateBatching fuel requests capacity .static = some (.ok static)) ∧
      (continuous.completions.map (·.identifier)).Perm (requests.map (·.identifier)) ∧
      (static.completions.map (·.identifier)).Perm (requests.map (·.identifier)) ∧
      (∀ c ∈ continuous.completions, ∀ d ∈ static.completions, c.identifier = d.identifier →
        c.firstServiceStep ≤ d.firstServiceStep ∧ c.completionStep ≤ d.completionStep) ∧
      continuous.totalWaitSteps ≤ static.totalWaitSteps ∧
      continuous.makespanSteps ≤ static.makespanSteps := by
  obtain ⟨start, continuous, passes, hcontinuous, hrun⟩ :=
    simulateBatching_schedule h hcapacity .continuous
  obtain ⟨start', static, passes', hstatic, hrun'⟩ :=
    simulateBatching_schedule h hcapacity .static
  have hle : ∀ r ∈ requests, start r ≤ start' r := by
    have hqueue := start_le_of_keepsBusy _ _ _ hcontinuous.keepsBusy hstatic.valid
      (queue_sortedBy h).output_pos
    exact fun r hr => hqueue r ((mem_sortedBy queueKey).mpr hr)
  refine ⟨continuous, static, max passes passes', ?_, hcontinuous.identifiers,
    hstatic.identifiers, ?_, ?_, ?_⟩
  · intro fuel hfuel
    exact ⟨hrun fuel (lt_of_le_of_lt (le_max_left _ _) hfuel),
      hrun' fuel (lt_of_le_of_lt (le_max_right _ _) hfuel)⟩
  · intro c hc d hd hid
    obtain ⟨r, hr, rfl⟩ := hcontinuous.mem_completions.mp hc
    obtain ⟨k, hk, rfl⟩ := hstatic.mem_completions.mp hd
    obtain rfl := List.inj_on_of_nodup_map h.unique hr hk hid
    exact ⟨hle r hr, add_le_add_left (hle r hr) _⟩
  · rw [hcontinuous.totalWait, hstatic.totalWait]
    exact List.sum_le_sum fun r hr => sub_le_sub_right (hle r hr) _
  · obtain ⟨last, first, ⟨⟨r, hr, rfl⟩, -⟩, hfirst, hmakespan⟩ := hcontinuous.makespan
    obtain ⟨last', first', ⟨-, hlast'⟩, hfirst', hmakespan'⟩ := hstatic.makespan
    rw [hmakespan, hmakespan', hfirst.unique hfirst']
    exact sub_le_sub_right ((add_le_add_left (hle r hr) _).trans (hlast' ⟨r, hr, rfl⟩)) _

theorem continuous_dominates_static_example :
    ∃ continuous static passes, (∀ fuel, passes < fuel →
      simulateBatching fuel [⟨"long", 0, 5⟩, ⟨"late", 7, 1⟩, ⟨"short", 0, 1⟩] 2 .continuous =
        some (.ok continuous) ∧
      simulateBatching fuel [⟨"long", 0, 5⟩, ⟨"late", 7, 1⟩, ⟨"short", 0, 1⟩] 2 .static =
        some (.ok static)) ∧
      continuous.makespanSteps ≤ static.makespanSteps := by
  obtain ⟨continuous, static, passes, hrun, _, _, _, _, hmakespan⟩ :=
    continuous_dominates_static accepted_example (show (1 : ℤ) ≤ 2 by decide)
  exact ⟨continuous, static, passes, hrun, hmakespan⟩

end Batching
