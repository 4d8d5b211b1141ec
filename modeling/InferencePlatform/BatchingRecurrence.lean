import InferencePlatform.BatchingStatic
import InferencePlatform.BatchingModes

/-!
# The recurrence behind the batching simulator

In both modes the recorded starts solve a recurrence along the queue order, in which a request
reads the starts of the requests before it and nothing else: it waits for a free lane in
continuous mode, and for its batch in static mode. `exists_recurrence` ties the event loop to the
recurrence; what follows about waits and about pairs of runs is read off the recurrence.
-/

namespace Batching

open PythonBuiltins LaneSchedule OrderedDict WhileLoop

/-- The simulator returns `run`, with enough fuel. -/
def Returns (requests : List BatchRequest) (capacity : ℤ) (mode : BatchMode) (run : BatchRun) :
    Prop :=
  ∃ passes, ∀ fuel, passes < fuel → simulateBatching fuel requests capacity mode = some (.ok run)

section Returns

variable {requests : List BatchRequest} {capacity : ℤ} {mode : BatchMode} {run run' : BatchRun}

theorem returns_of_eq (fuel : ℕ)
    (h : simulateBatching fuel requests capacity mode = some (.ok run)) :
    Returns requests capacity mode run := by
  by_cases haccepted : 1 ≤ capacity ∧ Accepted requests
  · obtain ⟨hcapacity, haccepted⟩ := haccepted
    refine ⟨fuel, fun fuel' hfuel => ?_⟩
    rw [simulateBatching_of_accepted haccepted hcapacity, runBatches] at h ⊢
    cases hqueue : sortedBy queueKey requests with
    | nil =>
        rw [hqueue] at h
        cases h
    | cons first pending =>
        rw [hqueue] at h
        obtain ⟨out, hout, hreport⟩ := Option.map_eq_some_iff.mp h
        dsimp only
        rw [whileLoop_mono _ _ hfuel.le hout, Option.map_some, hreport]
  · obtain ⟨message, hraise⟩ := simulateBatching_of_not_accepted haccepted
    rw [hraise] at h
    cases h

theorem Returns.unique (h : Returns requests capacity mode run)
    (h' : Returns requests capacity mode run') : run = run' := by
  obtain ⟨passes, hrun⟩ := h
  obtain ⟨passes', hrun'⟩ := h'
  have heq := hrun (passes + passes' + 1) (by omega)
  rw [hrun' (passes + passes' + 1) (by omega)] at heq
  exact (Except.ok.inj (Option.some.inj heq)).symm

theorem Returns.accepted (h : Returns requests capacity mode run) :
    1 ≤ capacity ∧ Accepted requests := by
  by_contra haccepted
  obtain ⟨message, hraise⟩ := simulateBatching_of_not_accepted haccepted
  obtain ⟨passes, hrun⟩ := h
  have heq := hrun (passes + 1) (by omega)
  rw [hraise] at heq
  cases heq

end Returns

def startRoom : BatchMode → ℤ → (BatchRequest → ℤ) → List BatchRequest → ℤ → Prop
  | .continuous, capacity => LaneRoom BatchRequest.outputTokens capacity
  | .static, capacity => BatchRoom BatchRequest.outputTokens capacity

theorem causal_startRoom (mode : BatchMode) (capacity : ℤ) : Causal (startRoom mode capacity) := by
  cases mode with
  | static => exact causal_batchRoom _ _
  | continuous => exact causal_laneRoom _ _

structure Recurrence (requests : List BatchRequest) (capacity : ℤ) (mode : BatchMode)
    (start : BatchRequest → ℤ) (run : BatchRun) : Prop
    extends Schedule requests capacity mode start run where
  mode_eq : run.mode = mode
  completions_eq : run.completions =
    sortedBy (·.identifier) (requests.map (completionOf start))
  leastStart : LeastStart BatchRequest.arrivalStep (startRoom mode capacity) start
    (sortedBy queueKey requests)

section Runs

variable {requests : List BatchRequest} {capacity : ℤ} {mode : BatchMode}

theorem sortedBy_identifier_eq {cs ds : List Completion} (h : cs.Perm ds)
    (hunique : (cs.map (·.identifier)).Nodup) :
    sortedBy (·.identifier) cs = sortedBy (·.identifier) ds :=
  sortedBy_eq_of_perm _ h fun _ ha _ hb => List.inj_on_of_nodup_map hunique ha hb

theorem exists_recurrence (h : Accepted requests) (hcapacity : 1 ≤ capacity) (mode : BatchMode) :
    ∃ start run, Recurrence requests capacity mode start run ∧
      Returns requests capacity mode run ∧
      (mode = .static → ∃ batches : List (List BatchRequest),
        batches.flatten = sortedBy queueKey requests ∧
        ServedInBatches BatchRequest.arrivalStep BatchRequest.outputTokens start capacity
          (sortedBy queueKey requests) batches) := by
  have hq := queue_sortedBy h
  have hinitial : ∀ s : BatchState, s.pending = sortedBy queueKey requests → s.waiting = [] →
      mode = .static → InBatches capacity (sortedBy queueKey requests) s := by
    intro s hpending hwaiting _
    refine ⟨[], by simp [hpending, hwaiting], ?_⟩
    intro before batch after hsplit
    simp at hsplit
  have hpass : ∀ s s', LoopInvariant capacity mode (sortedBy queueKey requests) s →
      (mode = .static → InBatches capacity (sortedBy queueKey requests) s) →
      iteration capacity mode s = .ok s' →
      mode = .static → InBatches capacity (sortedBy queueKey requests) s' := by
    rintro s s' hinv hin hpass rfl
    exact (hin rfl).pass hq hinv hpass
  obtain ⟨first, pending, t, passes, hqueue, hdrained, hin, hexit, hrun⟩ :=
    simulateBatching_drained h hcapacity mode hinitial hpass
  have hbatches : mode = .static → ∃ batches : List (List BatchRequest),
      batches.flatten = sortedBy queueKey requests ∧
      ServedInBatches BatchRequest.arrivalStep BatchRequest.outputTokens
        (serviceStart t.firstService) capacity (sortedBy queueKey requests) batches := by
    intro hmode
    obtain ⟨batches, hsplit, hserved⟩ := hin hmode
    obtain ⟨hpending, hwaiting, -⟩ : t.pending = [] ∧ t.waiting = [] ∧ t.active.items = [] := by
      simpa [hasWork] using hexit
    exact ⟨batches, by simpa [hpending, hwaiting] using hsplit, hserved⟩
  have hperm : t.completed.Perm (requests.map (completionOf (serviceStart t.firstService))) :=
    hdrained.completed.trans ((sortedBy_perm queueKey requests).map _)
  refine ⟨serviceStart t.firstService, _, ?_, ⟨passes, hrun⟩, hbatches⟩
  constructor
  case toSchedule =>
    rw [hqueue] at hdrained hq
    exact hdrained.schedule hqueue hq
  case mode_eq => rfl
  case completions_eq =>
    apply sortedBy_identifier_eq hperm
    rw [(hperm.map _).nodup_iff, List.map_map]
    exact h.unique
  case leastStart =>
    cases mode with
    | static =>
        obtain ⟨batches, hflatten, hserved⟩ := hbatches rfl
        exact hserved.leastStart hflatten hq.sorted hq.output_pos
    | continuous => exact leastStart_of_keepsBusy hdrained.valid hdrained.keepsBusy hq.output_pos

/-- The event loop computes the first-come-first-served recurrence of either mode. -/
theorem simulateBatching_recurrence (h : Accepted requests) (hcapacity : 1 ≤ capacity) :
    (∃ start run, Returns requests capacity .continuous run ∧
      run.completions.Perm (requests.map (completionOf start)) ∧
      ∀ pre r post, sortedBy queueKey requests = pre ++ r :: post →
        IsLeast {s | r.arrivalStep ≤ s ∧ (∀ k ∈ pre, start k ≤ s) ∧
          (pre.countP (fun k => s < start k + k.outputTokens) : ℤ) < capacity} (start r)) ∧
    (∃ start run, Returns requests capacity .static run ∧
      run.completions.Perm (requests.map (completionOf start)) ∧
      ∃ batches : List (List BatchRequest), batches.flatten = sortedBy queueKey requests ∧
        ∀ before batch after, batches = before ++ batch :: after →
          ∃ first members step, batch = first :: members ∧ (∀ r ∈ batch, start r = step) ∧
            IsLeast {s | first.arrivalStep ≤ s ∧
              ∀ r ∈ before.flatten, start r + r.outputTokens ≤ s} step ∧
            batch = (batch ++ after.flatten).take (min capacity.toNat
              ((batch ++ after.flatten).countP (fun r => r.arrivalStep ≤ step)))) := by
  constructor
  · obtain ⟨start, run, hrec, hreturns, -⟩ := exists_recurrence h hcapacity .continuous
    exact ⟨start, run, hreturns, hrec.completions, hrec.leastStart⟩
  · obtain ⟨start, run, hrec, hreturns, hbatches⟩ := exists_recurrence h hcapacity .static
    obtain ⟨batches, hflatten, hserved⟩ := hbatches rfl
    refine ⟨start, run, hreturns, hrec.completions, batches, hflatten, ?_⟩
    intro before batch after hsplit
    apply hserved before batch after hsplit
    rw [← hflatten, hsplit, List.flatten_append, List.flatten_cons]

end Runs

theorem simulateBatching_recurrence_example :
    (∃ start run, Returns [⟨"long", 0, 5⟩, ⟨"late", 7, 1⟩, ⟨"short", 0, 1⟩] 2 .continuous run ∧
      run.completions.Perm
        (List.map (completionOf start) [⟨"long", 0, 5⟩, ⟨"late", 7, 1⟩, ⟨"short", 0, 1⟩])) ∧
    ∃ (run : BatchRun) (batches : List (List BatchRequest)),
      Returns [⟨"long", 0, 5⟩, ⟨"late", 7, 1⟩, ⟨"short", 0, 1⟩] 2 .static run ∧
      batches.flatten =
        sortedBy queueKey [⟨"long", 0, 5⟩, ⟨"late", 7, 1⟩, ⟨"short", 0, 1⟩] := by
  obtain ⟨⟨start, run, hreturns, hperm, -⟩, _, run', hreturns', -, batches, hflatten, -⟩ :=
    simulateBatching_recurrence accepted_example (show (1 : ℤ) ≤ 2 by decide)
  exact ⟨⟨start, run, hreturns, hperm⟩, run', batches, hreturns', hflatten⟩

end Batching
