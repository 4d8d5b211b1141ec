import InferencePlatform.BatchingRecurrence

/-!
# Waiting in the batching simulator

The requests ahead of a request are those with a smaller queue key. Its wait is at most the work
ahead, divided by the lanes the mode keeps in use, and it is a function of the requests ahead:
two workloads that agree up to a request start it at the same step.
-/

namespace Batching

open PythonBuiltins LaneSchedule

section Ahead

variable {requests requests' : List BatchRequest} {pre post pre' post' : List BatchRequest}
  {r : BatchRequest}

theorem ahead_perm (h : Accepted requests)
    (hsplit : sortedBy queueKey requests = pre ++ r :: post) :
    pre.Perm (requests.filter (fun k => queueKey k < queueKey r)) := by
  have hstrict := queue_strict h
  rw [hsplit] at hstrict
  obtain ⟨-, htail, hahead⟩ := List.pairwise_append.mp hstrict
  have hpre : pre.filter (fun k => queueKey k < queueKey r) = pre := by
    apply List.filter_eq_self.mpr
    intro k hk
    simpa using hahead k hk r List.mem_cons_self
  have hpost : (r :: post).filter (fun k => queueKey k < queueKey r) = [] := by
    apply List.filter_eq_nil_iff.mpr
    intro k hk
    rcases List.mem_cons.mp hk with rfl | hk
    · simp
    · simpa using (List.rel_of_pairwise_cons htail hk).le
  have hperm := (sortedBy_perm queueKey requests).filter (fun k => queueKey k < queueKey r)
  rwa [hsplit, List.filter_append, hpre, hpost, List.append_nil] at hperm

theorem mem_ahead (h : Accepted requests)
    (hsplit : sortedBy queueKey requests = pre ++ r :: post) {k : BatchRequest} :
    k ∈ pre ↔ k ∈ requests ∧ queueKey k < queueKey r := by
  rw [(ahead_perm h hsplit).mem_iff, List.mem_filter, decide_eq_true_eq]

/-- Workloads that agree up to a request queue the same requests before it. -/
theorem ahead_eq (h : Accepted requests) (h' : Accepted requests')
    (hsplit : sortedBy queueKey requests = pre ++ r :: post)
    (hsplit' : sortedBy queueKey requests' = pre' ++ r :: post')
    (hagree : ∀ k, queueKey k < queueKey r → (k ∈ requests' ↔ k ∈ requests)) : pre = pre' := by
  have hstrict := queue_strict h
  have hstrict' := queue_strict h'
  rw [hsplit] at hstrict
  rw [hsplit'] at hstrict'
  have hpre := (List.pairwise_append.mp hstrict).1
  have hpre' := (List.pairwise_append.mp hstrict').1
  refine List.Perm.eq_of_pairwise (fun a b _ _ hab hba => absurd hab hba.asymm) hpre hpre' ?_
  apply (List.perm_ext_iff_of_nodup (hpre.imp fun hlt => ne_of_apply_ne queueKey hlt.ne)
    (hpre'.imp fun hlt => ne_of_apply_ne queueKey hlt.ne)).mpr
  intro k
  rw [mem_ahead h hsplit, mem_ahead h' hsplit']
  exact and_congr_left fun hlt => (hagree k hlt).symm

end Ahead

section Waiting

variable {requests requests' : List BatchRequest} {capacity : ℤ} {mode : BatchMode}
  {start start' : BatchRequest → ℤ} {run run' : BatchRun} {r : BatchRequest}

theorem Schedule.mul_wait_le (h : Accepted requests) (hcapacity : 1 ≤ capacity)
    (hschedule : Schedule requests capacity mode start run) (hr : r ∈ requests) :
    lanesHeld mode capacity * (start r - r.arrivalStep) ≤
      ((requests.filter (fun k => queueKey k < queueKey r)).map (·.outputTokens)).sum := by
  obtain ⟨pre, post, hsplit⟩ := List.append_of_mem ((mem_sortedBy queueKey).mpr hr)
  have hperm := ahead_perm h hsplit
  have hheld : 0 ≤ lanesHeld mode capacity := by
    cases mode with
    | static => exact zero_le_one
    | continuous => exact zero_le_one.trans hcapacity
  rw [← (hperm.map BatchRequest.outputTokens).sum_eq]
  apply hschedule.keepsBusy.mul_wait_le hheld hsplit
  intro k hk
  have hpos := h.output_pos k ((mem_ahead h hsplit).mp hk).1
  omega

/-- The start of a request depends on the requests before it alone. -/
theorem Recurrence.start_eq (h : Accepted requests) (h' : Accepted requests')
    (hrec : Recurrence requests capacity mode start run)
    (hrec' : Recurrence requests' capacity mode start' run') (hr : r ∈ requests)
    (hagree : ∀ k, queueKey k ≤ queueKey r → (k ∈ requests' ↔ k ∈ requests)) :
    start' r = start r := by
  obtain ⟨pre, post, hsplit⟩ := List.append_of_mem ((mem_sortedBy queueKey).mpr hr)
  obtain ⟨pre', post', hsplit'⟩ :=
    List.append_of_mem ((mem_sortedBy queueKey).mpr ((hagree r le_rfl).mpr hr))
  obtain rfl := ahead_eq h h' hsplit hsplit' fun k hlt => hagree k hlt.le
  have hleast := hrec.leastStart
  have hleast' := hrec'.leastStart
  rw [hsplit, List.append_cons] at hleast
  rw [hsplit', List.append_cons] at hleast'
  exact hleast'.of_append.unique (causal_startRoom mode capacity) hleast.of_append r (by simp)

/-- Nobody starves: the wait is bounded by the work ahead, and nothing behind lengthens it. -/
theorem simulateBatching_bounded_wait (h : Accepted requests) (hcapacity : 1 ≤ capacity)
    (mode : BatchMode) :
    ∃ run, Returns requests capacity mode run ∧
      ∀ r ∈ requests, ∃ c ∈ run.completions, c.identifier = r.identifier ∧
        (mode = .continuous → capacity * (c.firstServiceStep - r.arrivalStep) ≤
          ((requests.filter (fun k => queueKey k < queueKey r)).map (·.outputTokens)).sum) ∧
        (mode = .static → c.firstServiceStep - r.arrivalStep ≤
          ((requests.filter (fun k => queueKey k < queueKey r)).map (·.outputTokens)).sum) ∧
        ∀ requests', Accepted requests' →
          (∀ k, queueKey k ≤ queueKey r → (k ∈ requests' ↔ k ∈ requests)) →
          ∃ run', Returns requests' capacity mode run' ∧
            ∃ c' ∈ run'.completions, c'.identifier = r.identifier ∧
              c'.firstServiceStep = c.firstServiceStep := by
  obtain ⟨start, run, hrec, hreturns, -⟩ := exists_recurrence h hcapacity mode
  refine ⟨run, hreturns, ?_⟩
  intro r hr
  have hwait := hrec.mul_wait_le h hcapacity hr
  refine ⟨_, hrec.mem_completions.mpr ⟨r, hr, rfl⟩, rfl, ?_, ?_, ?_⟩
  · rintro rfl
    exact hwait
  · rintro rfl
    rwa [lanesHeld, one_mul] at hwait
  · intro requests' h' hagree
    obtain ⟨start', run', hrec', hreturns', -⟩ := exists_recurrence h' hcapacity mode
    have hr' := (hagree r le_rfl).mpr hr
    refine ⟨run', hreturns', _, hrec'.mem_completions.mpr ⟨r, hr', rfl⟩, rfl, ?_⟩
    exact hrec.start_eq h h' hrec' hr hagree

end Waiting

theorem simulateBatching_bounded_wait_example :
    ∃ run, Returns [⟨"long", 0, 5⟩, ⟨"late", 7, 1⟩, ⟨"short", 0, 1⟩] 2 .static run ∧
      ∃ c ∈ run.completions, c.identifier = "late" ∧ c.firstServiceStep - 7 ≤ 6 := by
  obtain ⟨run, hreturns, hall⟩ :=
    simulateBatching_bounded_wait accepted_example (show (1 : ℤ) ≤ 2 by decide) .static
  obtain ⟨c, hc, hid, -, hwait, -⟩ := hall ⟨"late", 7, 1⟩ (by decide)
  exact ⟨run, hreturns, c, hc, hid, (hwait rfl).trans (by decide)⟩

end Batching
