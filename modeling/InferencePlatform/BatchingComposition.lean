import InferencePlatform.BatchingComparison
import InferencePlatform.LaneWorkload

/-!
# Workloads served one after the other

When every request of a second workload arrives after the first workload is complete, the run of
both together is the two runs side by side: the simulator carries nothing over an idle moment.
-/

namespace Batching

open PythonBuiltins LaneSchedule

theorem forgets_startRoom (mode : BatchMode) (capacity : ℤ) :
    Forgets BatchRequest.outputTokens (startRoom mode capacity) := by
  cases mode with
  | static => exact forgets_batchRoom
  | continuous => exact forgets_laneRoom

section Append

variable {requests requests' : List BatchRequest} {capacity : ℤ} {mode : BatchMode}
  {start start' start'' : BatchRequest → ℤ} {run run' whole : BatchRun}

theorem Accepted.append (h : Accepted requests) (h' : Accepted requests')
    (hids : ∀ r ∈ requests, ∀ k ∈ requests', r.identifier ≠ k.identifier) :
    Accepted (requests ++ requests') := by
  constructor
  case nonempty => exact List.append_ne_nil_of_left_ne_nil h.nonempty _
  case named => exact List.forall_mem_append.mpr ⟨h.named, h'.named⟩
  case unique =>
    rw [List.map_append, List.nodup_append]
    refine ⟨h.unique, h'.unique, ?_⟩
    simpa using hids
  case arrival_nonneg => exact List.forall_mem_append.mpr ⟨h.arrival_nonneg, h'.arrival_nonneg⟩
  case output_pos => exact List.forall_mem_append.mpr ⟨h.output_pos, h'.output_pos⟩

/-- Late arrivals queue behind everyone else. -/
theorem sortedBy_queueKey_append (h : Accepted (requests ++ requests'))
    (hlate : ∀ r ∈ requests, ∀ k ∈ requests', r.arrivalStep < k.arrivalStep) :
    sortedBy queueKey (requests ++ requests') =
      sortedBy queueKey requests ++ sortedBy queueKey requests' := by
  apply sortedBy_append
  · intro r hr k hk
    exact Prod.Lex.toLex_lt_toLex.mpr (.inl (hlate r hr k hk))
  · intro r hr k hk heq
    exact List.inj_on_of_nodup_map h.unique hr hk (congrArg (fun x => (ofLex x).2) heq)

section Drained

variable (h : Accepted (requests ++ requests')) (hrec : Recurrence requests capacity mode start run)
  (hrec' : Recurrence requests' capacity mode start' run')
  (hwhole : Recurrence (requests ++ requests') capacity mode start'' whole)
  (hdrained : ∀ r ∈ requests, ∀ k ∈ requests', start r + r.outputTokens ≤ k.arrivalStep)

include h hrec hdrained in
theorem arrival_lt_of_drained :
    ∀ r ∈ requests, ∀ k ∈ requests', r.arrivalStep < k.arrivalStep := by
  intro r hr k hk
  have hstart := hrec.valid.arrived r ((mem_sortedBy queueKey).mpr hr)
  have hpos := h.output_pos r (List.mem_append_left _ hr)
  have hend := hdrained r hr k hk
  omega

include h hrec hrec' hwhole hdrained

/-- The starts of the two runs solve the recurrence of the whole workload. -/
theorem Recurrence.start_append :
    (∀ r ∈ requests, start'' r = start r) ∧ ∀ r ∈ requests', start'' r = start' r := by
  have hlate := arrival_lt_of_drained h hrec hdrained
  have hmem {rs : List BatchRequest} {r : BatchRequest} : r ∈ sortedBy queueKey rs ↔ r ∈ rs :=
    mem_sortedBy queueKey
  let both : BatchRequest → ℤ := fun r => if r ∈ requests then start r else start' r
  have hboth : ∀ r ∈ requests, both r = start r := fun r hr => if_pos hr
  have hboth' : ∀ r ∈ requests', both r = start' r :=
    fun r hr => if_neg fun hr' => (hlate r hr' r hr).false
  have hcausal := causal_startRoom mode capacity
  have hleast : LeastStart BatchRequest.arrivalStep (startRoom mode capacity) both
      (sortedBy queueKey requests ++ sortedBy queueKey requests') := by
    apply LeastStart.append (forgets_startRoom mode capacity)
    · intro r hr
      have := h.output_pos r (List.mem_append_left _ (hmem.mp hr))
      omega
    · intro r hr k hk
      rw [hboth r (hmem.mp hr)]
      exact hdrained r (hmem.mp hr) k (hmem.mp hk)
    · exact hrec.leastStart.congr hcausal fun r hr => (hboth r (hmem.mp hr)).symm
    · exact hrec'.leastStart.congr hcausal fun r hr => (hboth' r (hmem.mp hr)).symm
  have hsolved := hwhole.leastStart
  rw [sortedBy_queueKey_append h hlate] at hsolved
  have heq := hsolved.unique hcausal hleast
  constructor
  · intro r hr
    rw [heq r (List.mem_append_left _ (hmem.mpr hr)), hboth r hr]
  · intro r hr
    rw [heq r (List.mem_append_right _ (hmem.mpr hr)), hboth' r hr]

theorem Recurrence.completions_append : whole.completions =
    sortedBy (·.identifier) (run.completions ++ run'.completions) := by
  obtain ⟨hstart, hstart'⟩ := hrec.start_append h hrec' hwhole hdrained
  have hmap (rs : List BatchRequest) (s : BatchRequest → ℤ) (hs : ∀ r ∈ rs, start'' r = s r) :
      rs.map (completionOf start'') = rs.map (completionOf s) := by
    apply List.map_congr_left
    intro r hr
    rw [completionOf, completionOf, hs r hr]
  have hperm : ((requests ++ requests').map (completionOf start'')).Perm
      (run.completions ++ run'.completions) := by
    rw [List.map_append, hmap requests start hstart, hmap requests' start' hstart']
    exact (hrec.completions.append hrec'.completions).symm
  rw [hwhole.completions_eq]
  apply sortedBy_identifier_eq hperm
  rw [List.map_map]
  exact h.unique

theorem Recurrence.totalWait_append :
    whole.totalWaitSteps = run.totalWaitSteps + run'.totalWaitSteps := by
  obtain ⟨hstart, hstart'⟩ := hrec.start_append h hrec' hwhole hdrained
  have hmap (rs : List BatchRequest) (s : BatchRequest → ℤ) (hs : ∀ r ∈ rs, start'' r = s r) :
      rs.map (fun r => start'' r - r.arrivalStep) = rs.map (fun r => s r - r.arrivalStep) := by
    apply List.map_congr_left
    intro r hr
    rw [hs r hr]
  rw [hwhole.totalWait, hrec.totalWait, hrec'.totalWait, List.map_append, List.sum_append,
    hmap requests start hstart, hmap requests' start' hstart']

/-- The span reaches from the first arrival of the first workload to the end of the second. -/
theorem Recurrence.makespan_append :
    ∃ first first', IsLeast {t | ∃ r ∈ requests, r.arrivalStep = t} first ∧
      IsLeast {t | ∃ r ∈ requests', r.arrivalStep = t} first' ∧
      whole.makespanSteps = (first' - first) + run'.makespanSteps := by
  obtain ⟨hstart, hstart'⟩ := hrec.start_append h hrec' hwhole hdrained
  have hlate := arrival_lt_of_drained h hrec hdrained
  obtain ⟨last, first, -, hfirst, -⟩ := hrec.makespan
  obtain ⟨last', first', hlast', hfirst', hmakespan'⟩ := hrec'.makespan
  obtain ⟨last'', first'', hlast'', hfirst'', hmakespan''⟩ := hwhole.makespan
  have hends : IsGreatest {t | ∃ r ∈ requests ++ requests', start'' r + r.outputTokens = t}
      last' := by
    obtain ⟨⟨k, hk, hkend⟩, hmax⟩ := hlast'
    refine ⟨⟨k, List.mem_append_right _ hk, by rw [hstart' k hk, hkend]⟩, ?_⟩
    rintro _ ⟨r, hr, rfl⟩
    rcases List.mem_append.mp hr with hr | hr
    · have harrived := hrec'.valid.arrived k ((mem_sortedBy queueKey).mpr hk)
      have hpos := h.output_pos k (List.mem_append_right _ hk)
      have hend := hdrained r hr k hk
      rw [hstart r hr]
      omega
    · rw [hstart' r hr]
      exact hmax ⟨r, hr, rfl⟩
  have hstarts : IsLeast {t | ∃ r ∈ requests ++ requests', r.arrivalStep = t} first := by
    obtain ⟨⟨r, hr, hrfirst⟩, hmin⟩ := hfirst
    refine ⟨⟨r, List.mem_append_left _ hr, hrfirst⟩, ?_⟩
    rintro _ ⟨k, hk, rfl⟩
    rcases List.mem_append.mp hk with hk | hk
    · exact hmin ⟨k, hk, rfl⟩
    · exact hrfirst ▸ (hlate r hr k hk).le
  refine ⟨first, first', hfirst, hfirst', ?_⟩
  rw [hmakespan'', hmakespan', hlast''.unique hends, hfirst''.unique hstarts]
  ring

end Drained

/-- Two workloads of which the first is complete before the second arrives are served as if each
had the simulator to itself. -/
theorem simulateBatching_append (hrun : Returns requests capacity mode run)
    (hrun' : Returns requests' capacity mode run')
    (hids : ∀ r ∈ requests, ∀ k ∈ requests', r.identifier ≠ k.identifier)
    (hends : ∀ c ∈ run.completions, ∀ k ∈ requests', c.completionStep ≤ k.arrivalStep) :
    ∃ whole, Returns (requests ++ requests') capacity mode whole ∧
      whole.completions = sortedBy (·.identifier) (run.completions ++ run'.completions) ∧
      whole.totalWaitSteps = run.totalWaitSteps + run'.totalWaitSteps ∧
      ∃ first first', IsLeast {t | ∃ r ∈ requests, r.arrivalStep = t} first ∧
        IsLeast {t | ∃ r ∈ requests', r.arrivalStep = t} first' ∧
        whole.makespanSteps = (first' - first) + run'.makespanSteps := by
  obtain ⟨hcapacity, haccepted⟩ := hrun.accepted
  have haccepted' := hrun'.accepted.2
  have h := haccepted.append haccepted' hids
  obtain ⟨start, run, hrec, hreturns, -⟩ := exists_recurrence haccepted hcapacity mode
  obtain ⟨start', run', hrec', hreturns', -⟩ := exists_recurrence haccepted' hcapacity mode
  obtain ⟨start'', whole, hwhole, hreturns'', -⟩ := exists_recurrence h hcapacity mode
  obtain rfl := hrun.unique hreturns
  obtain rfl := hrun'.unique hreturns'
  have hdrained : ∀ r ∈ requests, ∀ k ∈ requests', start r + r.outputTokens ≤ k.arrivalStep :=
    fun r hr k hk => hends _ (hrec.mem_completions.mpr ⟨r, hr, rfl⟩) k hk
  exact ⟨whole, hreturns'', hrec.completions_append h hrec' hwhole hdrained,
    hrec.totalWait_append h hrec' hwhole hdrained, hrec.makespan_append h hrec' hwhole hdrained⟩

theorem simulateBatching_append_example :
    ∃ whole, Returns [⟨"long", 0, 5⟩, ⟨"short", 0, 1⟩, ⟨"late", 7, 1⟩] 1 .static whole ∧
      whole.totalWaitSteps = 5 + 0 := by
  have hrun : Returns [⟨"long", 0, 5⟩, ⟨"short", 0, 1⟩] 1 .static
      ⟨.static, [⟨"long", 0, 5⟩, ⟨"short", 5, 6⟩], 6, 5⟩ :=
    returns_of_eq 10 (by decide +kernel)
  have hrun' : Returns [⟨"late", 7, 1⟩] 1 .static ⟨.static, [⟨"late", 7, 8⟩], 1, 0⟩ :=
    returns_of_eq 10 (by decide +kernel)
  obtain ⟨whole, hwhole, -, hwait, -⟩ :=
    simulateBatching_append hrun hrun' (by decide) (by decide)
  exact ⟨whole, hwhole, hwait⟩

end Append

end Batching
