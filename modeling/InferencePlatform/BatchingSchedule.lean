import InferencePlatform.BatchingIteration

/-!
# The schedule of a whole batching run

Every accepted workload gets a run of either mode. `LoopInvariant` holds before each pass, so no
pass meets an empty pending list, and the loop exits with the whole queue started and every lane
free. `Schedule` says what the run reports in terms of the starts of the requests.
-/

namespace Batching

open PythonBuiltins WhileLoop LaneSchedule OrderedDict

section Loop

variable {capacity : ℤ} {mode : BatchMode} {queue started : List BatchRequest} {s : BatchState}

/-- Before a pass, an arrival is pending or some request ends no earlier than the clock. -/
def LoopInvariant (capacity : ℤ) (mode : BatchMode) (queue : List BatchRequest)
    (s : BatchState) : Prop :=
  ∃ started, Serving capacity mode queue started s ∧
    (s.pending = [] → ∃ r ∈ started, s.step ≤ serviceEnd s.firstService r)

theorem Serving.eq_nil_of_potential (hq : Queue queue) (h : Serving capacity mode queue started s)
    (hpot : potential s = 0) : s.waiting ++ s.pending = [] ∧ s.active.items = [] := by
  rw [potential] at hpot
  constructor
  · refine List.eq_nil_iff_forall_not_mem.mpr fun r hr => ?_
    have hpos := hq.output_pos r (h.split ▸ List.mem_append_right _ hr)
    have hle := List.single_le_sum (fun n _ => Nat.zero_le n) _
      (List.mem_map_of_mem (f := fun r : BatchRequest => r.outputTokens.toNat) hr)
    omega
  · refine List.eq_nil_iff_forall_not_mem.mpr fun e he => ?_
    have hpos := h.active_pos e he
    have hle := List.single_le_sum (fun n _ => Nat.zero_le n) _
      (List.mem_map_of_mem (f := fun e : BatchRequest × ℤ => e.2.toNat)
        (List.mem_map_of_mem (f := Prod.snd) he))
    simp only [total, values] at hpot
    omega

theorem refilled_pending (capacity : ℤ) (mode : BatchMode) (s : BatchState) :
    (refilled capacity mode s).pending = (joinQueue s.step s.pending s.waiting).1 := by
  unfold refilled
  split_ifs <;> rfl

theorem refilled_step (capacity : ℤ) (mode : BatchMode) (s : BatchState) :
    (refilled capacity mode s).step = s.step := by
  unfold refilled
  split_ifs <;> rfl

theorem lanesHeld_le (hcapacity : 1 ≤ capacity) : lanesHeld mode capacity ≤ capacity := by
  cases mode with
  | static => exact hcapacity
  | continuous => exact le_rfl

/-- After the queue loops, requests wait only while the lanes of the mode are held. -/
theorem Serving.refill (hq : Queue queue) (hcapacity : 1 ≤ capacity)
    (h : Serving capacity mode queue started s) :
    ∃ started', Serving capacity mode queue started' (refilled capacity mode s) ∧
      potential (refilled capacity mode s) = potential s ∧
      ((refilled capacity mode s).active.items = [] →
        (refilled capacity mode s).waiting = []) ∧
      ((refilled capacity mode s).active.items ≠ [] →
        (refilled capacity mode s).waiting ≠ [] →
          lanesHeld mode capacity ≤ (refilled capacity mode s).active.items.length) := by
  have hjoin : Serving capacity mode queue started (joined s) := h.join
  unfold refilled
  split_ifs with hfill
  · obtain ⟨started', hserve, hstop, hpot⟩ := hjoin.fill hq
    refine ⟨started', hserve, hpot.trans (potential_joined s), ?_, ?_⟩
    · intro hactive
      rcases hstop with hwaiting | hfull
      · exact hwaiting
      · rw [hactive] at hfull
        exact absurd (hcapacity.trans hfull) (by decide)
    · intro _ hwaiting
      exact (lanesHeld_le hcapacity).trans (hstop.resolve_left hwaiting)
  · obtain ⟨hmode, hactive⟩ := not_or.mp hfill
    refine ⟨started, hjoin, potential_joined s, fun hnil => absurd hnil hactive, ?_⟩
    intro hne _
    cases mode with
    | continuous => exact absurd rfl hmode
    | static =>
        have hpos := List.length_pos_of_ne_nil hne
        rw [lanesHeld]
        omega

theorem refilled_ahead (hq : Queue queue)
    (h : Serving capacity mode queue started (refilled capacity mode s)) :
    ∀ r ∈ (refilled capacity mode s).pending, s.step < r.arrivalStep := by
  cases hpending : (refilled capacity mode s).pending with
  | nil => intro r hr; cases hr
  | cons k rest =>
      have hhead : s.step < k.arrivalStep := by
        rw [refilled_pending] at hpending
        exact joinQueue_head s.step s.pending s.waiting hpending
      have hsorted := hq.sorted
      rw [← h.split, hpending] at hsorted
      have htail := (List.pairwise_append.mp (List.pairwise_append.mp hsorted).2.1).2.1
      intro r hr
      rcases List.mem_cons.mp hr with rfl | hr
      · exact hhead
      · exact hhead.trans_le (List.rel_of_pairwise_cons htail hr)

/-- What a pass does after the queue loops. -/
def tokenPhase (s : BatchState) : Except PyError BatchState :=
  if s.active.items = [] then
    match s.pending with
    | [] => throw .indexError
    | request :: _ => pure (jumped s request)
  else do
    let (active, completed, finished) ←
      s.active.items.foldlM (emitToken s.step s.firstService) (s.active, s.completed, [])
    pure { s with
      active := finished.foldl .erase active
      completed := completed
      step := s.step + 1 }

theorem iteration_eq (capacity : ℤ) (mode : BatchMode) (s : BatchState) :
    iteration capacity mode s = tokenPhase (refilled capacity mode s) := by
  unfold iteration refilled
  by_cases hfill : mode = .continuous ∨ s.active.items = []
  · simp only [if_pos hfill]
    rfl
  · simp only [if_neg hfill]
    rfl

theorem tokenPhase_of_idle {r : BatchRequest} {rest : List BatchRequest}
    (hactive : s.active.items = []) (hpending : s.pending = r :: rest) :
    tokenPhase s = .ok (jumped s r) := by
  rw [tokenPhase, if_pos hactive, hpending]
  rfl

theorem tokenPhase_of_active (hactive : s.active.items ≠ [])
    (hknown : ∀ e ∈ s.active.items, e.1 ∈ s.firstService.keys) :
    tokenPhase s = .ok (emitted s) := by
  rw [tokenPhase, if_neg hactive, foldlM_emitToken _ _ _ hknown]
  rfl

theorem Serving.active_known (h : Serving capacity mode queue started s) :
    ∀ e ∈ s.active.items, e.1 ∈ s.firstService.keys := by
  intro e he
  obtain ⟨r, hr, hid⟩ := h.active_keys (mem_keys_of_mem he)
  exact hid ▸ h.known r hr

/-- No pass raises; every pass keeps the invariant and decreases the potential. -/
theorem LoopInvariant.pass (hq : Queue queue) (hcapacity : 1 ≤ capacity)
    (h : LoopInvariant capacity mode queue s) (hwork : hasWork s = true) :
    ∃ s', iteration capacity mode s = .ok s' ∧ LoopInvariant capacity mode queue s' ∧
      potential s' < potential s := by
  obtain ⟨started₀, hserving, _⟩ := h
  obtain ⟨started, hrefill, hpot, hidle, hlanes⟩ := hserving.refill hq hcapacity
  have hahead := refilled_ahead hq hrefill
  rw [iteration_eq]
  by_cases hactive : (refilled capacity mode s).active.items = []
  · have hwaiting := hidle hactive
    cases hpending : (refilled capacity mode s).pending with
    | nil =>
        have hzero : potential s = 0 := by
          rw [← hpot, potential, total, values, hactive, hwaiting, hpending]
          rfl
        obtain ⟨hqueue, hlane⟩ := hserving.eq_nil_of_potential hq hzero
        obtain ⟨hw, hp⟩ := List.append_eq_nil_iff.mp hqueue
        simp [hasWork, hw, hp, hlane] at hwork
    | cons r rest =>
        have hlt : (refilled capacity mode s).step < r.arrivalStep := by
          rw [refilled_step]
          exact hahead r (hpending ▸ List.mem_cons_self)
        refine ⟨_, tokenPhase_of_idle hactive hpending, ?_, ?_⟩
        · refine ⟨started, hrefill.jump hq hactive hwaiting hpending hlt, ?_⟩
          intro hnil
          exact absurd (hpending.symm.trans hnil) (List.cons_ne_nil r rest)
        · exact (potential_jumped hpending hlt).trans_eq hpot
  · refine ⟨_, tokenPhase_of_active hactive hrefill.active_known, ?_, ?_⟩
    · have hahead' : ∀ r ∈ (refilled capacity mode s).pending,
          (refilled capacity mode s).step < r.arrivalStep := by
        rw [refilled_step]
        exact hahead
      refine ⟨started, hrefill.emit hahead' (hlanes hactive), ?_⟩
      intro _
      obtain ⟨e, he⟩ := List.exists_mem_of_ne_nil _ hactive
      rw [hrefill.active_eq] at he
      obtain ⟨r, hr, -⟩ := List.mem_map.mp he
      refine ⟨r, List.mem_of_mem_filter hr, ?_⟩
      have hlt := List.of_mem_filter hr
      exact Int.add_one_le_of_lt (of_decide_eq_true hlt)
    · exact (hrefill.potential_emitted hactive).trans_eq hpot

theorem Serving.initial (hq : Queue queue) (hcapacity : 1 ≤ capacity) {first : BatchRequest}
    {pending : List BatchRequest} (hqueue : queue = first :: pending) :
    Serving capacity mode queue [] ⟨queue, [], .empty, .empty, [], first.arrivalStep⟩ := by
  constructor
  case split => rfl
  case known => exact fun r hr => absurd hr List.not_mem_nil
  case active_eq => rfl
  case completed_perm => exact List.Perm.refl _
  case active_le => exact zero_le_one.trans hcapacity
  case begun => exact fun r hr => absurd hr List.not_mem_nil
  case arrived => exact fun r hr => absurd hr List.not_mem_nil
  case fifo => exact List.Pairwise.nil
  case lanes => exact fun t _ => zero_le_one.trans hcapacity
  case keepsBusy =>
    intro pre r post hsplit
    exact absurd hsplit.symm (by simp)
  case waited =>
    intro r hr t hat hts
    have hsorted := hq.sorted
    rw [hqueue] at hsorted
    have hle : first.arrivalStep ≤ r.arrivalStep := by
      rcases List.mem_cons.mp (hqueue ▸ hr : r ∈ first :: pending) with rfl | hr
      · rfl
      · exact List.rel_of_pairwise_cons hsorted hr
    dsimp only at hts
    omega
  case queued => exact fun r hr => absurd hr List.not_mem_nil

/-- At exit the whole queue has been served and the clock shows the last completion. -/
structure Drained (capacity : ℤ) (mode : BatchMode) (queue : List BatchRequest)
    (s : BatchState) : Prop where
  known : ∀ r ∈ queue, r.identifier ∈ s.firstService.keys
  completed : s.completed.Perm (queue.map (completionOf (serviceStart s.firstService)))
  valid : Valid BatchRequest.arrivalStep BatchRequest.outputTokens
    (serviceStart s.firstService) capacity queue
  keepsBusy : KeepsBusy BatchRequest.arrivalStep BatchRequest.outputTokens
    (serviceStart s.firstService) (lanesHeld mode capacity) queue
  ended : ∀ r ∈ queue, serviceEnd s.firstService r ≤ s.step
  last : ∃ r ∈ queue, serviceEnd s.firstService r = s.step

theorem LoopInvariant.exit (h : LoopInvariant capacity mode queue s) (hexit : hasWork s = false) :
    Drained capacity mode queue s := by
  obtain ⟨started, hserving, hends⟩ := h
  have hnil : s.pending = [] ∧ s.waiting = [] ∧ s.active.items = [] := by
    simpa [hasWork] using hexit
  obtain ⟨hpending, hwaiting, hactive⟩ := hnil
  obtain rfl : started = queue := by simpa [hpending, hwaiting] using hserving.split
  have hdrained := hserving.drained hactive
  constructor
  case known => exact hserving.known
  case completed =>
    have hperm := hserving.completed_perm
    rwa [hserving.filter_served hactive le_rfl] at hperm
  case valid => exact ⟨hserving.arrived, hserving.fifo, hserving.lanes_of_idle hactive⟩
  case keepsBusy => exact hserving.keepsBusy
  case ended => exact hdrained
  case last =>
    obtain ⟨r, hr, hle⟩ := hends hpending
    exact ⟨r, hr, le_antisymm (hdrained r hr) hle⟩

end Loop

/-! ### What a run reports -/

theorem queue_sortedBy {requests : List BatchRequest} (h : Accepted requests) :
    Queue (sortedBy queueKey requests) := by
  refine ⟨?_, ?_, ?_⟩
  · refine (pairwise_sortedBy queueKey requests).imp ?_
    intro r k hle
    exact (Prod.Lex.toLex_le_toLex'.mp hle).1
  · exact ((sortedBy_perm queueKey requests).map _).nodup_iff.mpr h.unique
  · exact fun r hr => h.output_pos r ((mem_sortedBy queueKey).mp hr)

/-- The queue order is strict, since identifiers are unique. -/
theorem queue_strict {requests : List BatchRequest} (h : Accepted requests) :
    (sortedBy queueKey requests).Pairwise (fun r k => queueKey r < queueKey k) := by
  have hunique := List.pairwise_map.mp (queue_sortedBy h).unique
  refine ((pairwise_sortedBy queueKey requests).and hunique).imp ?_
  rintro r k ⟨hle, hne⟩
  refine lt_of_le_of_ne hle fun heq => hne ?_
  exact congrArg (fun x => (ofLex x).2) heq

/-- The report of a drained state. -/
def reportOf (requests : List BatchRequest) (mode : BatchMode) (firstArrivalStep : ℤ)
    (s : BatchState) : BatchRun where
  mode := mode
  completions := sortedBy (·.identifier) s.completed
  makespanSteps := s.step - firstArrivalStep
  totalWaitSteps := (requests.map (fun r => serviceStart s.firstService r - r.arrivalStep)).sum

theorem report_of_known {requests : List BatchRequest} (mode : BatchMode) (firstArrivalStep : ℤ)
    {s : BatchState} (hknown : ∀ r ∈ requests, r.identifier ∈ s.firstService.keys) :
    report requests mode firstArrivalStep s =
      .ok (reportOf requests mode firstArrivalStep s) := by
  have hwaits : (requests.mapM fun r => do
      let first ← getItem s.firstService r.identifier
      pure (first - r.arrivalStep)) = Except.ok (ε := PyError)
        (requests.map (fun r => serviceStart s.firstService r - r.arrivalStep)) := by
    induction requests with
    | nil => rfl
    | cons r requests ih =>
        rw [List.mapM_cons, getItem_firstService (hknown r List.mem_cons_self),
          ih fun k hk => hknown k (List.mem_cons_of_mem _ hk)]
        rfl
  rw [report, hwaits]
  rfl

/-- A run of the simulator with the starts it gave to the requests. -/
structure Schedule (requests : List BatchRequest) (capacity : ℤ) (mode : BatchMode)
    (start : BatchRequest → ℤ) (run : BatchRun) : Prop where
  completions : run.completions.Perm (requests.map (completionOf start))
  valid : Valid BatchRequest.arrivalStep BatchRequest.outputTokens start capacity
    (sortedBy queueKey requests)
  keepsBusy : KeepsBusy BatchRequest.arrivalStep BatchRequest.outputTokens start
    (lanesHeld mode capacity) (sortedBy queueKey requests)
  makespan : ∃ last first, IsGreatest {t | ∃ r ∈ requests, start r + r.outputTokens = t} last ∧
    IsLeast {t | ∃ r ∈ requests, r.arrivalStep = t} first ∧ run.makespanSteps = last - first
  totalWait : run.totalWaitSteps = (requests.map (fun r => start r - r.arrivalStep)).sum

theorem Drained.schedule {requests : List BatchRequest} {capacity : ℤ} {mode : BatchMode}
    {first : BatchRequest} {pending : List BatchRequest} {s : BatchState}
    (hqueue : sortedBy queueKey requests = first :: pending) (hq : Queue (first :: pending))
    (h : Drained capacity mode (first :: pending) s) :
    Schedule requests capacity mode (serviceStart s.firstService)
      (reportOf requests mode first.arrivalStep s) := by
  have hmem (r : BatchRequest) : r ∈ requests ↔ r ∈ first :: pending := by
    rw [← hqueue, mem_sortedBy]
  constructor
  case completions =>
    refine (sortedBy_perm _ s.completed).trans (h.completed.trans ?_)
    rw [← hqueue]
    exact (sortedBy_perm queueKey requests).map _
  case valid => exact hqueue ▸ h.valid
  case keepsBusy => exact hqueue ▸ h.keepsBusy
  case makespan =>
    refine ⟨s.step, first.arrivalStep, ⟨?_, ?_⟩, ⟨?_, ?_⟩, rfl⟩
    · obtain ⟨r, hr, hlast⟩ := h.last
      exact ⟨r, (hmem r).mpr hr, hlast⟩
    · rintro _ ⟨r, hr, rfl⟩
      exact h.ended r ((hmem r).mp hr)
    · exact ⟨first, (hmem first).mpr List.mem_cons_self, rfl⟩
    · rintro _ ⟨r, hr, rfl⟩
      rcases List.mem_cons.mp ((hmem r).mp hr) with rfl | hr
      · rfl
      · exact List.rel_of_pairwise_cons hq.sorted hr
  case totalWait => rfl

/-- Every accepted workload is drained, and whatever else the passes preserve holds at exit. -/
theorem simulateBatching_drained {requests : List BatchRequest} (h : Accepted requests)
    {capacity : ℤ} (hcapacity : 1 ≤ capacity) (mode : BatchMode) {K : BatchState → Prop}
    (hinitial : ∀ s, s.pending = sortedBy queueKey requests → s.waiting = [] → K s)
    (hpass : ∀ s s', LoopInvariant capacity mode (sortedBy queueKey requests) s → K s →
      iteration capacity mode s = .ok s' → K s') :
    ∃ first pending t passes, sortedBy queueKey requests = first :: pending ∧
      Drained capacity mode (sortedBy queueKey requests) t ∧ K t ∧ hasWork t = false ∧
      ∀ fuel, passes < fuel → simulateBatching fuel requests capacity mode =
        some (.ok (reportOf requests mode first.arrivalStep t)) := by
  have hq := queue_sortedBy h
  cases hqueue : sortedBy queueKey requests with
  | nil =>
      obtain ⟨r, hr⟩ := List.exists_mem_of_ne_nil _ h.nonempty
      rw [← mem_sortedBy queueKey, hqueue] at hr
      cases hr
  | cons first pending =>
      rw [hqueue] at hq hinitial hpass
      let initial : BatchState := ⟨first :: pending, [], .empty, .empty, [], first.arrivalStep⟩
      have hstart : LoopInvariant capacity mode (first :: pending) initial :=
        ⟨[], .initial hq hcapacity rfl, fun hnil => absurd hnil (List.cons_ne_nil _ _)⟩
      have hstep : ∀ s, LoopInvariant capacity mode (first :: pending) s ∧ K s →
          hasWork s = true → ∃ s', iteration capacity mode s = .ok s' ∧
            (LoopInvariant capacity mode (first :: pending) s' ∧ K s') ∧
              potential s' < potential s := by
        rintro s ⟨hs, hK⟩ hwork
        obtain ⟨s', hs', hinv', hpot⟩ := hs.pass hq hcapacity hwork
        exact ⟨s', hs', ⟨hinv', hpass s s' hs hK hs'⟩, hpot⟩
      obtain ⟨t, ⟨hinv, hK⟩, hexit, hrun⟩ := whileLoop_total hasWork (iteration capacity mode)
        potential hstep initial ⟨hstart, hinitial initial rfl rfl⟩
      have hdrained := hinv.exit hexit
      refine ⟨first, pending, t, potential initial, rfl, hdrained, hK, hexit, ?_⟩
      intro fuel hfuel
      have hknown : ∀ r ∈ requests, r.identifier ∈ t.firstService.keys := by
        intro r hr
        rw [← mem_sortedBy queueKey, hqueue] at hr
        exact hdrained.known r hr
      rw [simulateBatching_of_accepted h hcapacity, runBatches, hqueue]
      dsimp only
      rw [hrun fuel hfuel]
      exact congrArg some (report_of_known mode first.arrivalStep hknown)

theorem simulateBatching_schedule {requests : List BatchRequest} (h : Accepted requests)
    {capacity : ℤ} (hcapacity : 1 ≤ capacity) (mode : BatchMode) :
    ∃ start run passes, Schedule requests capacity mode start run ∧
      ∀ fuel, passes < fuel → simulateBatching fuel requests capacity mode = some (.ok run) := by
  obtain ⟨first, pending, t, passes, hqueue, hdrained, -, -, hrun⟩ :=
    simulateBatching_drained h hcapacity mode (K := fun _ => True) (fun _ _ _ => trivial)
      (fun _ _ _ _ _ => trivial)
  have hq := queue_sortedBy h
  rw [hqueue] at hdrained hq
  exact ⟨_, _, passes, hdrained.schedule hqueue hq, hrun⟩

end Batching
