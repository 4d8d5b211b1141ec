import InferencePlatform.BatchingServing

/-!
# One pass keeps the invariant and makes progress

`refilled` is the state after the two inner queue loops of a pass. Either a lane is active and
the pass ends with `emitted`, or none is and the clock moves to the next arrival, which is
`jumped`. Every pass decreases `potential`: the tokens still owed, plus the requests whose
arrival lies ahead. The second summand pays for the passes in which no token is emitted.
-/

namespace Batching

open PythonBuiltins LaneSchedule OrderedDict

/-- Tokens owed to the queue and to the active lanes, plus arrivals that lie ahead. -/
def potential (s : BatchState) : ℕ :=
  ((s.waiting ++ s.pending).map (fun r => r.outputTokens.toNat)).sum +
    s.active.total (fun e => e.2.toNat) +
    (s.waiting ++ s.pending).countP (fun r => s.step < r.arrivalStep)

def joined (s : BatchState) : BatchState :=
  { s with
    pending := (joinQueue s.step s.pending s.waiting).1
    waiting := (joinQueue s.step s.pending s.waiting).2 }

def filled (capacity : ℤ) (s : BatchState) : BatchState :=
  { s with
    waiting := (fillLanes capacity s.step s.waiting s.active s.firstService).1
    active := (fillLanes capacity s.step s.waiting s.active s.firstService).2.1
    firstService := (fillLanes capacity s.step s.waiting s.active s.firstService).2.2 }

def refilled (capacity : ℤ) (mode : BatchMode) (s : BatchState) : BatchState :=
  if mode = .continuous ∨ s.active.items = [] then filled capacity (joined s) else joined s

def emitted (s : BatchState) : BatchState :=
  { s with
    active := ((s.active.items.filter isLast).map Prod.fst).foldl erase
      (s.active.items.foldl (fun d e => if isLast e then d else d.set e.1 (e.2.1, e.2.2 - 1))
        s.active)
    completed := s.completed ++ (s.active.items.filter isLast).map
      (fun e => ⟨e.1, startOf s.firstService e.1, s.step + 1⟩)
    step := s.step + 1 }

def jumped (s : BatchState) (r : BatchRequest) : BatchState := { s with step := r.arrivalStep }

section Phases

variable {capacity : ℤ} {mode : BatchMode} {queue started : List BatchRequest} {s : BatchState}

theorem potential_joined (s : BatchState) : potential (joined s) = potential s := by
  have happend : (joined s).waiting ++ (joined s).pending = s.waiting ++ s.pending :=
    joinQueue_append s.step s.pending s.waiting
  rw [potential, happend]
  rfl

theorem potential_fillOne (h : Serving capacity mode queue started s) (hq : Queue queue)
    {r : BatchRequest} {waiting : List BatchRequest} (hw : s.waiting = r :: waiting) :
    potential (fillOne s r waiting) = potential s := by
  have harrived : ¬ s.step < r.arrivalStep :=
    not_lt.mpr (h.queued r (hw ▸ List.mem_cons_self))
  have htotal := total_set_of_not_mem (fun e => e.2.toNat) (r, r.outputTokens)
    (h.not_active hq hw)
  change (List.map _ (waiting ++ s.pending)).sum +
    (s.active.set r.identifier (r, r.outputTokens)).total _ +
    (waiting ++ s.pending).countP (fun k => s.step < k.arrivalStep) = potential s
  rw [potential, hw, List.cons_append, List.map_cons, List.sum_cons, List.countP_cons,
    if_neg (by simpa using harrived), htotal]
  omega

/-- What the filling loop does: it starts `batch` at the current step, and stops when nobody waits
or all lanes are taken. -/
structure FillsBatch (capacity : ℤ) (mode : BatchMode) (queue started batch : List BatchRequest)
    (s : BatchState) : Prop where
  serving : Serving capacity mode queue (started ++ batch) (filled capacity s)
  kept : ∀ k ∈ started,
    serviceStart s.firstService k = serviceStart (filled capacity s).firstService k
  begins : ∀ k ∈ batch, serviceStart (filled capacity s).firstService k = s.step
  active_length : (filled capacity s).active.items.length = s.active.items.length + batch.length
  stopped : (filled capacity s).waiting = [] ∨
    capacity ≤ ((filled capacity s).active.items.length : ℤ)
  potential_eq : potential (filled capacity s) = potential s

theorem Serving.fillsBatch_nil (h : Serving capacity mode queue started s)
    (heq : filled capacity s = s)
    (hstop : s.waiting = [] ∨ capacity ≤ (s.active.items.length : ℤ)) :
    FillsBatch capacity mode queue started [] s := by
  constructor
  case serving => rwa [heq, List.append_nil]
  case kept => exact fun k _ => by rw [heq]
  case begins => exact fun k hk => absurd hk List.not_mem_nil
  case active_length => rw [heq]; rfl
  case stopped => rwa [heq]
  case potential_eq => rw [heq]

theorem Serving.fillsBatch_cons (hq : Queue queue) (h : Serving capacity mode queue started s)
    {r : BatchRequest} {waiting batch : List BatchRequest} (hw : s.waiting = r :: waiting)
    (heq : filled capacity s = filled capacity (fillOne s r waiting))
    (hfill : FillsBatch capacity mode queue (started ++ [r]) batch (fillOne s r waiting)) :
    FillsBatch capacity mode queue started (r :: batch) s := by
  constructor
  case serving =>
    have hserve := hfill.serving
    rwa [List.append_assoc, List.singleton_append, ← heq] at hserve
  case kept =>
    intro k hk
    rw [heq, h.start_fillOne hq hw k hk]
    exact hfill.kept k (List.mem_append_left _ hk)
  case begins =>
    intro k hk
    rw [heq]
    rcases List.mem_cons.mp hk with rfl | hk
    · rw [← hfill.kept k (List.mem_append_right _ (List.mem_singleton_self k))]
      exact serviceStart_fillOne_self s k waiting
    · exact hfill.begins k hk
  case active_length =>
    have hone : (fillOne s r waiting).active.items.length = s.active.items.length + 1 := by
      change (s.active.set r.identifier (r, r.outputTokens)).items.length = _
      rw [items_set_of_not_mem _ (h.not_active hq hw), List.length_append, List.length_singleton]
    rw [heq, hfill.active_length, hone, List.length_cons]
    omega
  case stopped =>
    rw [heq]
    exact hfill.stopped
  case potential_eq =>
    rw [heq, hfill.potential_eq]
    exact potential_fillOne h hq hw

theorem Serving.exists_fillsBatch (hq : Queue queue)
    (h : Serving capacity mode queue started s) :
    ∃ batch, FillsBatch capacity mode queue started batch s := by
  generalize hw : s.waiting = waiting
  induction waiting generalizing s started with
  | nil =>
      have heq : filled capacity s = s := by
        simp only [filled, hw, fillLanes]
        rw [← hw]
      exact ⟨[], h.fillsBatch_nil heq (Or.inl hw)⟩
  | cons r waiting ih =>
      by_cases hlane : (s.active.items.length : ℤ) < capacity
      · have heq : filled capacity s = filled capacity (fillOne s r waiting) := by
          simp only [filled, hw, fillLanes, hlane, if_true, fillOne]
        obtain ⟨batch, hfill⟩ := ih (h.fill_one hq hw hlane) rfl
        exact ⟨r :: batch, h.fillsBatch_cons hq hw heq hfill⟩
      · have heq : filled capacity s = s := by
          simp only [filled, hw, fillLanes, hlane, if_false]
          rw [← hw]
        exact ⟨[], h.fillsBatch_nil heq (Or.inr (not_lt.mp hlane))⟩

theorem Serving.fill (hq : Queue queue) (h : Serving capacity mode queue started s) :
    ∃ started', Serving capacity mode queue started' (filled capacity s) ∧
      ((filled capacity s).waiting = [] ∨
        capacity ≤ ((filled capacity s).active.items.length : ℤ)) ∧
      potential (filled capacity s) = potential s := by
  obtain ⟨batch, hfill⟩ := h.exists_fillsBatch hq
  exact ⟨started ++ batch, hfill.serving, hfill.stopped, hfill.potential_eq⟩

/-! ### Emitting a token on every lane -/

theorem items_emitted (s : BatchState) : (emitted s).active.items =
    (s.active.items.filter (fun e => ¬ isLast e)).map (fun e => (e.1, e.2.1, e.2.2 - 1)) :=
  items_after_emit s.active

theorem Serving.active_emitted (h : Serving capacity mode queue started s) :
    (emitted s).active.items =
      (started.filter (fun r => s.step + 1 < serviceEnd s.firstService r)).map
        (fun r => (r.identifier, r, serviceEnd s.firstService r - (s.step + 1))) := by
  rw [items_emitted, h.active_eq, List.filter_map, List.map_map, List.filter_filter]
  have hfilter : started.filter (fun r => ((fun e => decide ¬ isLast e) ∘
      fun r => (r.identifier, r, serviceEnd s.firstService r - s.step)) r &&
        decide (s.step < serviceEnd s.firstService r)) =
      started.filter (fun r => s.step + 1 < serviceEnd s.firstService r) := by
    apply List.filter_congr
    intro r _
    rw [Bool.eq_iff_iff]
    simp only [Function.comp_apply, Bool.and_eq_true, decide_eq_true_eq]
    simp only [isLast]
    omega
  rw [hfilter]
  apply List.map_congr_left
  intro r _
  simp only [Function.comp_apply, sub_sub]

theorem Serving.completed_emitted (h : Serving capacity mode queue started s) :
    (emitted s).completed.Perm
      ((started.filter (fun r => ¬ s.step + 1 < serviceEnd s.firstService r)).map
        (completionOf (serviceStart s.firstService))) := by
  have hlast : (s.active.items.filter isLast).map
        (fun e => (⟨e.1, startOf s.firstService e.1, s.step + 1⟩ : Completion)) =
      ((started.filter (fun r => ¬ s.step + 1 < serviceEnd s.firstService r)).filter
        (fun r => s.step < serviceEnd s.firstService r)).map
          (completionOf (serviceStart s.firstService)) := by
    rw [h.active_eq, List.filter_map, List.map_map, List.filter_filter, List.filter_filter]
    have hfilter : started.filter (fun r => ((fun e => decide (isLast e)) ∘
        fun r => (r.identifier, r, serviceEnd s.firstService r - s.step)) r &&
          decide (s.step < serviceEnd s.firstService r)) =
        started.filter (fun r => decide (s.step < serviceEnd s.firstService r) &&
          decide (¬ s.step + 1 < serviceEnd s.firstService r)) := by
      apply List.filter_congr
      intro r _
      rw [Bool.eq_iff_iff]
      simp only [Function.comp_apply, Bool.and_eq_true, decide_eq_true_eq]
      simp only [isLast]
      omega
    rw [hfilter]
    apply List.map_congr_left
    intro r hr
    have hr' := List.of_mem_filter hr
    simp only [Bool.and_eq_true, decide_eq_true_eq] at hr'
    have hend : s.step + 1 = serviceEnd s.firstService r := by omega
    simp only [Function.comp_apply, completionOf, hend, serviceEnd, serviceStart]
  have hdone : s.completed.Perm
      (((started.filter (fun r => ¬ s.step + 1 < serviceEnd s.firstService r)).filter
        (fun r => ¬ s.step < serviceEnd s.firstService r)).map
          (completionOf (serviceStart s.firstService))) := by
    refine h.completed_perm.trans (List.Perm.of_eq ?_)
    rw [List.filter_filter]
    congr 1
    apply List.filter_congr
    intro r _
    rw [Bool.eq_iff_iff]
    simp only [Bool.and_eq_true, decide_eq_true_eq]
    omega
  change (s.completed ++ _).Perm _
  rw [hlast]
  refine (hdone.append_right _).trans (List.perm_append_comm.trans ?_)
  rw [← List.map_append]
  refine List.Perm.map _ ?_
  have hparts := List.filter_append_perm (fun r => decide (s.step < serviceEnd s.firstService r))
    (started.filter (fun r => ¬ s.step + 1 < serviceEnd s.firstService r))
  simpa only [decide_not] using hparts

theorem Serving.emit (h : Serving capacity mode queue started s)
    (hahead : ∀ r ∈ s.pending, s.step < r.arrivalStep)
    (hlanes : s.waiting ≠ [] → lanesHeld mode capacity ≤ s.active.items.length) :
    Serving capacity mode queue started (emitted s) := by
  constructor
  case split => exact h.split
  case known => exact h.known
  case active_eq => exact h.active_emitted
  case completed_perm => exact h.completed_emitted
  case active_le =>
    have hle : (emitted s).active.items.length ≤ s.active.items.length := by
      rw [items_emitted, List.length_map]
      exact List.length_filter_le _ _
    have := h.active_le
    omega
  case begun =>
    intro r hr
    have hbegun := h.begun r hr
    change serviceStart s.firstService r ≤ s.step + 1
    omega
  case arrived => exact h.arrived
  case fifo => exact h.fifo
  case lanes =>
    intro t ht
    rcases (Int.lt_add_one_iff.mp ht).lt_or_eq with hlt | rfl
    · exact h.lanes t hlt
    · exact (congrArg Nat.cast h.busy_now).trans_le h.active_le
  case keepsBusy => exact h.keepsBusy
  case waited =>
    intro r hr t hat hts
    rcases (Int.lt_add_one_iff.mp hts).lt_or_eq with hlt | rfl
    · exact h.waited r hr t hat hlt
    · have hwaiting : s.waiting ≠ [] := by
        intro hnil
        have hpending : r ∈ s.pending := by simpa [emitted, hnil] using hr
        exact absurd (hahead r hpending) (not_lt.mpr hat)
      exact (hlanes hwaiting).trans_eq (congrArg Nat.cast h.busy_now.symm)
  case queued =>
    intro r hr
    have hqueued := h.queued r hr
    change r.arrivalStep ≤ s.step + 1
    omega

theorem sum_tokens_emitted (items : List (String × BatchRequest × ℤ))
    (hpos : ∀ e ∈ items, 1 ≤ e.2.2) :
    ((items.filter (fun e => ¬ isLast e)).map (fun e => (e.2.2 - 1).toNat)).sum + items.length =
      (items.map (fun e => e.2.2.toNat)).sum := by
  induction items with
  | nil => rfl
  | cons e items ih =>
      have hrest := ih fun e' he' => hpos e' (List.mem_cons_of_mem _ he')
      have he := hpos e List.mem_cons_self
      rw [List.map_cons, List.sum_cons, List.length_cons]
      by_cases hlast : isLast e
      · rw [List.filter_cons_of_neg (by simpa using hlast)]
        rw [isLast] at hlast
        omega
      · rw [List.filter_cons_of_pos (by simpa using hlast), List.map_cons, List.sum_cons]
        omega

theorem Serving.potential_emitted (h : Serving capacity mode queue started s)
    (hactive : s.active.items ≠ []) : potential (emitted s) < potential s := by
  have htokens : (emitted s).active.total (fun e => e.2.toNat) + s.active.items.length =
      s.active.total (fun e => e.2.toNat) := by
    have hsum := sum_tokens_emitted s.active.items h.active_pos
    simpa only [total, values, items_emitted, List.map_map, Function.comp_def] using hsum
  have hcount : (s.waiting ++ s.pending).countP (fun r => s.step + 1 < r.arrivalStep) ≤
      (s.waiting ++ s.pending).countP (fun r => s.step < r.arrivalStep) := by
    apply List.countP_mono_left
    intro r _ hr
    simp only [decide_eq_true_eq] at hr ⊢
    omega
  have hlen := List.length_pos_of_ne_nil hactive
  change (List.map _ (s.waiting ++ s.pending)).sum + (emitted s).active.total _ +
    (s.waiting ++ s.pending).countP (fun r => s.step + 1 < r.arrivalStep) < _
  rw [potential]
  omega

/-! ### Jumping to the next arrival -/

theorem Serving.drained (h : Serving capacity mode queue started s)
    (hactive : s.active.items = []) : ∀ r ∈ started, serviceEnd s.firstService r ≤ s.step := by
  have hnil := h.active_eq
  rw [hactive] at hnil
  have hfilter := List.map_eq_nil_iff.mp hnil.symm
  intro r hr
  simpa using List.filter_eq_nil_iff.mp hfilter r hr

/-- Nobody who has started is still in service once all lanes are free. -/
theorem Serving.filter_serving (h : Serving capacity mode queue started s)
    (hactive : s.active.items = []) {t : ℤ} (ht : s.step ≤ t) :
    started.filter (fun k => t < serviceEnd s.firstService k) = [] := by
  apply List.filter_eq_nil_iff.mpr
  intro k hk
  have hle := h.drained hactive k hk
  simp only [decide_eq_true_eq]
  omega

theorem Serving.filter_served (h : Serving capacity mode queue started s)
    (hactive : s.active.items = []) {t : ℤ} (ht : s.step ≤ t) :
    started.filter (fun k => ¬ t < serviceEnd s.firstService k) = started := by
  apply List.filter_eq_self.mpr
  intro k hk
  have hle := h.drained hactive k hk
  simp only [decide_eq_true_eq]
  omega

theorem Serving.idle (h : Serving capacity mode queue started s)
    (hactive : s.active.items = []) {t : ℤ} (ht : s.step ≤ t) :
    busy BatchRequest.outputTokens (serviceStart s.firstService) started t = 0 := by
  apply busy_eq_zero
  rintro k hk ⟨_, hend⟩
  have hle := h.drained hactive k hk
  rw [serviceEnd] at hle
  omega

/-- While all lanes are free, the lanes suffice at every step. -/
theorem Serving.lanes_of_idle (h : Serving capacity mode queue started s)
    (hactive : s.active.items = []) (t : ℤ) :
    (busy BatchRequest.outputTokens (serviceStart s.firstService) started t : ℤ) ≤ capacity := by
  rcases lt_or_ge t s.step with hlt | hge
  · exact h.lanes t hlt
  · have hle := h.active_le
    rw [h.idle hactive hge]
    omega

theorem Serving.jump (hq : Queue queue) (h : Serving capacity mode queue started s)
    (hactive : s.active.items = []) (hwaiting : s.waiting = []) {r : BatchRequest}
    {rest : List BatchRequest} (hpending : s.pending = r :: rest) (hlt : s.step < r.arrivalStep) :
    Serving capacity mode queue started (jumped s r) := by
  constructor
  case split => exact h.split
  case known => exact h.known
  case active_eq =>
    change s.active.items = (started.filter
      (fun k => r.arrivalStep < serviceEnd s.firstService k)).map _
    rw [hactive, h.filter_serving hactive hlt.le]
    rfl
  case completed_perm =>
    change s.completed.Perm ((started.filter
      (fun k => ¬ r.arrivalStep < serviceEnd s.firstService k)).map _)
    have hperm := h.completed_perm
    rw [h.filter_served hactive le_rfl] at hperm
    rwa [h.filter_served hactive hlt.le]
  case active_le => exact h.active_le
  case begun => exact fun k hk => (h.begun k hk).trans hlt.le
  case arrived => exact h.arrived
  case fifo => exact h.fifo
  case lanes => exact fun t _ => h.lanes_of_idle hactive t
  case keepsBusy => exact h.keepsBusy
  case waited =>
    intro k hk t hat hts
    have hsorted := hq.sorted
    rw [← h.split, hwaiting, hpending] at hsorted
    have hfirst := (List.pairwise_append.mp hsorted).2.1
    have hk' : k ∈ r :: rest := by simpa [jumped, hwaiting, hpending] using hk
    have hle : r.arrivalStep ≤ k.arrivalStep := by
      rcases List.mem_cons.mp hk' with rfl | hk'
      · rfl
      · exact List.rel_of_pairwise_cons hfirst hk'
    change t < r.arrivalStep at hts
    omega
  case queued =>
    intro k hk
    change k ∈ s.waiting at hk
    rw [hwaiting] at hk
    cases hk

theorem potential_jumped {r : BatchRequest} {rest : List BatchRequest}
    (hpending : s.pending = r :: rest) (hlt : s.step < r.arrivalStep) :
    potential (jumped s r) < potential s := by
  have hcount : (s.waiting ++ s.pending).countP (fun k => r.arrivalStep < k.arrivalStep) <
      (s.waiting ++ s.pending).countP (fun k => s.step < k.arrivalStep) := by
    have hmono (l : List BatchRequest) : l.countP (fun k => r.arrivalStep < k.arrivalStep) ≤
        l.countP (fun k => s.step < k.arrivalStep) := by
      apply List.countP_mono_left
      intro k _ hk
      simp only [decide_eq_true_eq] at hk ⊢
      omega
    rw [hpending, List.countP_append, List.countP_append, List.countP_cons, List.countP_cons,
      if_neg (by simp), if_pos (by simpa using hlt)]
    have hw := hmono s.waiting
    have hr := hmono rest
    omega
  change _ + (s.waiting ++ s.pending).countP (fun k => r.arrivalStep < k.arrivalStep) < _
  rw [potential]
  change (List.map _ (s.waiting ++ s.pending)).sum + s.active.total _ + _ < _
  omega

end Phases

end Batching
