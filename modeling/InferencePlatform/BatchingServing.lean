import InferencePlatform.BatchingPass

/-!
# The invariant of the batching loop

`Serving` relates a state of the loop to the requests started so far, in queue order. Starts are
what the `first_service` table records. The invariant holds between any two phases of a pass;
here it is shown to survive the two queue phases, joining the queue and filling one lane.
-/

namespace Batching

open PythonBuiltins LaneSchedule OrderedDict

def serviceStart (firstService : OrderedDict String ℤ) (r : BatchRequest) : ℤ :=
  startOf firstService r.identifier

def serviceEnd (firstService : OrderedDict String ℤ) (r : BatchRequest) : ℤ :=
  serviceStart firstService r + r.outputTokens

def completionOf (start : BatchRequest → ℤ) (r : BatchRequest) : Completion :=
  ⟨r.identifier, start r, start r + r.outputTokens⟩

/-- The lanes in use while somebody waits: all of them, or at least one in a static batch. -/
def lanesHeld : BatchMode → ℤ → ℤ
  | .continuous, capacity => capacity
  | .static, _ => 1

/-- The queue in the order in which it is served. -/
structure Queue (queue : List BatchRequest) : Prop where
  sorted : queue.Pairwise (fun r k => r.arrivalStep ≤ k.arrivalStep)
  unique : (queue.map (·.identifier)).Nodup
  output_pos : ∀ r ∈ queue, 1 ≤ r.outputTokens

structure Serving (capacity : ℤ) (mode : BatchMode) (queue started : List BatchRequest)
    (s : BatchState) : Prop where
  split : started ++ (s.waiting ++ s.pending) = queue
  known : ∀ r ∈ started, r.identifier ∈ s.firstService.keys
  active_eq : s.active.items =
    (started.filter (fun r => s.step < serviceEnd s.firstService r)).map
      (fun r => (r.identifier, r, serviceEnd s.firstService r - s.step))
  completed_perm : s.completed.Perm
    ((started.filter (fun r => ¬ s.step < serviceEnd s.firstService r)).map
      (completionOf (serviceStart s.firstService)))
  active_le : (s.active.items.length : ℤ) ≤ capacity
  begun : ∀ r ∈ started, serviceStart s.firstService r ≤ s.step
  arrived : ∀ r ∈ started, r.arrivalStep ≤ serviceStart s.firstService r
  fifo : started.Pairwise
    (fun r k => serviceStart s.firstService r ≤ serviceStart s.firstService k)
  lanes : ∀ t, t < s.step →
    (busy BatchRequest.outputTokens (serviceStart s.firstService) started t : ℤ) ≤ capacity
  keepsBusy : KeepsBusy BatchRequest.arrivalStep BatchRequest.outputTokens
    (serviceStart s.firstService) (lanesHeld mode capacity) started
  waited : ∀ r ∈ s.waiting ++ s.pending, ∀ t, r.arrivalStep ≤ t → t < s.step →
    lanesHeld mode capacity ≤
      busy BatchRequest.outputTokens (serviceStart s.firstService) started t
  queued : ∀ r ∈ s.waiting, r.arrivalStep ≤ s.step

section Phases

variable {capacity : ℤ} {mode : BatchMode} {queue started : List BatchRequest} {s : BatchState}

/-- The lanes held at the current step are the active ones. -/
theorem Serving.busy_now (h : Serving capacity mode queue started s) :
    busy BatchRequest.outputTokens (serviceStart s.firstService) started s.step =
      s.active.items.length := by
  rw [busy_eq_length_filter h.begun, h.active_eq, List.length_map]
  rfl

/-- Every active request owes at least one token. -/
theorem Serving.active_pos (h : Serving capacity mode queue started s) :
    ∀ e ∈ s.active.items, 1 ≤ e.2.2 := by
  intro e he
  rw [h.active_eq] at he
  obtain ⟨r, hr, rfl⟩ := List.mem_map.mp he
  have hlt := List.of_mem_filter hr
  simp only [decide_eq_true_eq] at hlt ⊢
  omega

theorem Serving.active_keys (h : Serving capacity mode queue started s) {x : String}
    (hx : x ∈ s.active.keys) : ∃ r ∈ started, r.identifier = x := by
  rw [keys, h.active_eq, List.map_map] at hx
  obtain ⟨r, hr, rfl⟩ := List.mem_map.mp hx
  exact ⟨r, List.mem_of_mem_filter hr, rfl⟩

theorem Serving.join (h : Serving capacity mode queue started s) :
    Serving capacity mode queue started
      { s with
        pending := (joinQueue s.step s.pending s.waiting).1
        waiting := (joinQueue s.step s.pending s.waiting).2 } := by
  have happend := joinQueue_append s.step s.pending s.waiting
  refine ⟨?_, h.known, h.active_eq, h.completed_perm, h.active_le, h.begun, h.arrived, h.fifo,
    h.lanes, h.keepsBusy, ?_, joinQueue_arrived s.step s.pending s.waiting h.queued⟩
  · dsimp only
    rw [happend]
    exact h.split
  · dsimp only
    rw [happend]
    exact h.waited

/-! ### Filling one lane -/

theorem serviceStart_set_self (firstService : OrderedDict String ℤ) (r : BatchRequest) (t : ℤ) :
    serviceStart (firstService.set r.identifier t) r = t := by
  rw [serviceStart, startOf, get?_set_self]
  rfl

theorem serviceStart_set_of_ne (firstService : OrderedDict String ℤ) {r k : BatchRequest} (t : ℤ)
    (h : k.identifier ≠ r.identifier) :
    serviceStart firstService k = serviceStart (firstService.set r.identifier t) k := by
  rw [serviceStart, serviceStart, startOf, startOf, get?_set_of_ne _ _ h]

theorem Queue.ne_of_split (hq : Queue queue) {pre post : List BatchRequest} {r : BatchRequest}
    (h : pre ++ r :: post = queue) : ∀ k ∈ pre, k.identifier ≠ r.identifier := by
  intro k hk
  have hnd := hq.unique
  rw [← h, List.map_append, List.map_cons, List.nodup_append] at hnd
  exact hnd.2.2 _ (List.mem_map_of_mem hk) _ List.mem_cons_self

def fillOne (s : BatchState) (r : BatchRequest) (waiting : List BatchRequest) : BatchState :=
  { s with
    waiting := waiting
    active := s.active.set r.identifier (r, r.outputTokens)
    firstService := s.firstService.set r.identifier s.step }

section FillOne

variable {r : BatchRequest} {waiting : List BatchRequest}

theorem Serving.ne_of_waiting (hq : Queue queue) (h : Serving capacity mode queue started s)
    (hw : s.waiting = r :: waiting) : ∀ k ∈ started, k.identifier ≠ r.identifier := by
  have hsplit := h.split
  rw [hw, List.cons_append] at hsplit
  exact hq.ne_of_split hsplit

theorem Serving.not_active (hq : Queue queue) (h : Serving capacity mode queue started s)
    (hw : s.waiting = r :: waiting) : r.identifier ∉ s.active.keys := by
  intro hmem
  obtain ⟨k, hk, hid⟩ := h.active_keys hmem
  exact h.ne_of_waiting hq hw k hk hid

/-- Filling a lane keeps the starts of everybody who has started. -/
theorem Serving.start_fillOne (hq : Queue queue) (h : Serving capacity mode queue started s)
    (hw : s.waiting = r :: waiting) : ∀ k ∈ started, serviceStart s.firstService k =
      serviceStart (fillOne s r waiting).firstService k := fun k hk =>
  serviceStart_set_of_ne s.firstService s.step (h.ne_of_waiting hq hw k hk)

theorem serviceStart_fillOne_self (s : BatchState) (r : BatchRequest)
    (waiting : List BatchRequest) : serviceStart (fillOne s r waiting).firstService r = s.step :=
  serviceStart_set_self s.firstService r s.step

theorem lt_serviceEnd_fillOne (hr : 1 ≤ r.outputTokens) :
    s.step < serviceEnd (fillOne s r waiting).firstService r := by
  rw [serviceEnd, serviceStart_fillOne_self]
  omega

theorem Serving.end_fillOne (hq : Queue queue) (h : Serving capacity mode queue started s)
    (hw : s.waiting = r :: waiting) : ∀ k ∈ started, serviceEnd s.firstService k =
      serviceEnd (fillOne s r waiting).firstService k := by
  intro k hk
  rw [serviceEnd, serviceEnd, h.start_fillOne hq hw k hk]

theorem Serving.filter_fillOne (hq : Queue queue) (h : Serving capacity mode queue started s)
    (hw : s.waiting = r :: waiting) (p : ℤ → Prop) [DecidablePred p] :
    started.filter (fun k => p (serviceEnd (fillOne s r waiting).firstService k)) =
      started.filter (fun k => p (serviceEnd s.firstService k)) := by
  apply List.filter_congr
  intro k hk
  rw [h.end_fillOne hq hw k hk]

theorem Serving.active_fillOne (hq : Queue queue) (h : Serving capacity mode queue started s)
    (hw : s.waiting = r :: waiting) (hr : 1 ≤ r.outputTokens) :
    (fillOne s r waiting).active.items =
      ((started ++ [r]).filter
        (fun k => s.step < serviceEnd (fillOne s r waiting).firstService k)).map
          (fun k => (k.identifier, k,
            serviceEnd (fillOne s r waiting).firstService k - s.step)) := by
  have hend : s.step < serviceEnd (fillOne s r waiting).firstService r :=
    lt_serviceEnd_fillOne hr
  change (s.active.set r.identifier (r, r.outputTokens)).items = _
  rw [items_set_of_not_mem _ (h.not_active hq hw), List.filter_append, List.map_append,
    h.filter_fillOne hq hw (fun e => s.step < e), h.active_eq]
  congr 1
  · apply List.map_congr_left
    intro k hk
    rw [h.end_fillOne hq hw k (List.mem_of_mem_filter hk)]
  · rw [List.filter_singleton, decide_eq_true hend]
    simp only [cond_true, List.map_cons, List.map_nil, serviceEnd, serviceStart_fillOne_self,
      add_sub_cancel_left]

theorem Serving.completed_fillOne (hq : Queue queue)
    (h : Serving capacity mode queue started s) (hw : s.waiting = r :: waiting)
    (hr : 1 ≤ r.outputTokens) :
    (fillOne s r waiting).completed.Perm (((started ++ [r]).filter (fun k =>
      ¬ (fillOne s r waiting).step < serviceEnd (fillOne s r waiting).firstService k)).map
        (completionOf (serviceStart (fillOne s r waiting).firstService))) := by
  have hstep : (fillOne s r waiting).step = s.step := rfl
  have hend : s.step < serviceEnd (fillOne s r waiting).firstService r :=
    lt_serviceEnd_fillOne hr
  rw [hstep, List.filter_append, List.map_append,
    h.filter_fillOne hq hw (fun e => ¬ s.step < e), List.filter_singleton,
    decide_eq_false (not_not_intro hend)]
  simp only [cond_false, List.map_nil, List.append_nil]
  refine h.completed_perm.trans (List.Perm.of_eq ?_)
  apply List.map_congr_left
  intro k hk
  rw [completionOf, completionOf, h.start_fillOne hq hw k (List.mem_of_mem_filter hk)]

theorem Serving.busy_fillOne (hq : Queue queue) (h : Serving capacity mode queue started s)
    (hw : s.waiting = r :: waiting) (t : ℤ) :
    busy BatchRequest.outputTokens (serviceStart (fillOne s r waiting).firstService) started t =
      busy BatchRequest.outputTokens (serviceStart s.firstService) started t :=
  (busy_congr (h.start_fillOne hq hw) t).symm

/-- The new request holds no lane before the current step. -/
theorem Serving.busy_fillOne_of_lt (hq : Queue queue)
    (h : Serving capacity mode queue started s) (hw : s.waiting = r :: waiting) {t : ℤ}
    (ht : t < s.step) :
    busy BatchRequest.outputTokens (serviceStart (fillOne s r waiting).firstService)
        (started ++ [r]) t =
      busy BatchRequest.outputTokens (serviceStart s.firstService) started t := by
  have hnew : busy BatchRequest.outputTokens
      (serviceStart (fillOne s r waiting).firstService) [r] t = 0 := by
    apply busy_eq_zero
    intro k hk hin
    rw [List.mem_singleton.mp hk] at hin
    have hbegun := hin.1
    rw [serviceStart_fillOne_self] at hbegun
    omega
  rw [busy_append, hnew, Nat.add_zero, h.busy_fillOne hq hw]

theorem Serving.fill_one (hq : Queue queue) (h : Serving capacity mode queue started s)
    (hw : s.waiting = r :: waiting) (hlane : (s.active.items.length : ℤ) < capacity) :
    Serving capacity mode queue (started ++ [r]) (fillOne s r waiting) := by
  have hsplit := h.split
  rw [hw, List.cons_append] at hsplit
  have hkeep := h.start_fillOne hq hw
  have hself := serviceStart_fillOne_self s r waiting
  have hr : 1 ≤ r.outputTokens := hq.output_pos r (hsplit ▸ by simp)
  constructor
  case split => simpa [fillOne] using hsplit
  case known =>
    intro k hk
    rw [← get?_isSome_iff]
    change (get? (s.firstService.set r.identifier s.step) k.identifier).isSome
    rw [get?_set]
    rcases List.mem_append.mp hk with hk | hk
    · rw [if_neg (h.ne_of_waiting hq hw k hk), get?_isSome_iff]
      exact h.known k hk
    · rw [List.mem_singleton.mp hk, if_pos rfl]
      rfl
  case active_eq => exact h.active_fillOne hq hw hr
  case completed_perm => exact h.completed_fillOne hq hw hr
  case active_le =>
    change (((s.active.set r.identifier (r, r.outputTokens)).items.length : ℕ) : ℤ) ≤ capacity
    rw [items_set_of_not_mem _ (h.not_active hq hw), List.length_append, List.length_singleton]
    push_cast
    omega
  case begun =>
    intro k hk
    rcases List.mem_append.mp hk with hk | hk
    · rw [← hkeep k hk]
      exact h.begun k hk
    · rw [List.mem_singleton.mp hk, hself]
      rfl
  case arrived =>
    intro k hk
    rcases List.mem_append.mp hk with hk | hk
    · rw [← hkeep k hk]
      exact h.arrived k hk
    · rw [List.mem_singleton.mp hk, hself]
      exact h.queued r (hw ▸ List.mem_cons_self)
  case fifo =>
    rw [List.pairwise_append]
    refine ⟨?_, List.pairwise_singleton _ _, ?_⟩
    · refine h.fifo.imp_of_mem ?_
      intro k l hk hl hle
      rwa [← hkeep k hk, ← hkeep l hl]
    · intro k hk l hl
      rw [List.mem_singleton.mp hl, hself, ← hkeep k hk]
      exact h.begun k hk
  case lanes =>
    intro t ht
    rw [h.busy_fillOne_of_lt hq hw ht]
    exact h.lanes t ht
  case keepsBusy =>
    refine (h.keepsBusy.congr _ _ _ hkeep).concat _ _ _ ?_
    intro t hat hts
    rw [hself] at hts
    rw [h.busy_fillOne hq hw]
    exact h.waited r (by rw [hw]; simp) t hat hts
  case waited =>
    intro k hk t hat hts
    rw [h.busy_fillOne_of_lt hq hw hts]
    refine h.waited k ?_ t hat hts
    rw [hw]
    exact List.mem_cons_of_mem r hk
  case queued =>
    intro k hk
    exact h.queued k (by rw [hw]; exact List.mem_cons_of_mem r hk)

end FillOne

end Phases

end Batching
