import InferencePlatform.Admission

/-!
# The controller's counters and its table of decisions

`InStep` relates the two counters of a controller to the decisions it holds: the live tokens
are the sum of the reservations, the queue count is the number of queued records, and both stay
inside the policy. Every call preserves it, so it holds throughout every run, and a controller
that releases all it holds ends with both counters at zero.
-/

namespace Admission

open CallRuns OrderedDict

variable {T : Type} [Add T] [Zero T] [LT T] [DecidableLT T]

abbrev Table := OrderedDict String AdmissionDecision

def admittedTokens (decisions : Table) : ℤ :=
  ((decisions.values.filter (fun d => d.action = .admitted)).map (·.reservedTokens)).sum

def queuedCount (decisions : Table) : ℤ :=
  (decisions.values.filter (fun d => d.action = .queue)).length

structure InStep (policy : AdmissionPolicy) (c : AdmissionController) : Prop where
  policy_eq : c.policy = policy
  live_eq : c.liveTokens = admittedTokens c.decisions
  live_nonneg : 0 ≤ c.liveTokens
  live_le : c.liveTokens ≤ policy.maxLiveTokens
  queued_eq : c.queuedRequests = queuedCount c.decisions
  queued_nonneg : 0 ≤ c.queuedRequests
  queued_le : c.queuedRequests ≤ policy.maxQueuedRequests
  reserved : ∀ x d, c.decisions.get? x = some d → d.action = .admitted →
    1 ≤ d.reservedTokens ∧ d.reservedTokens ≤ policy.maxTokensPerRequest

/-! ### The sums as weights over the table -/

def liveWeight (d : AdmissionDecision) : ℤ := if d.action = .admitted then d.reservedTokens else 0

def queueWeight (d : AdmissionDecision) : ℤ := if d.action = .queue then 1 else 0

theorem admittedTokens_eq_total (decisions : Table) :
    admittedTokens decisions = total liveWeight decisions :=
  (total_ite (fun d : AdmissionDecision => d.action = .admitted) AdmissionDecision.reservedTokens
    decisions).symm

theorem queuedCount_eq_total (decisions : Table) :
    queuedCount decisions = total queueWeight decisions := by
  have hones := total_ite (fun d : AdmissionDecision => d.action = .queue)
    (fun _ => (1 : ℤ)) decisions
  rw [List.map_const', List.sum_replicate, nsmul_one] at hones
  exact hones.symm

section Updates

variable {decisions : Table} {x : String} {d : AdmissionDecision}

theorem admittedTokens_set (h : decisions.get? x = none) :
    admittedTokens (decisions.set x d) = admittedTokens decisions + liveWeight d := by
  rw [admittedTokens_eq_total, admittedTokens_eq_total,
    total_set_of_not_mem _ _ (get?_eq_none_iff.mp h)]

theorem queuedCount_set (h : decisions.get? x = none) :
    queuedCount (decisions.set x d) = queuedCount decisions + queueWeight d := by
  rw [queuedCount_eq_total, queuedCount_eq_total,
    total_set_of_not_mem _ _ (get?_eq_none_iff.mp h)]

theorem admittedTokens_erase (h : decisions.get? x = some d) :
    liveWeight d + admittedTokens (decisions.erase x) = admittedTokens decisions := by
  rw [admittedTokens_eq_total, admittedTokens_eq_total, total_erase _ h]

theorem queuedCount_erase (h : decisions.get? x = some d) :
    queueWeight d + queuedCount (decisions.erase x) = queuedCount decisions := by
  rw [queuedCount_eq_total, queuedCount_eq_total, total_erase _ h]

end Updates

theorem queuedCount_nonneg (decisions : Table) : 0 ≤ queuedCount decisions :=
  Int.natCast_nonneg _

/-- Every reservation is positive, so the live total of any table of such records is too. -/
theorem admittedTokens_nonneg {decisions : Table}
    (h : ∀ x d, decisions.get? x = some d → d.action = .admitted → 1 ≤ d.reservedTokens) :
    0 ≤ admittedTokens decisions := by
  apply List.sum_nonneg
  intro n hn
  obtain ⟨d, hd, rfl⟩ := List.mem_map.mp hn
  obtain ⟨hvalue, haction⟩ := List.mem_filter.mp hd
  obtain ⟨⟨x, d'⟩, hitem, rfl⟩ := List.mem_map.mp hvalue
  exact zero_le_one.trans (h x d' (get?_eq_some_iff.mpr hitem) (by simpa using haction))

/-! ### Preservation -/

theorem reserved_set {policy : AdmissionPolicy} {decisions : Table} {x : String}
    {d : AdmissionDecision}
    (hold : ∀ y e, decisions.get? y = some e → e.action = .admitted →
      1 ≤ e.reservedTokens ∧ e.reservedTokens ≤ policy.maxTokensPerRequest)
    (hnew : d.action = .admitted →
      1 ≤ d.reservedTokens ∧ d.reservedTokens ≤ policy.maxTokensPerRequest)
    (y : String) (e : AdmissionDecision) (h : (decisions.set x d).get? y = some e)
    (haction : e.action = .admitted) :
    1 ≤ e.reservedTokens ∧ e.reservedTokens ≤ policy.maxTokensPerRequest := by
  rw [get?_set] at h
  split_ifs at h with hxy
  · obtain rfl := Option.some.inj h
    exact hnew haction
  · exact hold y e h haction

theorem reserved_erase {policy : AdmissionPolicy} {decisions : Table} {x : String}
    (hold : ∀ y e, decisions.get? y = some e → e.action = .admitted →
      1 ≤ e.reservedTokens ∧ e.reservedTokens ≤ policy.maxTokensPerRequest)
    (y : String) (e : AdmissionDecision) (h : (decisions.erase x).get? y = some e)
    (haction : e.action = .admitted) :
    1 ≤ e.reservedTokens ∧ e.reservedTokens ≤ policy.maxTokensPerRequest := by
  rw [get?_erase] at h
  split_ifs at h with hxy
  exact hold y e h haction

theorem init_inStep {policy : AdmissionPolicy} {self : AdmissionController}
    (h : AdmissionController.init policy = .ok self) : InStep policy self := by
  obtain ⟨⟨⟨hlive, -⟩, hqueued⟩, rfl⟩ := AdmissionController.init_eq_ok_iff.mp h
  exact ⟨rfl, rfl, le_rfl, hlive.le, rfl, le_rfl, hqueued, fun x d hx => by simp at hx⟩

omit [Add T] [Zero T] [LT T] [DecidableLT T] in
/-- The invariant step, one case for each thing a call can do. -/
theorem transition_inStep {policy : AdmissionPolicy} {self self' : AdmissionController}
    {call : AdmissionCall T} {answer : Answer} (ht : Transition self call answer self')
    (hI : InStep policy self) : InStep policy self' := by
  obtain ⟨rfl, hlive, hlive0, hliveLe, hqueued, hqueued0, hqueuedLe, hres⟩ := hI
  cases ht with
  | raised | replayed => exact ⟨rfl, hlive, hlive0, hliveLe, hqueued, hqueued0, hqueuedLe, hres⟩
  | shed request now est reason hnew =>
      refine ⟨rfl, ?_, hlive0, hliveLe, ?_, hqueued0, hqueuedLe, ?_⟩
      · simpa [admittedTokens_set hnew, liveWeight] using hlive
      · simpa [queuedCount_set hnew, queueWeight] using hqueued
      · exact reserved_set hres (fun h => by cases h)
  | admitted request now est reason hnew hpos hbound hfits =>
      refine ⟨rfl, ?_, by dsimp only; omega, hfits, ?_, hqueued0, hqueuedLe, ?_⟩
      · simp [admittedTokens_set hnew, liveWeight, hlive]
      · simpa [queuedCount_set hnew, queueWeight] using hqueued
      · exact reserved_set hres (fun _ => ⟨hpos, hbound⟩)
  | queued request now est reason hnew hbound hslot =>
      refine ⟨rfl, ?_, hlive0, hliveLe, ?_, by dsimp only; omega, by dsimp only; omega, ?_⟩
      · simpa [admittedTokens_set hnew, liveWeight] using hlive
      · simp [queuedCount_set hnew, queueWeight, hqueued]
      · exact reserved_set hres (fun h => by cases h)
  | @releasedTokens x d hknown haction =>
      have hsum := admittedTokens_erase hknown
      have hcount := queuedCount_erase hknown
      simp only [liveWeight, queueWeight, haction, if_true, reduceCtorEq, if_false,
        zero_add] at hsum hcount
      have hd := hres x d hknown haction
      have hrest : 0 ≤ admittedTokens (self.decisions.erase x) :=
        admittedTokens_nonneg (fun y e hy he => (reserved_erase hres y e hy he).1)
      refine ⟨rfl, ?_, ?_, ?_, ?_, hqueued0, hqueuedLe, reserved_erase hres⟩ <;> dsimp only
      · omega
      · omega
      · omega
      · rw [hqueued, hcount]
  | @releasedSlot x d hknown haction =>
      have hsum := admittedTokens_erase hknown
      have hcount := queuedCount_erase hknown
      simp only [liveWeight, queueWeight, haction, if_true, reduceCtorEq, if_false,
        zero_add] at hsum hcount
      have hrest := queuedCount_nonneg (self.decisions.erase x)
      refine ⟨rfl, ?_, hlive0, hliveLe, ?_, ?_, ?_, reserved_erase hres⟩ <;> dsimp only
      · rw [hlive, hsum]
      · omega
      · omega
      · omega

theorem run_inStep {policy : AdmissionPolicy} {self : AdmissionController}
    (hI : InStep policy self) (calls : List (AdmissionCall T)) :
    InStep policy (finalState step self calls) :=
  finalState_induction step (fun s call hs => transition_inStep (step_transition s call) hs)
    self hI calls

/-! ### Draining a controller -/

/-- `x` holds tokens or a queue slot. -/
def Holds (self : AdmissionController) (x : String) : Prop :=
  ∃ d, self.decisions.get? x = some d ∧ d.action ≠ .shed

def held (self : AdmissionController) : List String :=
  (self.decisions.items.filter (fun e => e.2.action ≠ .shed)).map Prod.fst

theorem held_nodup (self : AdmissionController) : (held self).Nodup :=
  self.decisions.nodup_keys.sublist (List.filter_sublist.map Prod.fst)

theorem mem_held_iff {self : AdmissionController} {x : String} : x ∈ held self ↔ Holds self x := by
  simp only [held, Holds, get?_eq_some_iff, List.mem_map, List.mem_filter, decide_eq_true_eq]
  constructor
  · rintro ⟨⟨y, d⟩, ⟨hmem, hd⟩, rfl⟩
    exact ⟨d, hmem, hd⟩
  · rintro ⟨d, hmem, hd⟩
    exact ⟨(x, d), ⟨hmem, hd⟩, rfl⟩

theorem step_release_of_holds {self : AdmissionController} {x : String} (h : Holds self x) :
    (step self (.release (T := T) x)).1 = .ok none ∧
      (step self (.release (T := T) x)).2.decisions = self.decisions.erase x := by
  obtain ⟨d, hd, hshed⟩ := h
  rw [step, release_run_of_known self hd]
  cases ha : d.action with
  | admitted => exact ⟨rfl, rfl⟩
  | queue => exact ⟨rfl, rfl⟩
  | shed => exact absurd ha hshed

def releaseAll (xs : List String) : List (AdmissionCall T) := xs.map .release

theorem releaseAll_spec (xs : List String) (self : AdmissionController) (hnd : xs.Nodup)
    (hholds : ∀ x ∈ xs, Holds self x) :
    (∀ e ∈ trace step self (releaseAll (T := T) xs), e.answer = .ok none) ∧
      (finalState step self (releaseAll (T := T) xs)).decisions.items =
        self.decisions.items.filter (fun e => e.1 ∉ xs) := by
  induction xs generalizing self with
  | nil => simp [releaseAll, trace]
  | cons x xs ih =>
      obtain ⟨hx, hxs⟩ := List.nodup_cons.mp hnd
      obtain ⟨hanswer, herase⟩ := step_release_of_holds (T := T) (hholds x List.mem_cons_self)
      have hrest : ∀ y ∈ xs, Holds (step self (.release (T := T) x)).2 y := by
        intro y hy
        obtain ⟨d, hd, hshed⟩ := hholds y (List.mem_cons_of_mem x hy)
        refine ⟨d, ?_, hshed⟩
        have hne : y ≠ x := fun h => hx (h ▸ hy)
        rw [herase, get?_erase_of_ne _ hne, hd]
      obtain ⟨htrace, hitems⟩ := ih _ hxs hrest
      refine ⟨?_, ?_⟩
      · intro e he
        rcases List.mem_cons.mp he with rfl | he
        · exact hanswer
        · exact htrace e he
      · change (finalState step (step self (.release x)).2 (releaseAll xs)).decisions.items = _
        rw [hitems, herase, erase, List.filter_filter]
        apply List.filter_congr
        intro e _
        simp [List.mem_cons, Bool.and_comm]

theorem filter_action_eq_nil {decisions : Table}
    (h : ∀ e ∈ decisions.items, e.2.action = .shed) {action : AdmissionAction}
    (haction : action ≠ .shed) : decisions.values.filter (fun d => d.action = action) = [] := by
  rw [List.filter_eq_nil_iff]
  intro d hd
  obtain ⟨e, he, rfl⟩ := List.mem_map.mp hd
  simpa [h e he] using haction.symm

theorem admittedTokens_eq_zero {decisions : Table}
    (h : ∀ e ∈ decisions.items, e.2.action = .shed) : admittedTokens decisions = 0 := by
  rw [admittedTokens, filter_action_eq_nil h (by decide)]
  rfl

theorem queuedCount_eq_zero {decisions : Table}
    (h : ∀ e ∈ decisions.items, e.2.action = .shed) : queuedCount decisions = 0 := by
  rw [queuedCount, filter_action_eq_nil h (by decide)]
  rfl

theorem releaseAll_drains {policy : AdmissionPolicy} {self : AdmissionController}
    (hI : InStep policy self) (xs : List String) (hperm : xs.Perm (held self)) :
    (∀ e ∈ trace step self (releaseAll (T := T) xs), e.answer = .ok none) ∧
      (finalState step self (releaseAll (T := T) xs)).liveTokens = 0 ∧
      (finalState step self (releaseAll (T := T) xs)).queuedRequests = 0 ∧
      (finalState step self (releaseAll (T := T) xs)).decisions.items =
        self.decisions.items.filter (fun e => e.2.action = .shed) := by
  have hnd : xs.Nodup := hperm.nodup_iff.mpr (held_nodup self)
  have hxs (x : String) : x ∈ xs ↔ Holds self x := hperm.mem_iff.trans mem_held_iff
  obtain ⟨htrace, hitems⟩ := releaseAll_spec (T := T) xs self hnd (fun x hx => (hxs x).mp hx)
  have hshed : (finalState step self (releaseAll (T := T) xs)).decisions.items =
      self.decisions.items.filter (fun e => e.2.action = .shed) := by
    rw [hitems]
    apply List.filter_congr
    intro e he
    have hget : self.decisions.get? e.1 = some e.2 := get?_eq_some_iff.mpr he
    simp only [hxs, Holds, hget, Option.some.injEq, exists_eq_left', ne_eq, not_not]
  have hall : ∀ e ∈ (finalState step self (releaseAll (T := T) xs)).decisions.items,
      e.2.action = .shed := by
    intro e he
    rw [hshed] at he
    simpa using (List.mem_filter.mp he).2
  have hfinal := run_inStep hI (releaseAll (T := T) xs)
  exact ⟨htrace, hfinal.live_eq.trans (admittedTokens_eq_zero hall),
    hfinal.queued_eq.trans (queuedCount_eq_zero hall), hshed⟩

/-- No run over-commits or leaks, and every state of a run can be drained. -/
theorem run_never_overcommits {policy : AdmissionPolicy} {self : AdmissionController}
    (h : AdmissionController.init policy = .ok self) (calls : List (AdmissionCall T)) :
    InStep policy (finalState step self calls) ∧
    (∀ (call : AdmissionCall T) (e : PyError),
      (step (finalState step self calls) call).1 = .error e →
        (step (finalState step self calls) call).2 = finalState step self calls) ∧
    ∀ xs : List String, xs.Perm (held (finalState step self calls)) →
      (∀ e ∈ trace step (finalState step self calls) (releaseAll (T := T) xs),
        e.answer = .ok none) ∧
      (finalState step self (calls ++ releaseAll xs)).liveTokens = 0 ∧
      (finalState step self (calls ++ releaseAll xs)).queuedRequests = 0 ∧
      (finalState step self (calls ++ releaseAll xs)).decisions.items =
        (finalState step self calls).decisions.items.filter (fun e => e.2.action = .shed) := by
  have hI := run_inStep (init_inStep h) calls
  refine ⟨hI, fun call e he => step_state_of_error _ call he, ?_⟩
  intro xs hperm
  rw [finalState_append]
  exact releaseAll_drains hI xs hperm

theorem run_never_overcommits_of_two_calls :
    let calls : List (AdmissionCall ℚ) :=
      [.decide ⟨"active", 40, 40, 10⟩ 0 0, .decide ⟨"queued", 30, 20, 10⟩ 0 1]
    let self : AdmissionController := ⟨⟨100, 1, 80⟩, 0, 0, .empty⟩
    InStep ⟨100, 1, 80⟩ (finalState step self calls) ∧
      (finalState step self (calls ++ releaseAll ["queued", "active"])).liveTokens = 0 := by
  have hinit : AdmissionController.init ⟨100, 1, 80⟩ = .ok ⟨⟨100, 1, 80⟩, 0, 0, .empty⟩ := rfl
  have h := run_never_overcommits (T := ℚ) hinit
    [.decide ⟨"active", 40, 40, 10⟩ 0 0, .decide ⟨"queued", 30, 20, 10⟩ 0 1]
  exact ⟨h.1, (h.2.2 ["queued", "active"] (by decide +kernel)).2.1⟩

end Admission
