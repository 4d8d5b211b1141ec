import InferencePlatform.AdmissionLedger

/-!
# What a recorded decision means for later calls

A decision stays in the table until a release of its identifier succeeds, and a shed decision
stays for good; meanwhile every replay returns it and changes nothing. Since rejected calls
write at most their own record, a run without them answers everyone else in the same way.

A queued request is promised tokens later. Whether it can ever get them depends on two policy
bounds that the constructor does not compare, and the last section says exactly when it can.
-/

namespace Admission

open CallRuns OrderedDict

variable {T : Type} [Add T] [Zero T] [LT T] [DecidableLT T]

/-- Some release of `x` succeeds when `calls` run from `self`. -/
def ReleasedIn (x : String) (self : AdmissionController) (calls : List (AdmissionCall T)) : Prop :=
  ∃ e ∈ trace step self calls, e.call = .release x ∧ e.answer = .ok none

section Persistence

variable {self : AdmissionController} {x : String} {d : AdmissionDecision}

theorem step_decide_records {request : AdmissionRequest T} {now est : T}
    (h : (step self (.decide request now est)).1 = .ok (some d)) :
    (step self (.decide request now est)).2.decisions.get? request.identifier = some d := by
  have ht := step_decide_transition self request now est
  rw [h] at ht
  generalize (step self (.decide request now est)).2 = self' at ht ⊢
  cases ht with
  | replayed _ _ _ hknown => exact hknown
  | shed | admitted | queued => exact get?_set_self _ _ _

theorem step_replay (h : self.decisions.get? x = some d) (request : AdmissionRequest T)
    (now est : T) (hx : request.identifier = x) :
    step self (.decide request now est) = (.ok (some d), self) := by
  subst hx
  rw [step, decide_run_of_known self request now est h]
  rfl

/-- Only a successful release of `x` drops its record. -/
theorem step_keeps_record (h : self.decisions.get? x = some d) (call : AdmissionCall T)
    (hcall : ¬ (call = .release x ∧ (step self call).1 = .ok none)) :
    (step self call).2.decisions.get? x = some d := by
  by_cases hx : x = call.identifier
  · have ht := step_transition self call
    generalize (step self call).1 = answer at ht hcall
    generalize (step self call).2 = self' at ht ⊢
    cases ht with
    | raised | replayed => exact h
    | shed _ _ _ _ hnew | admitted _ _ _ _ hnew | queued _ _ _ _ hnew =>
        rw [hx] at h
        exact absurd (hnew.symm.trans h) (by simp)
    | releasedTokens y | releasedSlot y =>
        subst hx
        exact absurd ⟨rfl, rfl⟩ hcall
  · rw [step_get?_of_ne self call hx, h]

theorem run_keeps_record (h : self.decisions.get? x = some d) (calls : List (AdmissionCall T))
    (hcalls : ¬ ReleasedIn x self calls) :
    (finalState step self calls).decisions.get? x = some d := by
  induction calls generalizing self with
  | nil => exact h
  | cons call calls ih =>
      have hcall : ¬ (call = .release x ∧ (step self call).1 = .ok none) := fun hc =>
        hcalls ⟨_, List.mem_cons_self, hc⟩
      apply ih (step_keeps_record h call hcall)
      rintro ⟨e, he, hrelease⟩
      exact hcalls ⟨e, List.mem_cons_of_mem _ he, hrelease⟩

theorem step_release_of_shed (h : self.decisions.get? x = some d) (hshed : d.action = .shed) :
    (step self (.release (T := T) x)).1 ≠ .ok none := by
  rw [step, release_run_of_known self h, hshed]
  intro hok
  cases hok

theorem not_releasedIn_of_shed (h : self.decisions.get? x = some d) (hshed : d.action = .shed)
    (calls : List (AdmissionCall T)) : ¬ ReleasedIn x self calls := by
  induction calls generalizing self with
  | nil =>
      rintro ⟨e, he, _⟩
      cases he
  | cons call calls ih =>
      have hcall : ¬ (call = .release x ∧ (step self call).1 = .ok none) := by
        rintro ⟨rfl, hok⟩
        exact step_release_of_shed h hshed hok
      rintro ⟨e, he, hrelease⟩
      rcases List.mem_cons.mp he with rfl | he
      · exact hcall hrelease
      · exact ih (step_keeps_record h call hcall) ⟨e, he, hrelease⟩

end Persistence

/-- Replays return the recorded decision and change nothing until a release succeeds, which
never happens to a shed decision. This holds from any controller, a fresh one included. -/
theorem decide_replays_until_release (self : AdmissionController)
    (before after : List (AdmissionCall T))
    (request : AdmissionRequest T) (now est : T) (d : AdmissionDecision)
    (hd : (step (finalState step self before) (.decide request now est)).1 = .ok (some d)) :
    let run := before ++ .decide request now est :: after
    let decided := (step (finalState step self before) (.decide request now est)).2
    (d.action = .shed → ¬ ReleasedIn request.identifier decided after) ∧
    (¬ ReleasedIn request.identifier decided after →
      ∀ (replay : AdmissionRequest T) (now' est' : T), replay.identifier = request.identifier →
        step (finalState step self run) (.decide replay now' est') =
          (.ok (some d), finalState step self run)) ∧
    ∀ (calls : List (AdmissionCall T)) (call : AdmissionCall T) (y : String),
      y ≠ call.identifier →
        (step (finalState step self calls) call).2.decisions.get? y =
          (finalState step self calls).decisions.get? y := by
  intro run decided
  have hrecord := step_decide_records hd
  have hrun : finalState step self run = finalState step decided after :=
    finalState_append step self before _
  refine ⟨fun hshed => not_releasedIn_of_shed hrecord hshed after, ?_, ?_⟩
  · intro hkept replay now' est' hx
    rw [hrun]
    exact step_replay (run_keeps_record hrecord after hkept) replay now' est' hx
  · intro calls call y hy
    exact step_get?_of_ne _ call hy

theorem decide_replays_until_release_shed :
    let decided := (step ⟨⟨100, 1, 80⟩, 0, 0, .empty⟩ (.decide ⟨"huge", 50, 50, (10 : ℚ)⟩ 0 0)).2
    ¬ ReleasedIn "huge" decided [.release (T := ℚ) "huge"] :=
  (decide_replays_until_release ⟨⟨100, 1, 80⟩, 0, 0, .empty⟩ [] [.release "huge"]
    ⟨"huge", 50, 50, (10 : ℚ)⟩ 0 0 ⟨.shed, 0, "request token bound exceeds policy"⟩ rfl).1 rfl

/-! ### Deleting rejected calls -/

/-- What the calls on identifiers other than `x` can observe. -/
def othersView (x : String) (self : AdmissionController) :
    AdmissionPolicy × ℤ × ℤ × (String → Option AdmissionDecision) :=
  (self.policy, self.liveTokens, self.queuedRequests,
    fun y => if y = x then none else self.decisions.get? y)

/-- The call was shed, or it raised. -/
def Rejected : Answer → Prop
  | .error _ => True
  | .ok (some d) => d.action = .shed
  | .ok none => False

instance : DecidablePred Rejected
  | .error _ => .isTrue trivial
  | .ok (some d) => inferInstanceAs (Decidable (d.action = .shed))
  | .ok none => .isFalse id

theorem othersView_eq_iff {x : String} {s t : AdmissionController} :
    othersView x s = othersView x t ↔ s.policy = t.policy ∧ s.liveTokens = t.liveTokens ∧
      s.queuedRequests = t.queuedRequests ∧
      ∀ y, y ≠ x → s.decisions.get? y = t.decisions.get? y := by
  simp only [othersView, Prod.mk.injEq, funext_iff]
  refine and_congr_right fun _ => and_congr_right fun _ => and_congr_right fun _ => ?_
  refine forall_congr' fun y => ?_
  by_cases hy : y = x
  · simp [hy]
  · simp [hy]

theorem step_view_of_rejected (x : String) (self : AdmissionController) (call : AdmissionCall T)
    (hx : call.identifier = x) (hr : Rejected (step self call).1) :
    othersView x (step self call).2 = othersView x self := by
  have ht := step_transition self call
  have hother := fun y (hy : y ≠ x) => step_get?_of_ne self call (y := y) (by rwa [hx])
  generalize (step self call).1 = answer at ht hr
  generalize (step self call).2 = self' at ht hother ⊢
  cases ht with
  | raised | replayed => rfl
  | shed => exact othersView_eq_iff.mpr ⟨rfl, rfl, rfl, hother⟩
  | admitted | queued => cases hr
  | releasedTokens | releasedSlot => exact hr.elim

theorem othersView_set {x y : String} {p : AdmissionPolicy} {n q : ℤ} {s t : Table}
    {d : AdmissionDecision} (h : ∀ z, z ≠ x → s.get? z = t.get? z) :
    othersView x ⟨p, n, q, s.set y d⟩ = othersView x ⟨p, n, q, t.set y d⟩ := by
  refine othersView_eq_iff.mpr ⟨rfl, rfl, rfl, ?_⟩
  intro z hz
  simp only [get?_set, h z hz]

theorem othersView_erase {x y : String} {p : AdmissionPolicy} {n q : ℤ} {s t : Table}
    (h : ∀ z, z ≠ x → s.get? z = t.get? z) :
    othersView x ⟨p, n, q, s.erase y⟩ = othersView x ⟨p, n, q, t.erase y⟩ := by
  refine othersView_eq_iff.mpr ⟨rfl, rfl, rfl, ?_⟩
  intro z hz
  simp only [get?_erase, h z hz]

theorem ite_congr_rel {α : Type*} (R : α → α → Prop) (p : Prop) [Decidable p] {a b a' b' : α}
    (hthen : R a a') (helse : R b b') : R (if p then a else b) (if p then a' else b') := by
  split_ifs
  · exact hthen
  · exact helse

/-- One outcome for everyone but `x`. -/
def SameFor (x : String) {α : Type} (a b : α × AdmissionController) : Prop :=
  a.1 = b.1 ∧ othersView x a.2 = othersView x b.2

section SameFor

variable {x : String} {p : AdmissionPolicy} {n q : ℤ} {s t : Table}

theorem decide_sameFor (h : ∀ z, z ≠ x → s.get? z = t.get? z) (request : AdmissionRequest T)
    (now est : T) (hx : request.identifier ≠ x) :
    SameFor x ((decide request now est).run ⟨p, n, q, s⟩)
      ((decide request now est).run ⟨p, n, q, t⟩) := by
  have hview : othersView x ⟨p, n, q, s⟩ = othersView x ⟨p, n, q, t⟩ :=
    othersView_eq_iff.mpr ⟨rfl, rfl, rfl, h⟩
  cases hs : s.get? request.identifier with
  | some d =>
      rw [decide_run_of_known ⟨p, n, q, s⟩ request now est hs,
        decide_run_of_known ⟨p, n, q, t⟩ request now est ((h _ hx).symm.trans hs)]
      exact ⟨rfl, hview⟩
  | none =>
      rw [decide_run_of_new ⟨p, n, q, s⟩ request now est hs,
        decide_run_of_new ⟨p, n, q, t⟩ request now est ((h _ hx).symm.trans hs)]
      dsimp only
      iterate 4 refine ite_congr_rel (SameFor x) _ ⟨rfl, hview⟩ ?_
      iterate 4 refine ite_congr_rel (SameFor x) _ ⟨rfl, othersView_set h⟩ ?_
      exact ⟨rfl, othersView_set h⟩

theorem release_sameFor (h : ∀ z, z ≠ x → s.get? z = t.get? z) {y : String} (hx : y ≠ x) :
    SameFor x ((release y).run ⟨p, n, q, s⟩) ((release y).run ⟨p, n, q, t⟩) := by
  have hview : othersView x ⟨p, n, q, s⟩ = othersView x ⟨p, n, q, t⟩ :=
    othersView_eq_iff.mpr ⟨rfl, rfl, rfl, h⟩
  cases hs : s.get? y with
  | none =>
      rw [release_run_of_unknown ⟨p, n, q, s⟩ hs,
        release_run_of_unknown ⟨p, n, q, t⟩ ((h _ hx).symm.trans hs)]
      exact ⟨rfl, hview⟩
  | some d =>
      rw [release_run_of_known ⟨p, n, q, s⟩ hs,
        release_run_of_known ⟨p, n, q, t⟩ ((h _ hx).symm.trans hs)]
      cases d.action with
      | shed => exact ⟨rfl, hview⟩
      | admitted | queue => exact ⟨rfl, othersView_erase h⟩

end SameFor

/-- A call on another identifier sees no more of a controller than its `othersView`. -/
theorem step_congr_view (x : String) (s t : AdmissionController) (call : AdmissionCall T)
    (hx : call.identifier ≠ x) (hview : othersView x s = othersView x t) :
    (step s call).1 = (step t call).1 ∧
      othersView x (step s call).2 = othersView x (step t call).2 := by
  obtain ⟨p, n, q, sd⟩ := s
  obtain ⟨p', n', q', td⟩ := t
  obtain ⟨hp, hn, hq, hd⟩ := othersView_eq_iff.mp hview
  dsimp only at hp hn hq hd
  subst hp hn hq
  cases call with
  | decide request now est =>
      obtain ⟨hanswer, hstate⟩ := decide_sameFor (p := p) (n := n) (q := q) hd request now est hx
      exact ⟨congrArg (Except.map some) hanswer, hstate⟩
  | release y =>
      obtain ⟨hanswer, hstate⟩ := release_sameFor (p := p) (n := n) (q := q) hd (y := y) hx
      exact ⟨congrArg (Except.map fun _ => none) hanswer, hstate⟩

/-- Deleting the calls on an identifier that is never admitted or queued changes no answer, no
counter value and no record that anyone else sees, whatever controller the run starts from. -/
theorem rejected_calls_deletable (self : AdmissionController) (calls : List (AdmissionCall T))
    (x : String)
    (hx : ∀ e ∈ trace step self calls, e.call.identifier = x → Rejected e.answer) :
    ((trace step self calls).filter (fun e => ¬ e.call.identifier = x)).map
        (fun e => (e.call, e.answer, othersView x e.state)) =
      (trace step self (calls.filter (fun call => ¬ call.identifier = x))).map
        (fun e => (e.call, e.answer, othersView x e.state)) ∧
    othersView x (finalState step self calls) =
      othersView x (finalState step self (calls.filter (fun call => ¬ call.identifier = x))) :=
  trace_filter_hidden step (othersView x) (fun call => call.identifier = x) Rejected
    (fun s call hcall hr => step_view_of_rejected x s call hcall hr)
    (fun s t call hcall hview => step_congr_view x s t call hcall hview) calls self self rfl hx

theorem rejected_calls_deletable_huge :
    let self : AdmissionController := ⟨⟨100, 1, 80⟩, 0, 0, .empty⟩
    let calls : List (AdmissionCall ℚ) :=
      [.decide ⟨"huge", 50, 50, 10⟩ 0 0, .decide ⟨"normal", 20, 30, 10⟩ 0 1, .release "huge"]
    othersView "huge" (finalState step self calls) =
      othersView "huge" (finalState step self
        (calls.filter (fun call => ¬ call.identifier = "huge"))) :=
  (rejected_calls_deletable ⟨⟨100, 1, 80⟩, 0, 0, .empty⟩
    [.decide ⟨"huge", 50, 50, (10 : ℚ)⟩ 0 0, .decide ⟨"normal", 20, 30, 10⟩ 0 1, .release "huge"]
    "huge" (by
      intro e he hx
      simp only [trace, List.mem_cons, List.not_mem_nil, or_false] at he
      rcases he with rfl | rfl | rfl
      · decide +kernel
      · exact absurd hx (by decide +kernel)
      · decide +kernel)).2

/-! ### Queued work -/

/-- Whatever `decide` queues fits the live-token budget of an empty controller. -/
def QueuedFits (T : Type) [Add T] [Zero T] [LT T] [DecidableLT T] (policy : AdmissionPolicy)
    (self : AdmissionController) : Prop :=
  ∀ (calls : List (AdmissionCall T)) (request : AdmissionRequest T) (now est : T)
    (d : AdmissionDecision),
    (finalState step self calls).decisions.get? request.identifier = none →
    (step (finalState step self calls) (.decide request now est)).1 = .ok (some d) →
    d.action = .queue → request.maximumLiveTokens ≤ policy.maxLiveTokens

/-- A fresh request over the live budget but inside the per-request bound takes a queue slot. -/
theorem step_queues_oversized {policy : AdmissionPolicy} (request : AdmissionRequest T)
    (now est : T) (hid : PythonBuiltins.isBlank request.identifier = false)
    (hprompt : 0 ≤ request.promptTokens) (houtput : 0 ≤ request.maxOutputTokens)
    (hest : ¬ est < 0) (hdeadline : ¬ request.deadlineAt < now + est)
    (htokens : 0 < request.maximumLiveTokens)
    (hbound : request.maximumLiveTokens ≤ policy.maxTokensPerRequest)
    (hover : policy.maxLiveTokens < request.maximumLiveTokens)
    (hslot : 0 < policy.maxQueuedRequests) :
    (step ⟨policy, 0, 0, .empty⟩ (.decide request now est)).1 =
      .ok (some ⟨.queue, 0, "live-token budget full; bounded queue slot reserved"⟩) := by
  have hneg : ¬ PythonBuiltins.pyMin request.promptTokens [request.maxOutputTokens] < 0 := by
    rw [PythonBuiltins.pyMin_lt_iff]
    simp only [List.mem_singleton, exists_eq_left]
    omega
  rw [step, decide_run_of_new _ request now est rfl]
  dsimp only
  rw [if_neg (by simp [hid]), if_neg hneg, if_neg (by omega), if_neg hest, if_neg (by omega),
    if_neg hdeadline, if_neg (by omega), if_pos hslot]
  rfl

theorem step_queued_bounds {self : AdmissionController} {request : AdmissionRequest T}
    {now est : T} {d : AdmissionDecision}
    (hnew : self.decisions.get? request.identifier = none)
    (h : (step self (.decide request now est)).1 = .ok (some d)) (hd : d.action = .queue) :
    request.maximumLiveTokens ≤ self.policy.maxTokensPerRequest ∧
      self.queuedRequests < self.policy.maxQueuedRequests := by
  have ht := step_decide_transition self request now est
  rw [h] at ht
  generalize (step self (.decide request now est)).2 = self' at ht
  cases ht with
  | replayed _ _ _ hknown => exact absurd (hnew.symm.trans hknown) (by simp)
  | shed | admitted => cases hd
  | queued _ _ _ _ _ hbound hslot => exact ⟨hbound, hslot⟩

/-- Queued work always fits exactly when the policy has no queue slots, or bounds a single
request by the live budget. The clock only has to let some request meet its deadline. -/
theorem queuedFits_iff {policy : AdmissionPolicy} {self : AdmissionController}
    (h : AdmissionController.init policy = .ok self)
    (hclock : ∃ now est deadlineAt : T, ¬ est < 0 ∧ ¬ deadlineAt < now + est) :
    QueuedFits T policy self ↔
      policy.maxQueuedRequests = 0 ∨ policy.maxTokensPerRequest ≤ policy.maxLiveTokens := by
  have hI := init_inStep h
  constructor
  · intro hfits
    by_contra! hpolicy
    obtain ⟨hslots, hover⟩ := hpolicy
    obtain ⟨now, est, deadlineAt, hest, hdeadline⟩ := hclock
    obtain ⟨-, rfl⟩ := AdmissionController.init_eq_ok_iff.mp h
    have hslot : 0 ≤ policy.maxQueuedRequests := hI.queued_nonneg.trans hI.queued_le
    have hbudget : 0 ≤ policy.maxLiveTokens := hI.live_nonneg.trans hI.live_le
    have hq := @step_queues_oversized T _ _ _ _ policy
      ⟨"r", policy.maxTokensPerRequest, 0, deadlineAt⟩ now est
      (show PythonBuiltins.isBlank "r" = false by decide +kernel)
      (by dsimp only; omega) le_rfl hest hdeadline
      (by simp only [AdmissionRequest.maximumLiveTokens]; omega)
      (by simp only [AdmissionRequest.maximumLiveTokens]; omega)
      (by simp only [AdmissionRequest.maximumLiveTokens]; omega) (by omega)
    have hle := hfits [] _ now est _ rfl hq rfl
    simp only [AdmissionRequest.maximumLiveTokens] at hle
    omega
  · rintro hpolicy calls request now est d hnew hstep hd
    have hrun := run_inStep hI calls
    obtain ⟨hbound, hslot⟩ := step_queued_bounds hnew hstep hd
    have hqueued := hrun.queued_nonneg
    rw [hrun.policy_eq] at hbound hslot
    rcases hpolicy with hnone | hle
    · omega
    · exact hbound.trans hle

theorem queuedFits_iff_small :
    QueuedFits ℚ ⟨100, 1, 80⟩ ⟨⟨100, 1, 80⟩, 0, 0, .empty⟩ ↔ (1 : ℤ) = 0 ∨ (80 : ℤ) ≤ 100 :=
  queuedFits_iff rfl ⟨0, 0, 0, by decide +kernel, by decide +kernel⟩

/-- A policy that accepts requests of up to 200 tokens on a budget of 100 queues one of 150,
which can never be admitted. -/
theorem queuedFits_fails :
    AdmissionController.init ⟨100, 1, 200⟩ = .ok ⟨⟨100, 1, 200⟩, 0, 0, .empty⟩ ∧
      ¬ QueuedFits ℚ ⟨100, 1, 200⟩ ⟨⟨100, 1, 200⟩, 0, 0, .empty⟩ := by
  refine ⟨rfl, fun hfits => ?_⟩
  have hle := hfits [] ⟨"big", 100, 50, 10⟩ 0 0
    ⟨.queue, 0, "live-token budget full; bounded queue slot reserved"⟩ rfl (by decide +kernel) rfl
  exact absurd hle (by decide +kernel)

end Admission
