import InferencePlatform.AdmissionBursts

/-!
# Clients that share a controller

Each identifier stands for a client. As long as the largest reservations the clients may ever ask
for fit the live-token budget together, none of them can tell that the controller is shared:
whatever the interleaving, a client sees the answers of `clientStep`, which keeps one record and
judges a new request by the request and the policy alone.
-/

namespace Admission

open CallRuns OrderedDict PythonBuiltins

variable {T : Type} [Add T] [Zero T] [LT T] [DecidableLT T]

/-- The branches of `decide` that are left when there is room for the request. -/
def verdict (policy : AdmissionPolicy) (request : AdmissionRequest T) (now est : T) :
    Except PyError AdmissionDecision :=
  if isBlank request.identifier then
    throw (.valueError "request identifier is required")
  else if pyMin request.promptTokens [request.maxOutputTokens] < 0 then
    throw (.valueError "token counts may not be negative")
  else if request.maximumLiveTokens ≤ 0 then
    throw (.valueError "request must reserve at least one live token")
  else if est < 0 then
    throw (.valueError "queue estimate may not be negative")
  else if policy.maxTokensPerRequest < request.maximumLiveTokens then
    pure ⟨.shed, 0, "request token bound exceeds policy"⟩
  else if request.deadlineAt < now + est then
    pure ⟨.shed, 0, "predicted queue wait misses request deadline"⟩
  else
    pure (admission request.maximumLiveTokens)

/-- The controller as one client sees it: the state is the client's own record. -/
def clientStep (policy : AdmissionPolicy) :
    Option AdmissionDecision → AdmissionCall T → Answer × Option AdmissionDecision
  | some d, .decide _ _ _ => (.ok (some d), some d)
  | none, .decide request now est =>
    match verdict policy request now est with
    | .error e => (.error e, none)
    | .ok d => (.ok (some d), some d)
  | none, .release x => (.error (.keyError x), none)
  | some d, .release x =>
    if d.action = .shed then
      (.error (.valueErrorQuoting "request " x " was shed; a shed decision is permanent"), some d)
    else (.ok none, none)

/-! ### Verdicts -/

section Verdicts

variable {policy : AdmissionPolicy} {self : AdmissionController} {request : AdmissionRequest T}
  {now est : T} {d : AdmissionDecision}

theorem verdict_cases (h : verdict policy request now est = .ok d) :
    (d.action = .shed ∧ d ≠ refusal) ∨
      (d = admission request.maximumLiveTokens ∧
        request.maximumLiveTokens ≤ policy.maxTokensPerRequest) := by
  unfold verdict at h
  simp only [Except.ite_throw_eq_ok_iff] at h
  obtain ⟨-, -, -, -, h⟩ := h
  split_ifs at h with hbound hdeadline
  · obtain rfl := Except.ok.inj h
    exact .inl ⟨rfl, by decide⟩
  · obtain rfl := Except.ok.inj h
    exact .inl ⟨rfl, by decide⟩
  · exact .inr ⟨(Except.ok.inj h).symm, not_lt.mp hbound⟩

/-- With room for the request, the counters play no part in the answer. -/
theorem step_of_room (hnew : self.decisions.get? request.identifier = none)
    (hroom : request.maximumLiveTokens ≤ self.policy.maxTokensPerRequest →
      self.liveTokens + request.maximumLiveTokens ≤ self.policy.maxLiveTokens) :
    step self (.decide request now est) =
      match verdict self.policy request now est with
      | .error e => (.error e, self)
      | .ok d => (.ok (some d),
          { self with
            liveTokens := self.liveTokens + liveWeight d
            decisions := self.decisions.set request.identifier d }) := by
  rw [step, decide_run_of_new self request now est hnew, verdict]
  dsimp only
  by_cases hid : isBlank request.identifier
  · rw [if_pos hid, if_pos hid]
    rfl
  rw [if_neg hid, if_neg hid]
  by_cases hneg : pyMin request.promptTokens [request.maxOutputTokens] < 0
  · rw [if_pos hneg, if_pos hneg]
    rfl
  rw [if_neg hneg, if_neg hneg]
  by_cases hzero : request.maximumLiveTokens ≤ 0
  · rw [if_pos hzero, if_pos hzero]
    rfl
  rw [if_neg hzero, if_neg hzero]
  by_cases hest : est < 0
  · rw [if_pos hest, if_pos hest]
    rfl
  rw [if_neg hest, if_neg hest]
  have hshed (reason : String) : self.liveTokens + liveWeight ⟨.shed, 0, reason⟩ =
      self.liveTokens := add_zero _
  by_cases hbound : self.policy.maxTokensPerRequest < request.maximumLiveTokens
  · rw [if_pos hbound, if_pos hbound]
    simp only [pure, Except.pure, hshed]
    rfl
  rw [if_neg hbound, if_neg hbound]
  by_cases hdeadline : request.deadlineAt < now + est
  · rw [if_pos hdeadline, if_pos hdeadline]
    simp only [pure, Except.pure, hshed]
    rfl
  rw [if_neg hdeadline, if_neg hdeadline, if_pos (hroom (not_lt.mp hbound))]
  rfl

end Verdicts

/-! ### Room for everyone -/

def AdmissionCall.Within (policy : AdmissionPolicy) (demand : String → ℤ) :
    AdmissionCall T → Prop
  | .decide request _ _ => request.maximumLiveTokens ≤ policy.maxTokensPerRequest →
      request.maximumLiveTokens ≤ demand request.identifier
  | .release _ => True

/-- Every client has a bound on what it asks for, and the bounds together fit the budget. Requests
that exceed the bound of the policy are refused anyway and need no room. -/
structure Room (policy : AdmissionPolicy) (demand : String → ℤ)
    (calls : List (AdmissionCall T)) : Prop where
  nonneg : ∀ x, 0 ≤ demand x
  within : ∀ call ∈ calls, call.Within policy demand
  fits : ((calls.map AdmissionCall.identifier).dedup.map demand).sum ≤ policy.maxLiveTokens

/-- No record reserves more than its client's bound. -/
structure Uncontended (policy : AdmissionPolicy) (demand : String → ℤ) (clients : List String)
    (c : AdmissionController) : Prop where
  inStep : InStep policy c
  within : ∀ x d, c.decisions.get? x = some d → x ∈ clients ∧ liveWeight d ≤ demand x

section Steps

variable {policy : AdmissionPolicy} {demand : String → ℤ} {clients : List String}
  {self : AdmissionController}

omit [Add T] [Zero T] [LT T] [DecidableLT T] in
theorem Uncontended.room (h : Uncontended policy demand clients self)
    (hnonneg : ∀ x, 0 ≤ demand x) (hfits : (clients.map demand).sum ≤ policy.maxLiveTokens)
    {x : String} (hx : x ∈ clients) (hnew : self.decisions.get? x = none) :
    self.liveTokens + demand x ≤ policy.maxLiveTokens := by
  have hle := add_total_le hx (get?_eq_none_iff.mp hnew) h.within hnonneg
  rw [← admittedTokens_eq_total, ← h.inStep.live_eq] at hle
  omega

theorem Uncontended.step_decide (h : Uncontended policy demand clients self)
    (hnonneg : ∀ x, 0 ≤ demand x) (hfits : (clients.map demand).sum ≤ policy.maxLiveTokens)
    {request : AdmissionRequest T} {now est : T} (hx : request.identifier ∈ clients)
    (hwithin : (AdmissionCall.decide request now est).Within policy demand)
    (hnew : self.decisions.get? request.identifier = none) :
    step self (.decide request now est) =
      match verdict policy request now est with
      | .error e => (.error e, self)
      | .ok d => (.ok (some d),
          { self with
            liveTokens := self.liveTokens + liveWeight d
            decisions := self.decisions.set request.identifier d }) := by
  have hroom := h.room hnonneg hfits hx hnew
  obtain rfl := h.inStep.policy_eq
  exact step_of_room hnew fun hbound => by
    have hle := hwithin hbound
    omega

/-- The invariant step: a new record stays within its client's bound, the others are untouched. -/
theorem step_uncontended (h : Uncontended policy demand clients self)
    (hnonneg : ∀ x, 0 ≤ demand x) (hfits : (clients.map demand).sum ≤ policy.maxLiveTokens)
    {call : AdmissionCall T} (hx : call.identifier ∈ clients)
    (hwithin : call.Within policy demand) :
    Uncontended policy demand clients (step self call).2 := by
  refine ⟨transition_inStep (step_transition self call) h.inStep, fun y e hy => ?_⟩
  by_cases hne : y = call.identifier
  · subst hne
    refine ⟨hx, ?_⟩
    cases call with
    | release x =>
        have ht := step_release_transition (T := T) self x
        generalize (step self (.release (T := T) x)).1 = answer at ht
        generalize (step self (.release (T := T) x)).2 = self' at ht hy
        cases ht with
        | raised => exact (h.within _ _ hy).2
        | releasedTokens | releasedSlot =>
            rw [AdmissionCall.identifier, get?_erase, if_pos rfl] at hy
            cases hy
    | decide request now est =>
        cases hrec : self.decisions.get? request.identifier with
        | some d =>
            rw [step_replay hrec request now est rfl] at hy
            exact (h.within _ _ hy).2
        | none =>
            rw [h.step_decide hnonneg hfits hx hwithin hrec] at hy
            cases hv : verdict policy request now est with
            | error err =>
                rw [hv] at hy
                exact absurd (hrec.symm.trans hy) (by simp)
            | ok d =>
                rw [hv] at hy
                obtain rfl : d = e := Option.some.inj ((get?_set_self _ _ _).symm.trans hy)
                rcases verdict_cases hv with ⟨hshed, -⟩ | ⟨rfl, hbound⟩
                · rw [liveWeight, if_neg (by simp [hshed])]
                  exact hnonneg _
                · exact hwithin hbound
  · rw [step_get?_of_ne self call hne] at hy
    exact h.within y e hy

/-- While there is room, the calls of a client act on its record as `clientStep` does. -/
theorem step_client (h : Uncontended policy demand clients self)
    (hnonneg : ∀ x, 0 ≤ demand x) (hfits : (clients.map demand).sum ≤ policy.maxLiveTokens)
    {call : AdmissionCall T} (hx : call.identifier ∈ clients)
    (hwithin : call.Within policy demand) :
    ((step self call).1,
        (step self call).2.decisions.get? call.identifier) =
      clientStep policy (self.decisions.get? call.identifier) call := by
  cases call with
  | decide request now est =>
      simp only [AdmissionCall.identifier]
      cases hrec : self.decisions.get? request.identifier with
      | some d =>
          rw [step_replay hrec request now est rfl, clientStep, hrec]
      | none =>
          rw [h.step_decide hnonneg hfits hx hwithin hrec, clientStep]
          cases verdict policy request now est with
          | error e => simp only [hrec]
          | ok d => simp only [get?_set_self]
  | release x =>
      simp only [AdmissionCall.identifier]
      cases hrec : self.decisions.get? x with
      | none =>
          rw [step, release_run_of_unknown self hrec, clientStep]
          exact Prod.ext rfl hrec
      | some d =>
          rw [step, release_run_of_known self hrec, clientStep]
          cases haction : d.action with
          | shed =>
              rw [if_pos rfl]
              exact Prod.ext rfl hrec
          | admitted | queue =>
              rw [if_neg (by decide)]
              refine Prod.ext rfl ?_
              exact (get?_erase _ _ _).trans (if_pos rfl)

end Steps

/-! ### Whole runs -/

section Shared

variable {policy : AdmissionPolicy} {demand : String → ℤ} {self : AdmissionController}
  {calls calls' : List (AdmissionCall T)}

omit [Add T] [Zero T] [LT T] [DecidableLT T] in
/-- Having room is a matter of what each client asks for, not of when. -/
theorem Room.of_interleaving (h : Room policy demand calls)
    (hsame : ∀ x, calls'.filter (fun c => c.identifier = x) =
      calls.filter (fun c => c.identifier = x)) : Room policy demand calls' := by
  have hmem (call : AdmissionCall T) : call ∈ calls' ↔ call ∈ calls := by
    have hiff := Iff.of_eq (congrArg (call ∈ ·) (hsame call.identifier))
    simpa using hiff
  refine ⟨h.nonneg, fun call hcall => h.within call ((hmem call).mp hcall), ?_⟩
  have hclients : (calls'.map AdmissionCall.identifier).dedup.Perm
      (calls.map AdmissionCall.identifier).dedup := by
    rw [List.perm_ext_iff_of_nodup (List.nodup_dedup _) (List.nodup_dedup _)]
    intro x
    simp only [List.mem_dedup, List.mem_map, hmem]
  rw [(hclients.map demand).sum_eq]
  exact h.fits

/-- The calls of client `x` with their answers and what they leave on record for it. -/
def clientView (self : AdmissionController) (calls : List (AdmissionCall T)) (x : String) :
    List (AdmissionCall T × Answer × Option AdmissionDecision) :=
  ((trace step self calls).filter (fun e => e.call.identifier = x)).map
    fun e => (e.call, e.answer, e.state.decisions.get? x)

def clientRun (policy : AdmissionPolicy) (calls : List (AdmissionCall T)) :
    List (AdmissionCall T × Answer × Option AdmissionDecision) :=
  (trace (clientStep policy) none calls).map fun e => (e.call, e.answer, e.state)

theorem run_client (h : AdmissionController.init policy = .ok self)
    (hroom : Room policy demand calls) (x : String) :
    clientView self calls x = clientRun policy (calls.filter (fun c => c.identifier = x)) ∧
    (finalState step self calls).decisions.get? x =
      finalState (clientStep policy) none (calls.filter (fun c => c.identifier = x)) := by
  have hempty : self.decisions = .empty := by
    obtain ⟨-, rfl⟩ := AdmissionController.init_eq_ok_iff.mp h
    rfl
  have hstart : self.decisions.get? x = none := by rw [hempty, get?_empty]
  have hrun := trace_filter_own step (fun c => c.decisions.get? x)
    (fun call : AdmissionCall T => call.identifier = x) (clientStep policy)
    (I := Uncontended policy demand (calls.map AdmissionCall.identifier).dedup)
    (Q := fun call => call.identifier ∈ (calls.map AdmissionCall.identifier).dedup ∧
      call.Within policy demand)
    (fun s call hs hcall => step_uncontended hs hroom.nonneg hroom.fits hcall.1 hcall.2)
    (fun s call hne => step_get?_of_ne s call (Ne.symm hne))
    (fun s call hx hs hcall => by
      subst hx
      exact step_client hs hroom.nonneg hroom.fits hcall.1 hcall.2)
    calls
    (fun call hcall => ⟨List.mem_dedup.mpr (List.mem_map_of_mem hcall), hroom.within call hcall⟩)
    self ⟨init_inStep h, fun y d hy => by rw [hempty, get?_empty] at hy; cases hy⟩
  simp only [hstart] at hrun
  exact hrun

/-- A client is never told that it has to wait, or that there is no room. -/
theorem clientRun_answer (policy : AdmissionPolicy) (calls : List (AdmissionCall T)) :
    ∀ v ∈ clientRun policy calls, ∀ d, v.2.1 = .ok (some d) → d.action ≠ .queue ∧ d ≠ refusal := by
  intro v hv
  obtain ⟨e, he, rfl⟩ := List.mem_map.mp hv
  refine forall_mem_trace (clientStep policy)
    (I := fun record => ∀ d, record = some d → d.action ≠ .queue ∧ d ≠ refusal)
    (Q := fun _ _ => True)
    (P := fun e => ∀ d, e.answer = .ok (some d) → d.action ≠ .queue ∧ d ≠ refusal)
    ?_ none (fun d hd => by cases hd) calls (fun _ _ _ _ => trivial) e he
  intro record call hrecord _
  cases record with
  | some d =>
      cases call with
      | decide request now est =>
          exact ⟨hrecord, fun d' hd' => hrecord d' (Except.ok.inj hd')⟩
      | release x =>
          by_cases hshed : d.action = .shed
          · simp only [clientStep, if_pos hshed]
            exact ⟨hrecord, fun d' hd' => by cases hd'⟩
          · simp only [clientStep, if_neg hshed]
            exact ⟨fun d' hd' => by simp at hd', fun d' hd' => by simp at hd'⟩
  | none =>
      cases call with
      | release x => exact ⟨hrecord, fun d' hd' => by cases hd'⟩
      | decide request now est =>
          simp only [clientStep]
          cases hv : verdict policy request now est with
          | error e => exact ⟨hrecord, fun d' hd' => by cases hd'⟩
          | ok d =>
              have hd : d.action ≠ .queue ∧ d ≠ refusal := by
                rcases verdict_cases hv with ⟨hshed, hne⟩ | ⟨rfl, -⟩
                · exact ⟨by simp [hshed], hne⟩
                · exact ⟨by simp [admission], by simp [admission, refusal]⟩
              refine ⟨fun d' hd' => ?_, fun d' hd' => ?_⟩
              · rwa [← Option.some.inj hd']
              · rwa [← Option.some.inj (Except.ok.inj hd')]

/-- Clients whose demands fit the budget together are independent: each of them is answered as by
a controller of its own that never runs out of room, nobody is queued or refused for lack of it,
and every other interleaving of the same clients gives the same answers and leaves the same
records. -/
theorem clients_independent (h : AdmissionController.init policy = .ok self)
    (hroom : Room policy demand calls) :
    (∀ x, clientView self calls x =
      clientRun policy (calls.filter (fun c => c.identifier = x))) ∧
    (∀ e ∈ trace step self calls, ∀ d, e.answer = .ok (some d) →
      d.action ≠ .queue ∧ d ≠ refusal) ∧
    ∀ calls', (∀ x, calls'.filter (fun c => c.identifier = x) =
        calls.filter (fun c => c.identifier = x)) →
      (∀ x, clientView self calls' x = clientView self calls x) ∧
      SameRecords (finalState step self calls') (finalState step self calls) := by
  have hclient := run_client h hroom
  refine ⟨fun x => (hclient x).1, fun e he => ?_, fun calls' hsame => ?_⟩
  · have hmem : (e.call, e.answer, e.state.decisions.get? e.call.identifier) ∈
        clientView self calls e.call.identifier :=
      List.mem_map_of_mem (f := fun e' : Entry _ _ _ =>
        (e'.call, e'.answer, e'.state.decisions.get? e.call.identifier))
        (List.mem_filter.mpr ⟨he, by simp⟩)
    rw [(hclient _).1] at hmem
    exact clientRun_answer policy _ _ hmem
  · have hclient' := run_client h (hroom.of_interleaving hsame)
    refine ⟨fun x => ?_, ?_⟩
    · rw [(hclient' x).1, (hclient x).1, hsame]
    · apply SameRecords.of_inStep (run_inStep (init_inStep h) _) (run_inStep (init_inStep h) _)
      intro x
      rw [(hclient' x).2, (hclient x).2, hsame]

/-- A chat of 60 tokens, retried and restarted, and a batch of 30 beside it. -/
theorem clients_independent_sample :
    let self : AdmissionController := ⟨⟨100, 1, 80⟩, 0, 0, .empty⟩
    let chat : AdmissionCall ℚ := .decide ⟨"chat", 40, 20, 10⟩ 0 1
    let batch : AdmissionCall ℚ := .decide ⟨"batch", 10, 20, 10⟩ 0 1
    SameRecords (finalState step self [batch, chat, .release "chat", chat])
      (finalState step self [chat, .release "chat", batch, chat]) := by
  intro self chat batch
  have hroom : Room ⟨100, 1, 80⟩ (fun x => if x = "chat" then 60 else 30)
      [chat, .release "chat", batch, chat] := by
    refine ⟨fun x => ?_, ?_, by decide +kernel⟩
    · split_ifs <;> decide
    · simp [chat, batch, AdmissionCall.Within, AdmissionRequest.maximumLiveTokens]
  refine ((clients_independent (show AdmissionController.init ⟨100, 1, 80⟩ = .ok self from rfl)
    hroom).2.2 _ fun x => ?_).2
  by_cases hchat : "chat" = x
  · subst hchat
    simp [chat, batch, AdmissionCall.identifier]
  · by_cases hbatch : "batch" = x
    · simp [chat, batch, AdmissionCall.identifier, hchat, hbatch]
    · simp [chat, batch, AdmissionCall.identifier, hchat, hbatch]

end Shared

end Admission
