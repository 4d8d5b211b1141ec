import InferencePlatform.CallRuns
import InferencePlatform.OrderedDict
import InferencePlatform.PythonBuiltins

/-!
# The admission controller

A controller holds a policy, two counters and the decision made for every known request
identifier. `decide` and `release` are its two calls; `step` answers either of them and runs of
a controller are runs of `step`. Clock readings, deadlines and queue estimates enter only
through one addition and two strict comparisons, so they are taken from any type that has
these, floats with all their rounding and undefined values included.
-/

namespace Admission

open PythonBuiltins

/-- `ADMIT`, `QUEUE` and `SHED`; the word `admit` is a keyword of Lean. -/
inductive AdmissionAction
  | admitted
  | queue
  | shed
  deriving DecidableEq, Repr

structure AdmissionRequest (T : Type) where
  identifier : String
  promptTokens : ℤ
  maxOutputTokens : ℤ
  deadlineAt : T

def AdmissionRequest.maximumLiveTokens {T : Type} (request : AdmissionRequest T) : ℤ :=
  request.promptTokens + request.maxOutputTokens

structure AdmissionPolicy where
  maxLiveTokens : ℤ
  maxQueuedRequests : ℤ
  maxTokensPerRequest : ℤ
  deriving DecidableEq, Repr

structure AdmissionDecision where
  action : AdmissionAction
  reservedTokens : ℤ
  reason : String
  deriving DecidableEq, Repr

structure AdmissionController where
  policy : AdmissionPolicy
  liveTokens : ℤ
  queuedRequests : ℤ
  decisions : OrderedDict String AdmissionDecision

def AdmissionController.init (policy : AdmissionPolicy) : Except PyError AdmissionController :=
  if pyMin policy.maxLiveTokens [policy.maxTokensPerRequest] ≤ 0 ∨ policy.maxQueuedRequests < 0 then
    throw (.valueError "admission capacities must be positive or zero where bounded")
  else
    pure ⟨policy, 0, 0, .empty⟩

/-- What the constructor accepts, and the fresh controller it returns. -/
theorem AdmissionController.init_eq_ok_iff {policy : AdmissionPolicy}
    {self : AdmissionController} : AdmissionController.init policy = .ok self ↔
      ((0 < policy.maxLiveTokens ∧ 0 < policy.maxTokensPerRequest) ∧
        0 ≤ policy.maxQueuedRequests) ∧ ⟨policy, 0, 0, .empty⟩ = self := by
  unfold AdmissionController.init
  rw [Except.ite_throw_eq_ok_iff, pyMin_le_iff]
  simp only [List.mem_singleton, exists_eq_left, not_or, not_le, not_lt]
  exact and_congr_right fun _ => ⟨Except.ok.inj, congrArg Except.ok⟩

variable {T : Type} [Add T] [Zero T] [LT T] [DecidableLT T]

def decide (request : AdmissionRequest T) (now estimatedQueueSeconds : T) :
    Call AdmissionController AdmissionDecision := do
  let self ← get
  if let some decision := self.decisions.get? request.identifier then
    return decision
  else if isBlank request.identifier then
    throw (.valueError "request identifier is required")
  else if pyMin request.promptTokens [request.maxOutputTokens] < 0 then
    throw (.valueError "token counts may not be negative")
  else if request.maximumLiveTokens ≤ 0 then
    throw (.valueError "request must reserve at least one live token")
  else if estimatedQueueSeconds < 0 then
    throw (.valueError "queue estimate may not be negative")
  else
    let decision ←
      if self.policy.maxTokensPerRequest < request.maximumLiveTokens then
        pure ⟨.shed, 0, "request token bound exceeds policy"⟩
      else if request.deadlineAt < now + estimatedQueueSeconds then
        pure ⟨.shed, 0, "predicted queue wait misses request deadline"⟩
      else if self.liveTokens + request.maximumLiveTokens ≤ self.policy.maxLiveTokens then do
        modify fun self => { self with liveTokens := self.liveTokens + request.maximumLiveTokens }
        pure ⟨.admitted, request.maximumLiveTokens, "worst-case live-token reservation fits"⟩
      else if self.queuedRequests < self.policy.maxQueuedRequests then do
        modify fun self => { self with queuedRequests := self.queuedRequests + 1 }
        pure ⟨.queue, 0, "live-token budget full; bounded queue slot reserved"⟩
      else
        pure ⟨.shed, 0, "live-token budget and bounded queue are full"⟩
    modify fun self => { self with decisions := self.decisions.set request.identifier decision }
    return decision

def release (requestIdentifier : String) : Call AdmissionController Unit := do
  let self ← get
  match self.decisions.get? requestIdentifier with
  | none => throw (.keyError requestIdentifier)
  | some decision =>
    if decision.action = .shed then
      throw (.valueErrorQuoting "request " requestIdentifier
        " was shed; a shed decision is permanent")
    modify fun self => { self with decisions := self.decisions.erase requestIdentifier }
    match decision.action with
    | .admitted =>
      modify fun self => { self with liveTokens := self.liveTokens - decision.reservedTokens }
    | .queue => modify fun self => { self with queuedRequests := self.queuedRequests - 1 }
    | .shed => pure ()

/-! ### Calls -/

inductive AdmissionCall (T : Type)
  | decide (request : AdmissionRequest T) (now estimatedQueueSeconds : T)
  | release (requestIdentifier : String)

def AdmissionCall.identifier : AdmissionCall T → String
  | .decide request _ _ => request.identifier
  | .release requestIdentifier => requestIdentifier

/-- A decision, `None` for a successful release, or the exception raised. -/
abbrev Answer := Except PyError (Option AdmissionDecision)

def step (self : AdmissionController) : AdmissionCall T → Answer × AdmissionController
  | .decide request now estimatedQueueSeconds =>
    ((decide request now estimatedQueueSeconds).run self).map (·.map some) id
  | .release requestIdentifier =>
    ((release requestIdentifier).run self).map (·.map fun _ => none) id

/-! ### What one call can do -/

variable (self : AdmissionController)

theorem decide_run_of_known (request : AdmissionRequest T) (now est : T) {d : AdmissionDecision}
    (h : self.decisions.get? request.identifier = some d) :
    (decide request now est).run self = (.ok d, self) := by
  unfold decide
  rw [Call.run_get_bind, h]
  rfl

/-- The branches of `decide` for an identifier without a record, in the order of the source. -/
theorem decide_run_of_new (request : AdmissionRequest T) (now est : T)
    (h : self.decisions.get? request.identifier = none) :
    (decide request now est).run self =
      let tokens := request.maximumLiveTokens
      let record (d : AdmissionDecision) := self.decisions.set request.identifier d
      let refuse (reason : String) : Except PyError AdmissionDecision × AdmissionController :=
        (.ok ⟨.shed, 0, reason⟩, { self with decisions := record ⟨.shed, 0, reason⟩ })
      if isBlank request.identifier then
        (.error (.valueError "request identifier is required"), self)
      else if pyMin request.promptTokens [request.maxOutputTokens] < 0 then
        (.error (.valueError "token counts may not be negative"), self)
      else if tokens ≤ 0 then
        (.error (.valueError "request must reserve at least one live token"), self)
      else if est < 0 then
        (.error (.valueError "queue estimate may not be negative"), self)
      else if self.policy.maxTokensPerRequest < tokens then
        refuse "request token bound exceeds policy"
      else if request.deadlineAt < now + est then
        refuse "predicted queue wait misses request deadline"
      else if self.liveTokens + tokens ≤ self.policy.maxLiveTokens then
        (.ok ⟨.admitted, tokens, "worst-case live-token reservation fits"⟩,
          { self with
            liveTokens := self.liveTokens + tokens
            decisions := record ⟨.admitted, tokens, "worst-case live-token reservation fits"⟩ })
      else if self.queuedRequests < self.policy.maxQueuedRequests then
        (.ok ⟨.queue, 0, "live-token budget full; bounded queue slot reserved"⟩,
          { self with
            queuedRequests := self.queuedRequests + 1
            decisions :=
              record ⟨.queue, 0, "live-token budget full; bounded queue slot reserved"⟩ })
      else refuse "live-token budget and bounded queue are full" := by
  unfold decide
  rw [Call.run_get_bind, h]
  iterate 8
    refine (Call.run_ite _ _ _ _).trans ?_
    refine if_congr Iff.rfl rfl ?_
  rfl

theorem release_run_of_unknown {x : String} (h : self.decisions.get? x = none) :
    (release x).run self = (.error (.keyError x), self) := by
  unfold release
  rw [Call.run_get_bind, h]
  rfl

theorem release_run_of_known {x : String} {d : AdmissionDecision}
    (h : self.decisions.get? x = some d) :
    (release x).run self =
      match d.action with
      | .shed =>
        (.error (.valueErrorQuoting "request " x " was shed; a shed decision is permanent"), self)
      | .admitted =>
        (.ok (), { self with
          liveTokens := self.liveTokens - d.reservedTokens
          decisions := self.decisions.erase x })
      | .queue =>
        (.ok (), { self with
          queuedRequests := self.queuedRequests - 1
          decisions := self.decisions.erase x }) := by
  unfold release
  rw [Call.run_get_bind, h]
  cases ha : d.action <;> simp only [ha] <;> rfl

/-- Everything one call can do to a controller, with the guards under which it does it. -/
inductive Transition (self : AdmissionController) :
    AdmissionCall T → Answer → AdmissionController → Prop
  | raised (call : AdmissionCall T) (e : PyError) : Transition self call (.error e) self
  | replayed (request : AdmissionRequest T) (now est : T) {d : AdmissionDecision}
      (hknown : self.decisions.get? request.identifier = some d) :
      Transition self (.decide request now est) (.ok (some d)) self
  | shed (request : AdmissionRequest T) (now est : T) (reason : String)
      (hnew : self.decisions.get? request.identifier = none) :
      Transition self (.decide request now est) (.ok (some ⟨.shed, 0, reason⟩))
        { self with decisions := self.decisions.set request.identifier ⟨.shed, 0, reason⟩ }
  | admitted (request : AdmissionRequest T) (now est : T) (reason : String)
      (hnew : self.decisions.get? request.identifier = none)
      (hpos : 0 < request.maximumLiveTokens)
      (hbound : request.maximumLiveTokens ≤ self.policy.maxTokensPerRequest)
      (hfits : self.liveTokens + request.maximumLiveTokens ≤ self.policy.maxLiveTokens) :
      Transition self (.decide request now est)
        (.ok (some ⟨.admitted, request.maximumLiveTokens, reason⟩))
        { self with
          liveTokens := self.liveTokens + request.maximumLiveTokens
          decisions := self.decisions.set request.identifier
            ⟨.admitted, request.maximumLiveTokens, reason⟩ }
  | queued (request : AdmissionRequest T) (now est : T) (reason : String)
      (hnew : self.decisions.get? request.identifier = none)
      (hbound : request.maximumLiveTokens ≤ self.policy.maxTokensPerRequest)
      (hslot : self.queuedRequests < self.policy.maxQueuedRequests) :
      Transition self (.decide request now est) (.ok (some ⟨.queue, 0, reason⟩))
        { self with
          queuedRequests := self.queuedRequests + 1
          decisions := self.decisions.set request.identifier ⟨.queue, 0, reason⟩ }
  | releasedTokens (x : String) {d : AdmissionDecision}
      (hknown : self.decisions.get? x = some d) (haction : d.action = .admitted) :
      Transition self (.release x) (.ok none)
        { self with
          liveTokens := self.liveTokens - d.reservedTokens
          decisions := self.decisions.erase x }
  | releasedSlot (x : String) {d : AdmissionDecision}
      (hknown : self.decisions.get? x = some d) (haction : d.action = .queue) :
      Transition self (.release x) (.ok none)
        { self with
          queuedRequests := self.queuedRequests - 1
          decisions := self.decisions.erase x }

/-- The transition of a `decide` call, read off what the method returns and leaves behind. -/
def Decides (request : AdmissionRequest T) (now est : T)
    (out : Except PyError AdmissionDecision × AdmissionController) : Prop :=
  Transition self (.decide request now est) (out.1.map some) out.2

theorem decide_run_decides (request : AdmissionRequest T) (now est : T) :
    Decides self request now est ((decide request now est).run self) := by
  cases h : self.decisions.get? request.identifier with
  | some d =>
      rw [decide_run_of_known self request now est h]
      exact .replayed request now est h
  | none =>
      rw [decide_run_of_new self request now est h]
      dsimp only
      have raised (e : PyError) : Decides self request now est (.error e, self) := .raised _ e
      have refused (reason : String) : Decides self request now est
          (.ok ⟨.shed, 0, reason⟩,
            { self with decisions := self.decisions.set request.identifier ⟨.shed, 0, reason⟩ }) :=
        .shed request now est reason h
      refine iteInduction (fun _ => raised _) (fun _ => ?_)
      refine iteInduction (fun _ => raised _) (fun _ => ?_)
      refine iteInduction (fun _ => raised _) (fun htokens => ?_)
      refine iteInduction (fun _ => raised _) (fun _ => ?_)
      refine iteInduction (fun _ => refused _) (fun hbound => ?_)
      refine iteInduction (fun _ => refused _) (fun _ => ?_)
      refine iteInduction (fun hfits => ?_) (fun _ => ?_)
      · exact .admitted request now est _ h (by omega) (by omega) hfits
      · refine iteInduction (fun hslot => ?_) (fun _ => refused _)
        exact .queued request now est _ h (by omega) hslot

theorem step_decide_transition (request : AdmissionRequest T) (now est : T) :
    Transition self (.decide request now est) (step self (.decide request now est)).1
      (step self (.decide request now est)).2 :=
  decide_run_decides self request now est

theorem step_release_transition (x : String) :
    Transition (T := T) self (.release x) (step self (.release (T := T) x)).1
      (step self (.release (T := T) x)).2 := by
  cases h : self.decisions.get? x with
  | none =>
      rw [step, release_run_of_unknown self h]
      exact .raised _ _
  | some d =>
      rw [step, release_run_of_known self h]
      cases ha : d.action with
      | admitted => exact .releasedTokens x h ha
      | queue => exact .releasedSlot x h ha
      | shed => exact .raised _ _

theorem step_transition (call : AdmissionCall T) :
    Transition self call (step self call).1 (step self call).2 := by
  cases call with
  | decide request now est => exact step_decide_transition self request now est
  | release x => exact step_release_transition self x

/-- A call leaves the record of every other identifier alone. -/
theorem step_get?_of_ne (call : AdmissionCall T) {y : String} (h : y ≠ call.identifier) :
    (step self call).2.decisions.get? y = self.decisions.get? y := by
  have ht := step_transition self call
  generalize (step self call).1 = answer at ht
  generalize (step self call).2 = self' at ht ⊢
  cases ht with
  | raised | replayed => rfl
  | shed | admitted | queued => exact OrderedDict.get?_set_of_ne _ _ h
  | releasedTokens | releasedSlot => exact OrderedDict.get?_erase_of_ne _ h

theorem step_state_of_error (call : AdmissionCall T) {e : PyError}
    (h : (step self call).1 = .error e) : (step self call).2 = self := by
  have ht := step_transition self call
  rw [h] at ht
  generalize (step self call).2 = self' at ht ⊢
  cases ht
  rfl

end Admission
