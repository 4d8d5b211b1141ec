import InferencePlatform.CallRuns
import InferencePlatform.AutoscalingEvidence

/-!
# The control loop

Adopting a decision writes the target and the time of the scaling action into the state, while
the replicas already running stay as they are. `RunningFits` is the condition under which the
validator takes such a state: the running replicas fit below the fleet ceiling and, where the
window supports a scale-down, below a demand in the window. `tickStep` is one tick of a loop in
which the cluster reports its replica counts before every call.
-/

namespace Autoscaling

open PythonBuiltins Timelines CallRuns

section Adoption

variable {observations : List ScaleObservation} {state state' : ScaleState}
  {policy : AutoscalingPolicy} {now : ℚ} {decision : ScaleDecision}

def adopt (state : ScaleState) (decision : ScaleDecision) (now : ℚ) : ScaleState :=
  { state with desiredReplicas := decision.targetReplicas, lastScaleAt := now }

variable (observations state policy now) in
structure RunningFits : Prop where
  ceiling : state.readyReplicas + state.warmingReplicas ≤ policy.maxReplicas
  window : Supported observations state policy now → ∃ o ∈ observations,
    InWindow policy now o ∧ state.readyReplicas + state.warmingReplicas ≤ demand policy o

theorem exists_recommendReplicas_iff :
    (∃ decision, recommendReplicas observations state policy now = .ok decision) ↔
      InputsAccepted observations policy now ∧ StateAccepted state := by
  rw [← validate_eq_ok_iff]
  constructor
  · rintro ⟨decision, heq⟩
    exact validate_of_recommendReplicas heq
  · intro hvalid
    obtain ⟨newest, target, reason, -, -, heq⟩ := exists_move hvalid
    exact ⟨_, heq⟩

theorem running_le_target_iff
    (heq : recommendReplicas observations state policy now = .ok decision) :
    state.readyReplicas + state.warmingReplicas ≤ decision.targetReplicas ↔
      RunningFits observations state policy now := by
  have hvalid := validate_of_recommendReplicas heq
  have hrunning := (validate_eq_ok_iff.mp hvalid).2.running_le
  constructor
  · intro hle
    refine ⟨hle.trans (target_mem_bounds heq).2, fun hsupported => ?_⟩
    obtain ⟨decision', heq', hpeak⟩ := exists_scaledDown hvalid hsupported
    obtain rfl := Except.ok.inj (heq.symm.trans heq')
    obtain ⟨o, ho, hw, hd⟩ := hpeak.attained
    exact ⟨o, ho, hw, hd ▸ hle⟩
  · intro hfits
    rcases lt_or_ge decision.targetReplicas (clamp policy state.desiredReplicas) with hlt | hge
    · obtain ⟨hsupported, hpeak⟩ := supported_of_target_lt heq hlt
      obtain ⟨o, ho, hw, hle⟩ := hfits.window hsupported
      exact hle.trans (hpeak.greatest o ho hw)
    · exact (le_min hfits.ceiling (hrunning.trans (le_max_right _ _))).trans hge

theorem stateAccepted_adopt_iff
    (heq : recommendReplicas observations state policy now = .ok decision) :
    StateAccepted (adopt state decision now) ↔ RunningFits observations state policy now := by
  obtain ⟨hinputs, hstate⟩ := exists_recommendReplicas_iff.mp ⟨decision, heq⟩
  rw [← running_le_target_iff heq]
  exact ⟨fun h => h.running_le, fun hle =>
    ⟨hinputs.min_pos.le.trans (target_mem_bounds heq).1, hstate.ready_nonneg,
      hstate.warming_nonneg, hle⟩⟩

theorem readopts_iff (heq : recommendReplicas observations state policy now = .ok decision) :
    (∃ decision', recommendReplicas observations (adopt state decision now) policy now =
      .ok decision') ↔ RunningFits observations state policy now := by
  have hinputs := (exists_recommendReplicas_iff.mp ⟨decision, heq⟩).1
  rw [exists_recommendReplicas_iff, ← stateAccepted_adopt_iff heq]
  exact and_iff_right hinputs

end Adoption

/-! ### Ticks -/

/-- The inputs of one call, with the replica counts that the cluster reports for it. -/
structure Tick where
  observations : List ScaleObservation
  policy : AutoscalingPolicy
  now : ℚ
  readyReplicas : ℤ
  warmingReplicas : ℤ

def Tick.reported (tick : Tick) (state : ScaleState) : ScaleState :=
  { state with readyReplicas := tick.readyReplicas, warmingReplicas := tick.warmingReplicas }

def tickStep (state : ScaleState) (tick : Tick) : Except PyError ScaleDecision × ScaleState :=
  let reported := tick.reported state
  match recommendReplicas tick.observations reported tick.policy tick.now with
  | .ok decision => (.ok decision, adopt reported decision tick.now)
  | .error e => (.error e, reported)

/-- The inputs are accepted, the running replicas fit, and the cluster keeps its side: it ends
replicas, makes warming ones ready and starts new ones, but never reports more than are wanted or
ran before. -/
structure TickFits (state : ScaleState) (tick : Tick) : Prop where
  inputs : InputsAccepted tick.observations tick.policy tick.now
  ready_nonneg : 0 ≤ tick.readyReplicas
  warming_nonneg : 0 ≤ tick.warmingReplicas
  progress : tick.readyReplicas + tick.warmingReplicas ≤
    max state.desiredReplicas (state.readyReplicas + state.warmingReplicas)
  running : RunningFits tick.observations (tick.reported state) tick.policy tick.now

def AnswersAgain (entry : Entry ScaleState Tick (Except PyError ScaleDecision)) : Prop :=
  (∃ decision, entry.answer = .ok decision) ∧
    ∃ decision, recommendReplicas entry.call.observations entry.state entry.call.policy
      entry.call.now = .ok decision

theorem TickFits.reported {state : ScaleState} {tick : Tick} (hstate : StateAccepted state)
    (h : TickFits state tick) : StateAccepted (tick.reported state) :=
  ⟨hstate.desired_nonneg, h.ready_nonneg, h.warming_nonneg,
    h.progress.trans (max_le le_rfl hstate.running_le)⟩

theorem tickStep_answersAgain (state : ScaleState) (tick : Tick) (hstate : StateAccepted state)
    (h : TickFits state tick) : StateAccepted (tickStep state tick).2 ∧
      AnswersAgain ⟨tick, (tickStep state tick).1, (tickStep state tick).2⟩ := by
  obtain ⟨decision, heq⟩ := exists_recommendReplicas_iff.mpr ⟨h.inputs, h.reported hstate⟩
  have hstep : tickStep state tick =
      (.ok decision, adopt (tick.reported state) decision tick.now) := by
    simp only [tickStep, heq]
  rw [hstep]
  exact ⟨(stateAccepted_adopt_iff heq).mpr h.running, ⟨decision, rfl⟩,
    (readopts_iff heq).mpr h.running⟩

/-- An accepted call takes the state that its decision creates if and only if the running replicas
fit. A loop from there never raises when at every tick the running replicas fit, the inputs are
accepted, and the cluster reports counts that are not negative and add up to no more than were
wanted or ran before. -/
theorem loop_answersAgain {observations : List ScaleObservation} {state : ScaleState}
    {policy : AutoscalingPolicy} {now : ℚ}
    (hvalid : validate observations state policy now = .ok ()) :
    (∃ decision, recommendReplicas observations state policy now = .ok decision ∧
      ((∃ decision', recommendReplicas observations (adopt state decision now) policy now =
        .ok decision') ↔ RunningFits observations state policy now)) ∧
    ∀ ticks : List Tick, (∀ before tick after, ticks = before ++ tick :: after →
        TickFits (finalState tickStep state before) tick) →
      ∀ entry ∈ trace tickStep state ticks, AnswersAgain entry := by
  have haccepted := validate_eq_ok_iff.mp hvalid
  obtain ⟨decision, heq⟩ := exists_recommendReplicas_iff.mpr haccepted
  exact ⟨⟨decision, heq, readopts_iff heq⟩, fun ticks hticks =>
    forall_mem_trace tickStep tickStep_answersAgain state haccepted.2 ticks hticks⟩

/-- A fleet of three with one replica running shrinks to one without a raise. -/
theorem loop_answersAgain_steady :
    (∃ decision, recommendReplicas steadyObservations ⟨3, 1, 0, 0⟩ samplePolicy 60 = .ok decision ∧
      ((∃ decision', recommendReplicas steadyObservations (adopt ⟨3, 1, 0, 0⟩ decision 60)
        samplePolicy 60 = .ok decision') ↔
          RunningFits steadyObservations ⟨3, 1, 0, 0⟩ samplePolicy 60)) ∧
    ∀ entry ∈ trace tickStep ⟨3, 1, 0, 0⟩ [⟨steadyObservations, samplePolicy, 60, 1, 0⟩],
      AnswersAgain entry := by
  have hvalid : validate steadyObservations ⟨3, 1, 0, 0⟩ samplePolicy 60 = .ok () := by
    decide +kernel
  obtain ⟨hstep, hrun⟩ := loop_answersAgain hvalid
  refine ⟨hstep, hrun _ ?_⟩
  intro before tick after hticks
  cases before with
  | nil =>
      obtain ⟨rfl, rfl⟩ := List.cons.inj hticks
      exact ⟨(validate_eq_ok_iff.mp hvalid).1, by decide, by decide, by decide,
        by decide, fun _ => ⟨⟨60, 0, 20, 1 / 10⟩, by decide +kernel, by decide +kernel,
          by decide +kernel⟩⟩
  | cons first before =>
      exact absurd (List.cons.inj hticks).2.symm (List.append_ne_nil_of_right_ne_nil _ (by simp))

/-- With all three replicas running, the same scale-down leaves a state that is rejected. -/
theorem adopt_rejected :
    ∃ decision, recommendReplicas steadyObservations ⟨3, 3, 0, 0⟩ samplePolicy 60 = .ok decision ∧
      recommendReplicas steadyObservations (adopt ⟨3, 3, 0, 0⟩ decision 60) samplePolicy 60 =
        .error (.valueError "ready plus warming replicas exceed desired replicas") :=
  ⟨⟨1, 1, 240, "lower token demand persisted for the full stabilization window"⟩,
    by decide +kernel, by decide +kernel⟩

/-! ### Settled targets -/

section Settled

variable {observations : List ScaleObservation} {state state' : ScaleState}
  {policy : AutoscalingPolicy} {now : ℚ} {newest : ScaleObservation}

/-- A window that supports a target below the clamped desired count supports one below `desired`. -/
theorem Supported.of_clamp (hbounds : policy.minReplicas ≤ policy.maxReplicas)
    (hdesired : state'.desiredReplicas = clamp policy state.desiredReplicas)
    (h : Supported observations state' policy now) : Supported observations state policy now := by
  refine ⟨h.covered, h.sampled, fun o ho hw => ?_⟩
  have hlt := h.lower o ho hw
  have hmin := min_le_demand hbounds o
  rw [hdesired, clamp] at hlt
  omega

/-- Every move of a first call leaves a state on which the next move is to stay. -/
theorem Move.exists_settled {target : ℤ} {reason : String}
    (hbounds : policy.minReplicas ≤ policy.maxReplicas)
    (hnewest : IsLatest (·.timestamp) observations newest)
    (hmove : Move observations state policy now (demand policy newest) target reason)
    (hdesired : state'.desiredReplicas = clamp policy target)
    (hlast : state'.lastScaleAt = state.lastScaleAt ∨
      (state.lastScaleAt ≤ now ∧ state'.lastScaleAt = now)) :
    ∃ reason', Move observations state' policy now (demand policy newest)
      state'.desiredReplicas reason' := by
  have hclamp := clamp_demand hbounds newest
  cases hmove with
  | matched heq => exact ⟨_, .matched (by rw [hdesired, ← heq, hclamp])⟩
  | scaledUp hup hcool => exact ⟨_, .matched (by rw [hdesired, hclamp])⟩
  | coolingDown hup hcool =>
    have hle : state'.desiredReplicas ≤ demand policy newest := by
      rw [hdesired, ← hclamp]
      exact clamp_mono hup.le
    have hcool' : now - state'.lastScaleAt < policy.scaleUpCooldownSeconds := by
      rcases hlast with hsame | ⟨hpast, hnow⟩
      · rw [hsame]
        exact hcool
      · rw [hnow, sub_self]
        exact (sub_nonneg.mpr hpast).trans_lt hcool
    rcases hle.eq_or_lt with heq | hlt
    · exact ⟨_, .matched heq.symm⟩
    · exact ⟨_, .coolingDown hlt hcool'⟩
  | scaledDown _ hdown hsupported hpeak =>
    rw [hpeak.clamp_eq hbounds] at hdesired
    obtain ⟨o, ho, hw⟩ := hsupported.sampled
    have hle := hpeak.greatest newest hnewest.mem (le_trans hw (hnewest.time_le ho))
    rw [← hdesired] at hle hpeak
    rcases hle.eq_or_lt with heq | hlt
    · exact ⟨_, .matched heq⟩
    · exact ⟨_, .heldDown hlt fun h => absurd (h.peak_lt hpeak) (lt_irrefl _)⟩
  | heldDown hdown hunsupported =>
    have hle : demand policy newest ≤ state'.desiredReplicas := by
      rw [hdesired, ← hclamp]
      exact clamp_mono hdown.le
    rcases hle.eq_or_lt with heq | hlt
    · exact ⟨_, .matched heq⟩
    · exact ⟨_, .heldDown hlt fun h => hunsupported (h.of_clamp hbounds hdesired)⟩

theorem recommendReplicas_settled {decision : ScaleDecision}
    (heq : recommendReplicas observations state policy now = .ok decision)
    (hdesired : state'.desiredReplicas = decision.targetReplicas)
    (hvalid' : validate observations state' policy now = .ok ())
    (hlast : state'.lastScaleAt = state.lastScaleAt ∨
      (state.lastScaleAt ≤ now ∧ state'.lastScaleAt = now)) :
    ∃ decision', recommendReplicas observations state' policy now = .ok decision' ∧
      decision'.targetReplicas = decision.targetReplicas := by
  have htarget := target_mem_bounds heq
  rw [← hdesired] at htarget ⊢
  obtain ⟨hbounds, newest, target, reason, hnewest, hmove, rfl⟩ := exists_move_of_ok heq
  obtain ⟨reason', hmove'⟩ := hmove.exists_settled hbounds hnewest hdesired hlast
  exact ⟨_, recommendReplicas_eq_conclude hvalid' hnewest hmove',
    clamp_of_mem htarget.1 htarget.2⟩

theorem recommendReplicas_settled_steady :
    ∃ decision', recommendReplicas steadyObservations ⟨1, 1, 0, 60⟩ samplePolicy 60 =
      .ok decision' ∧ decision'.targetReplicas = 1 := by
  have heq : recommendReplicas steadyObservations ⟨3, 3, 0, 0⟩ samplePolicy 60 =
      .ok ⟨1, 1, 240, "lower token demand persisted for the full stabilization window"⟩ := by
    decide +kernel
  exact recommendReplicas_settled heq rfl (by decide +kernel) (.inr ⟨by norm_num, rfl⟩)

end Settled

end Autoscaling
