import InferencePlatform.AutoscalingMoves

/-!
# Evidence for a move

What the observations show whenever the returned target differs from the desired count. A fleet
shrinks only on a supported window, and then to the peak of that window. The window starts at
`now - scaleDownStabilizationSeconds`; what was in force at that instant may have been recorded
before it, and such an observation counts as coverage but not towards the peak. `EdgeCovered`
says that the window holds a demand at least as large.
-/

namespace Autoscaling

open PythonBuiltins Timelines

section Evidence

variable {observations : List ScaleObservation} {state : ScaleState} {policy : AutoscalingPolicy}
  {now : ℚ}

theorem Supported.newest_lt {newest : ScaleObservation}
    (h : Supported observations state policy now)
    (hnewest : IsLatest (·.timestamp) observations newest) :
    demand policy newest < state.desiredReplicas := by
  obtain ⟨o, ho, hw⟩ := h.sampled
  exact h.lower newest hnewest.mem (le_trans hw (hnewest.time_le ho))

theorem WindowPeak.clamp_eq {peak : ℤ} (hbounds : policy.minReplicas ≤ policy.maxReplicas)
    (h : WindowPeak observations policy now peak) : clamp policy peak = peak := by
  obtain ⟨o, -, -, rfl⟩ := h.attained
  exact clamp_demand hbounds o

theorem WindowPeak.clamp {peak : ℤ} (hbounds : policy.minReplicas ≤ policy.maxReplicas)
    (h : WindowPeak observations policy now peak) :
    WindowPeak observations policy now (Autoscaling.clamp policy peak) := by
  rw [h.clamp_eq hbounds]
  exact h

/-- A supported window is enough for the fleet to shrink to its peak. -/
theorem exists_scaledDown (hvalid : validate observations state policy now = .ok ())
    (h : Supported observations state policy now) :
    ∃ decision, recommendReplicas observations state policy now = .ok decision ∧
      WindowPeak observations policy now decision.targetReplicas := by
  obtain ⟨newest, target, reason, hnewest, hmove, heq⟩ := exists_move hvalid
  have hbounds := (validate_eq_ok_iff.mp hvalid).1.min_le_max
  have hlt := h.newest_lt hnewest
  refine ⟨_, heq, ?_⟩
  cases hmove with
  | matched hmatched => exact absurd hmatched hlt.ne
  | scaledUp hgt | coolingDown hgt => exact absurd hlt hgt.asymm
  | scaledDown _ _ _ hpeak => exact hpeak.clamp hbounds
  | heldDown _ hunsupported => exact absurd h hunsupported

/-- Below the clamped desired count there is only the peak of a supported window. -/
theorem supported_of_target_lt {decision : ScaleDecision}
    (heq : recommendReplicas observations state policy now = .ok decision)
    (hlt : decision.targetReplicas < clamp policy state.desiredReplicas) :
    Supported observations state policy now ∧
      WindowPeak observations policy now decision.targetReplicas := by
  obtain ⟨hbounds, newest, target, reason, -, hmove, rfl⟩ := exists_move_of_ok heq
  cases hmove with
  | matched | coolingDown | heldDown => exact absurd hlt (lt_irrefl _)
  | scaledUp hup => exact absurd hlt (not_lt.mpr (clamp_mono hup.le))
  | scaledDown _ _ hsupported hpeak =>
    exact ⟨hsupported, hpeak.clamp hbounds⟩

/-- Above the clamped desired count there is only the newest demand after the cooldown. -/
theorem scaledUp_of_lt_target {newest : ScaleObservation} {decision : ScaleDecision}
    (hnewest : IsLatest (·.timestamp) observations newest)
    (heq : recommendReplicas observations state policy now = .ok decision)
    (hlt : clamp policy state.desiredReplicas < decision.targetReplicas) :
    decision.targetReplicas = demand policy newest ∧
      state.desiredReplicas < demand policy newest ∧
      policy.scaleUpCooldownSeconds ≤ now - state.lastScaleAt := by
  obtain ⟨hbounds, newest', target, reason, hnewest', hmove, rfl⟩ := exists_move_of_ok heq
  obtain rfl := hnewest.unique hnewest'
  cases hmove with
  | matched | coolingDown | heldDown => exact absurd hlt (lt_irrefl _)
  | scaledUp hup hcool => exact ⟨clamp_demand hbounds newest, hup, hcool⟩
  | scaledDown _ _ hsupported hpeak =>
    exact absurd hlt (not_lt.mpr (clamp_mono (hsupported.peak_lt hpeak).le))

/-- The target never falls below both the desired count and a demand in the window. -/
theorem min_le_target {decision : ScaleDecision} {observation : ScaleObservation}
    (heq : recommendReplicas observations state policy now = .ok decision)
    (ho : observation ∈ observations) (hw : InWindow policy now observation) :
    min state.desiredReplicas (demand policy observation) ≤ decision.targetReplicas := by
  rcases lt_or_ge decision.targetReplicas (clamp policy state.desiredReplicas) with hlt | hge
  · obtain ⟨-, hpeak⟩ := supported_of_target_lt heq hlt
    exact (min_le_right _ _).trans (hpeak.greatest observation ho hw)
  · refine le_trans (le_min ?_ ?_) hge
    · exact (min_le_right _ _).trans (demand_le_max observation)
    · exact (min_le_left _ _).trans (le_max_right _ _)

theorem target_mem_bounds {decision : ScaleDecision}
    (heq : recommendReplicas observations state policy now = .ok decision) :
    policy.minReplicas ≤ decision.targetReplicas ∧
      decision.targetReplicas ≤ policy.maxReplicas := by
  obtain ⟨hbounds, newest, target, reason, -, -, rfl⟩ := exists_move_of_ok heq
  exact ⟨min_le_clamp hbounds target, clamp_le_max target⟩

variable (observations state policy now) in
/-- What a decision to set `target` is backed by, with `newest` the newest observation. -/
structure BackedBy (newest : ScaleObservation) (target : ℤ) : Prop where
  min_le : policy.minReplicas ≤ target
  le_max : target ≤ policy.maxReplicas
  up : clamp policy state.desiredReplicas < target →
    target = demand policy newest ∧ state.desiredReplicas < demand policy newest ∧
      policy.scaleUpCooldownSeconds ≤ now - state.lastScaleAt
  down : target < clamp policy state.desiredReplicas →
    (∃ o ∈ observations, o.timestamp ≤ now - policy.scaleDownStabilizationSeconds) ∧
      IsGreatest {d | ∃ o ∈ observations,
        now - policy.scaleDownStabilizationSeconds ≤ o.timestamp ∧ o.timestamp ≤ now ∧
          demand policy o = d} target ∧
      target < state.desiredReplicas
  kept : ∀ o ∈ observations, now - policy.scaleDownStabilizationSeconds ≤ o.timestamp →
    o.timestamp ≤ now → min state.desiredReplicas (demand policy o) ≤ target

theorem recommendReplicas_backedBy (h : validate observations state policy now = .ok ()) :
    ∃ newest decision, IsLatest (·.timestamp) observations newest ∧
      recommendReplicas observations state policy now = .ok decision ∧
      BackedBy observations state policy now newest decision.targetReplicas := by
  obtain ⟨newest, target, reason, hnewest, -, heq⟩ := exists_move h
  have hpast := (validate_eq_ok_iff.mp h).1.timestamp_le
  refine ⟨newest, _, hnewest, heq, (target_mem_bounds heq).1, (target_mem_bounds heq).2,
    scaledUp_of_lt_target hnewest heq, fun hlt => ?_, fun o ho hw _ => min_le_target heq ho hw⟩
  obtain ⟨hsupported, hpeak⟩ := supported_of_target_lt heq hlt
  obtain ⟨o, ho, hw, hd⟩ := hpeak.attained
  refine ⟨hsupported.covered, ⟨⟨o, ho, hw, hpast o ho, hd⟩, ?_⟩, hsupported.peak_lt hpeak⟩
  rintro _ ⟨x, hx, hxw, -, rfl⟩
  exact hpeak.greatest x hx hxw

def samplePolicy : AutoscalingPolicy := ⟨1, 10, 100, 4 / 5, 10, 5, 60⟩

def steadyObservations : List ScaleObservation := [⟨0, 0, 20, 1 / 10⟩, ⟨60, 0, 20, 1 / 10⟩]

theorem recommendReplicas_backedBy_steady :
    ∃ newest decision, IsLatest (·.timestamp) steadyObservations newest ∧
      recommendReplicas steadyObservations ⟨3, 3, 0, 0⟩ samplePolicy 60 = .ok decision ∧
      BackedBy steadyObservations ⟨3, 3, 0, 0⟩ samplePolicy 60 newest decision.targetReplicas :=
  recommendReplicas_backedBy (by decide +kernel)

/-! ### Demand in force through the window -/

variable (observations state policy now) in
/-- At every instant of the window some observation is in force, and each needs at most `target`. -/
def LowThroughout (target : ℤ) : Prop :=
  ∀ u, now - policy.scaleDownStabilizationSeconds ≤ u → u ≤ now →
    (∃ o, InForce (·.timestamp) observations u o) ∧
      ∀ o, InForce (·.timestamp) observations u o → demand policy o ≤ target

variable (observations policy now) in
def EdgeCovered : Prop :=
  ∀ o, InForce (·.timestamp) observations (now - policy.scaleDownStabilizationSeconds) o →
    ∃ o' ∈ observations, InWindow policy now o' ∧ demand policy o ≤ demand policy o'

/-- Only what was in force at the window start can need more than the peak. -/
theorem lowThroughout_iff_edgeCovered {peak : ℤ}
    (hwindow : 0 ≤ policy.scaleDownStabilizationSeconds)
    (hsupported : Supported observations state policy now)
    (hpeak : WindowPeak observations policy now peak) :
    LowThroughout observations policy now peak ↔ EdgeCovered observations policy now := by
  constructor
  · intro h o ho
    obtain ⟨o', ho', hw, rfl⟩ := hpeak.attained
    exact ⟨o', ho', hw, (h _ le_rfl (sub_le_self now hwindow)).2 o ho⟩
  · intro h u hu _
    obtain ⟨first, hfirst, hcovered⟩ := hsupported.covered
    refine ⟨exists_inForce hfirst (hcovered.trans hu), fun o ho => ?_⟩
    rcases ho.since hu with hin | hedge
    · exact hpeak.greatest o ho.mem hin.le
    · obtain ⟨o', ho', hw, hle⟩ := h o hedge
      exact hle.trans (hpeak.greatest o' ho' hw)

theorem shrink_lowThroughout_iff (hvalid : validate observations state policy now = .ok ())
    (hmin : policy.minReplicas ≤ state.desiredReplicas)
    (hmax : state.desiredReplicas ≤ policy.maxReplicas) :
    (∀ decision, recommendReplicas observations state policy now = .ok decision →
      decision.targetReplicas < state.desiredReplicas →
        LowThroughout observations policy now decision.targetReplicas) ↔
      (Supported observations state policy now → EdgeCovered observations policy now) := by
  have hwindow := (validate_eq_ok_iff.mp hvalid).1.window_nonneg
  constructor
  · intro h hsupported
    obtain ⟨decision, heq, hpeak⟩ := exists_scaledDown hvalid hsupported
    have hlow := h decision heq (hsupported.peak_lt hpeak)
    exact (lowThroughout_iff_edgeCovered hwindow hsupported hpeak).mp hlow
  · intro h decision heq hlt
    have hlt' : decision.targetReplicas < clamp policy state.desiredReplicas := by
      rw [clamp_of_mem hmin hmax]
      exact hlt
    obtain ⟨hsupported, hpeak⟩ := supported_of_target_lt heq hlt'
    exact (lowThroughout_iff_edgeCovered hwindow hsupported hpeak).mpr (h hsupported)

theorem shrink_lowThroughout_iff_steady :
    (∀ decision, recommendReplicas steadyObservations ⟨3, 3, 0, 0⟩ samplePolicy 60 = .ok decision →
      decision.targetReplicas < 3 →
        LowThroughout steadyObservations samplePolicy 60 decision.targetReplicas) ↔
      (Supported steadyObservations ⟨3, 3, 0, 0⟩ samplePolicy 60 →
        EdgeCovered steadyObservations samplePolicy 60) :=
  shrink_lowThroughout_iff (by decide +kernel) (by decide) (by decide)

/-- Ten replicas are needed until second 60, yet at second 100 the fleet shrinks to one. -/
theorem shrink_after_brief_lull :
    let observations : List ScaleObservation := [⟨0, 0, 800, 0⟩, ⟨60, 0, 20, 0⟩]
    validate observations ⟨10, 4, 0, 0⟩ samplePolicy 100 = .ok () ∧
      samplePolicy.minReplicas ≤ 10 ∧ 10 ≤ samplePolicy.maxReplicas ∧
      ∃ decision, recommendReplicas observations ⟨10, 4, 0, 0⟩ samplePolicy 100 = .ok decision ∧
        decision.targetReplicas < 10 ∧
        ¬ LowThroughout observations samplePolicy 100 decision.targetReplicas := by
  intro observations
  refine ⟨by decide +kernel, by decide, by decide, ⟨1, 1, 320,
    "lower token demand persisted for the full stabilization window"⟩, by decide +kernel,
    by decide, fun h => ?_⟩
  have hforce : InForce (·.timestamp) observations 40 ⟨0, 0, 800, 0⟩ := by
    refine ⟨List.mem_cons_self, by norm_num, ?_⟩
    simp only [observations, List.forall_mem_cons]
    norm_num
  exact absurd ((h 40 (by norm_num [samplePolicy]) (by norm_num)).2 _ hforce) (by decide +kernel)

end Evidence

end Autoscaling
