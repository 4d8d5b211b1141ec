import InferencePlatform.AutoscalingEvidence

/-!
# Reordered and heavier observations

Two calls with one state, policy and time. The order of the observations matters only where
several of them carry the greatest timestamp: the last of these in the list is the newest one.
`DemandsAtMost` compares two observations of one instant, and more token demand position by
position never lowers the target.
-/

namespace Autoscaling

open PythonBuiltins Timelines

section Order

variable {observations observations' : List ScaleObservation} {state : ScaleState}
  {policy : AutoscalingPolicy} {now : ℚ}

variable (observations policy) in
/-- All observations that carry the greatest timestamp have one clamped demand. -/
def TiesAgree : Prop :=
  ∀ a ∈ observations, ∀ b ∈ observations, (∀ o ∈ observations, o.timestamp ≤ a.timestamp) →
    (∀ o ∈ observations, o.timestamp ≤ b.timestamp) → demand policy a = demand policy b

theorem validate_of_perm (hperm : observations'.Perm observations)
    (hvalid : validate observations state policy now = .ok ()) :
    validate observations' state policy now = .ok () := by
  obtain ⟨h, hstate⟩ := validate_eq_ok_iff.mp hvalid
  refine validate_eq_ok_iff.mpr ⟨?_, hstate⟩
  exact ⟨fun hnil => h.nonempty (hperm.symm.trans (.of_eq hnil)).eq_nil, h.min_pos, h.min_le_max,
    h.service_pos, h.utilization_pos, h.utilization_le_one, h.drain_pos, h.cooldown_nonneg,
    h.window_nonneg, fun o ho => h.timestamp_le o (hperm.mem_iff.mp ho),
    fun o ho => h.queued_nonneg o (hperm.mem_iff.mp ho),
    fun o ho => h.arrival_nonneg o (hperm.mem_iff.mp ho)⟩

theorem recommendReplicas_perm (hvalid : validate observations state policy now = .ok ())
    (hties : TiesAgree observations policy) (hperm : observations'.Perm observations) :
    recommendReplicas observations' state policy now =
      recommendReplicas observations state policy now := by
  obtain ⟨newest, target, reason, hnewest, hmove, heq⟩ := exists_move hvalid
  obtain ⟨newest', _, _, hnewest', -, -⟩ := exists_move (validate_of_perm hperm hvalid)
  have hdemand : demand policy newest = demand policy newest' :=
    hties newest hnewest.mem newest' (hperm.mem_iff.mp hnewest'.mem) (fun _ => hnewest.time_le)
      fun _ ho => hnewest'.time_le (hperm.mem_iff.mpr ho)
  rw [hdemand] at hmove heq
  rw [heq]
  exact recommendReplicas_eq_conclude (validate_of_perm hperm hvalid) hnewest'
    (hmove.of_perm hperm.symm)

theorem order_irrelevant_iff (hvalid : validate observations state policy now = .ok ()) :
    (∀ observations', observations'.Perm observations →
      recommendReplicas observations' state policy now =
        recommendReplicas observations state policy now) ↔ TiesAgree observations policy := by
  constructor
  · intro h a ha b hb hmaxa hmaxb
    obtain ⟨xs, hxs, hlasta⟩ := exists_perm_isLatest ha hmaxa
    obtain ⟨ys, hys, hlastb⟩ := exists_perm_isLatest hb hmaxb
    obtain ⟨a', _, _, hlasta', -, heqa⟩ := exists_move (validate_of_perm hxs hvalid)
    obtain ⟨b', _, _, hlastb', -, heqb⟩ := exists_move (validate_of_perm hys hvalid)
    obtain rfl := hlasta.unique hlasta'
    obtain rfl := hlastb.unique hlastb'
    have hsame := (h xs hxs).trans (h ys hys).symm
    rw [heqa, heqb] at hsame
    exact congrArg ScaleDecision.calculatedDemandReplicas (Except.ok.inj hsame)
  · intro hties observations' hperm
    exact recommendReplicas_perm hvalid hties hperm

theorem order_irrelevant_iff_steady :
    (∀ observations', observations'.Perm steadyObservations →
      recommendReplicas observations' ⟨3, 3, 0, 0⟩ samplePolicy 60 =
        recommendReplicas steadyObservations ⟨3, 3, 0, 0⟩ samplePolicy 60) ↔
      TiesAgree steadyObservations samplePolicy :=
  order_irrelevant_iff (by decide +kernel)

/-- Two readings of one instant: whichever is delivered last decides the target. -/
theorem order_matters :
    validate [⟨60, 0, 20, 0⟩, ⟨60, 0, 240, 0⟩] ⟨1, 1, 0, 0⟩ samplePolicy 60 = .ok () ∧
      List.Perm [(⟨60, 0, 240, 0⟩ : ScaleObservation), ⟨60, 0, 20, 0⟩]
        [⟨60, 0, 20, 0⟩, ⟨60, 0, 240, 0⟩] ∧
      recommendReplicas [⟨60, 0, 240, 0⟩, ⟨60, 0, 20, 0⟩] ⟨1, 1, 0, 0⟩ samplePolicy 60 ≠
        recommendReplicas [⟨60, 0, 20, 0⟩, ⟨60, 0, 240, 0⟩] ⟨1, 1, 0, 0⟩ samplePolicy 60 :=
  ⟨by decide +kernel, List.Perm.swap _ _ _, by decide +kernel⟩

end Order

/-! ### More token demand -/

section Demand

variable {observations observations' : List ScaleObservation} {state : ScaleState}
  {policy : AutoscalingPolicy} {now : ℚ}

structure DemandsAtMost (o o' : ScaleObservation) : Prop where
  timestamp : o.timestamp = o'.timestamp
  queued : o.queuedTokens ≤ o'.queuedTokens
  arrival : o.arrivalTokensPerSecond ≤ o'.arrivalTokensPerSecond

theorem demand_mono {o o' : ScaleObservation} (h : InputsAccepted observations policy now)
    (hle : DemandsAtMost o o') : demand policy o ≤ demand policy o' := by
  have husable := (mul_pos h.service_pos h.utilization_pos).le
  have hdrain := (mul_pos h.service_pos h.drain_pos).le
  have hqueued : (o.queuedTokens : ℚ) ≤ o'.queuedTokens := by exact_mod_cast hle.queued
  exact clamp_mono (add_le_add
    (Int.ceil_mono (div_le_div_of_nonneg_right hle.arrival husable))
    (Int.ceil_mono (div_le_div_of_nonneg_right hqueued hdrain)))

/-- A window that supports a lower target still does so when every demand in it is smaller. -/
theorem Supported.of_demandsAtMost (hinputs : InputsAccepted observations policy now)
    (hle : List.Forall₂ DemandsAtMost observations observations')
    (h : Supported observations' state policy now) : Supported observations state policy now := by
  obtain ⟨⟨c, hc, hcovered⟩, ⟨s, hs, hsampled⟩, hlower⟩ := h
  obtain ⟨c', hc', hcle⟩ := exists_mem_of_forall₂' hle hc
  obtain ⟨s', hs', hsle⟩ := exists_mem_of_forall₂' hle hs
  refine ⟨⟨c', hc', hcle.timestamp.le.trans hcovered⟩,
    ⟨s', hs', hsampled.trans hsle.timestamp.ge⟩, fun o ho hw => ?_⟩
  obtain ⟨o', ho', hole⟩ := exists_mem_of_forall₂ hle ho
  exact (demand_mono hinputs hole).trans_lt
    (hlower o' ho' (le_trans hw hole.timestamp.le))

theorem WindowPeak.le_of_demandsAtMost {peak peak' : ℤ}
    (hinputs : InputsAccepted observations policy now)
    (hle : List.Forall₂ DemandsAtMost observations observations')
    (hpeak : WindowPeak observations policy now peak)
    (hpeak' : WindowPeak observations' policy now peak') : peak ≤ peak' := by
  obtain ⟨o, ho, hw, rfl⟩ := hpeak.attained
  obtain ⟨o', ho', hole⟩ := exists_mem_of_forall₂ hle ho
  exact (demand_mono hinputs hole).trans
    (hpeak'.greatest o' ho' (le_trans hw hole.timestamp.le))

/-- Newest demand above `desired` and a passed cooldown make the newest demand the target. -/
theorem target_eq_of_scaledUp {newest : ScaleObservation} {decision : ScaleDecision}
    (hnewest : IsLatest (·.timestamp) observations newest)
    (heq : recommendReplicas observations state policy now = .ok decision)
    (hup : state.desiredReplicas < demand policy newest)
    (hcool : policy.scaleUpCooldownSeconds ≤ now - state.lastScaleAt) :
    decision.targetReplicas = demand policy newest := by
  obtain ⟨hbounds, newest', target, reason, hnewest', hmove, rfl⟩ := exists_move_of_ok heq
  obtain rfl := hnewest.unique hnewest'
  obtain ⟨rfl, -⟩ := hmove.unique (.scaledUp hup hcool)
  exact clamp_demand hbounds newest

/-- Heavier observations never lower the target: the lighter call shrinks the fleet at least as
far as the heavier one does, and the heavier one grows it at least as far. -/
theorem recommendReplicas_mono (hvalid : validate observations state policy now = .ok ())
    (hvalid' : validate observations' state policy now = .ok ())
    (hle : List.Forall₂ DemandsAtMost observations observations') :
    ∃ decision decision', recommendReplicas observations state policy now = .ok decision ∧
      recommendReplicas observations' state policy now = .ok decision' ∧
      decision.targetReplicas ≤ decision'.targetReplicas ∧
      decision.calculatedDemandReplicas ≤ decision'.calculatedDemandReplicas := by
  have hinputs := (validate_eq_ok_iff.mp hvalid).1
  obtain ⟨newest, _, _, hnewest, -, heq⟩ := exists_move hvalid
  obtain ⟨newest', _, _, hnewest', -, heq'⟩ := exists_move hvalid'
  have hnewestle : demand policy newest ≤ demand policy newest' := by
    obtain ⟨y, hy, hyle⟩ := hnewest.exists_of_forall₂ (fun _ _ h => h.timestamp) hle
    obtain rfl := hy.unique hnewest'
    exact demand_mono hinputs hyle
  refine ⟨_, _, heq, heq', ?_, hnewestle⟩
  by_contra hlt
  have hlt := not_le.mp hlt
  rcases lt_or_ge _ (clamp policy state.desiredReplicas) with hdown | hheld
  · obtain ⟨hsupported', hpeak'⟩ := supported_of_target_lt heq' hdown
    obtain ⟨decision, hdecision, hpeak⟩ :=
      exists_scaledDown hvalid (hsupported'.of_demandsAtMost hinputs hle)
    obtain rfl := Except.ok.inj (hdecision.symm.trans heq)
    exact absurd (hpeak.le_of_demandsAtMost hinputs hle hpeak') (not_le.mpr hlt)
  · obtain ⟨htarget, hup, hcool⟩ := scaledUp_of_lt_target hnewest heq (hheld.trans_lt hlt)
    have htarget' := target_eq_of_scaledUp hnewest' heq' (hup.trans_le hnewestle) hcool
    rw [htarget, htarget'] at hlt
    exact absurd hnewestle (not_le.mpr hlt)

theorem recommendReplicas_mono_steady :
    ∃ decision decision',
      recommendReplicas steadyObservations ⟨3, 3, 0, 0⟩ samplePolicy 60 = .ok decision ∧
      recommendReplicas [⟨0, 0, 20, 0⟩, ⟨60, 800, 160, 0⟩] ⟨3, 3, 0, 0⟩ samplePolicy 60 =
        .ok decision' ∧
      decision.targetReplicas ≤ decision'.targetReplicas ∧
      decision.calculatedDemandReplicas ≤ decision'.calculatedDemandReplicas :=
  recommendReplicas_mono (by decide +kernel) (by decide +kernel)
    (.cons ⟨rfl, by decide, by norm_num⟩ (.cons ⟨rfl, by decide, by norm_num⟩ .nil))

end Demand

end Autoscaling
