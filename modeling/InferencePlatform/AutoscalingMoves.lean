import InferencePlatform.Autoscaling
import InferencePlatform.Timelines

/-!
# Moves of the autoscaler

`InputsAccepted` and `StateAccepted` say what the validator lets through. A `Move` is one
outcome of the control loop before the clamp, as a function of the demand of the newest
observation: the observations enter it only through `Supported`, a complete window whose every
observation supports a lower target, and `WindowPeak`, the largest demand in that window.
`exists_move` says that an accepted call concludes a move, and `Move.unique` that it has no
choice in it.
-/

namespace Autoscaling

open PythonBuiltins Timelines

section Validator

variable (observations : List ScaleObservation) (state : ScaleState) (policy : AutoscalingPolicy)
  (now : ℚ)

structure InputsAccepted : Prop where
  nonempty : observations ≠ []
  min_pos : 0 < policy.minReplicas
  min_le_max : policy.minReplicas ≤ policy.maxReplicas
  service_pos : 0 < policy.serviceTokensPerSecondPerReplica
  utilization_pos : 0 < policy.targetUtilization
  utilization_le_one : policy.targetUtilization ≤ 1
  drain_pos : 0 < policy.queueDrainSeconds
  cooldown_nonneg : 0 ≤ policy.scaleUpCooldownSeconds
  window_nonneg : 0 ≤ policy.scaleDownStabilizationSeconds
  timestamp_le : ∀ item ∈ observations, item.timestamp ≤ now
  queued_nonneg : ∀ item ∈ observations, 0 ≤ item.queuedTokens
  arrival_nonneg : ∀ item ∈ observations, 0 ≤ item.arrivalTokensPerSecond

structure StateAccepted : Prop where
  desired_nonneg : 0 ≤ state.desiredReplicas
  ready_nonneg : 0 ≤ state.readyReplicas
  warming_nonneg : 0 ≤ state.warmingReplicas
  running_le : state.readyReplicas + state.warmingReplicas ≤ state.desiredReplicas

variable {observations state policy now}

theorem validate_eq_ok_iff : validate observations state policy now = .ok () ↔
    InputsAccepted observations policy now ∧ StateAccepted state := by
  unfold validate
  simp only [Except.ite_throw_eq_ok_iff, List.any_eq_true, decide_eq_true_eq, pyMin_lt_iff,
    List.mem_cons, List.not_mem_nil, or_false, exists_eq_left, exists_eq_or_imp, not_or,
    not_exists, not_and, not_lt, not_le, Classical.not_imp]
  constructor
  · rintro ⟨hne, ⟨hmin, hmax⟩, hservice, hutilization, ⟨⟨hdrain, hcooldown, hwindow⟩, hzero⟩,
      ⟨hdesired, hready, hwarming⟩, hrunning, hitems, -⟩
    exact ⟨⟨hne, hmin, hmax, hservice, hutilization.1, hutilization.2,
      lt_of_le_of_ne hdrain (Ne.symm hzero), hcooldown, hwindow, fun item hi => (hitems item hi).1,
      fun item hi => (hitems item hi).2.1, fun item hi => (hitems item hi).2.2⟩,
      hdesired, hready, hwarming, hrunning⟩
  · rintro ⟨h, hstate⟩
    exact ⟨h.nonempty, ⟨h.min_pos, h.min_le_max⟩, h.service_pos,
      ⟨h.utilization_pos, h.utilization_le_one⟩,
      ⟨⟨h.drain_pos.le, h.cooldown_nonneg, h.window_nonneg⟩, h.drain_pos.ne'⟩,
      ⟨hstate.desired_nonneg, hstate.ready_nonneg, hstate.warming_nonneg⟩, hstate.running_le,
      fun item hi => ⟨h.timestamp_le item hi, h.queued_nonneg item hi, h.arrival_nonneg item hi⟩,
      rfl⟩

end Validator

/-! ### Demand and the policy bounds -/

def clamp (policy : AutoscalingPolicy) (target : ℤ) : ℤ :=
  min policy.maxReplicas (max policy.minReplicas target)

section Bounds

variable {policy : AutoscalingPolicy}

theorem clamp_le_max (target : ℤ) : clamp policy target ≤ policy.maxReplicas :=
  min_le_left _ _

theorem min_le_clamp (h : policy.minReplicas ≤ policy.maxReplicas) (target : ℤ) :
    policy.minReplicas ≤ clamp policy target :=
  le_min h (le_max_left _ _)

theorem clamp_mono {target target' : ℤ} (h : target ≤ target') :
    clamp policy target ≤ clamp policy target' :=
  min_le_min_left _ (max_le_max_left _ h)

theorem clamp_of_mem {target : ℤ} (hmin : policy.minReplicas ≤ target)
    (hmax : target ≤ policy.maxReplicas) : clamp policy target = target := by
  rw [clamp, max_eq_right hmin, min_eq_right hmax]

theorem demand_le_max (observation : ScaleObservation) :
    demand policy observation ≤ policy.maxReplicas :=
  clamp_le_max _

theorem min_le_demand (h : policy.minReplicas ≤ policy.maxReplicas)
    (observation : ScaleObservation) : policy.minReplicas ≤ demand policy observation :=
  min_le_clamp h _

theorem clamp_demand (h : policy.minReplicas ≤ policy.maxReplicas)
    (observation : ScaleObservation) :
    clamp policy (demand policy observation) = demand policy observation :=
  clamp_of_mem (min_le_demand h observation) (demand_le_max observation)

end Bounds

/-! ### The stabilization window -/

section Window

variable (observations : List ScaleObservation) (state : ScaleState) (policy : AutoscalingPolicy)
  (now : ℚ)

def InWindow (observation : ScaleObservation) : Prop :=
  now - policy.scaleDownStabilizationSeconds ≤ observation.timestamp

instance : DecidablePred (InWindow policy now) := fun _ => inferInstanceAs (Decidable (_ ≤ _))

/-- The observations reach back to the window start, and all in the window are below `desired`. -/
structure Supported : Prop where
  covered : ∃ observation ∈ observations,
    observation.timestamp ≤ now - policy.scaleDownStabilizationSeconds
  sampled : ∃ observation ∈ observations, InWindow policy now observation
  lower : ∀ observation ∈ observations, InWindow policy now observation →
    demand policy observation < state.desiredReplicas

structure WindowPeak (peak : ℤ) : Prop where
  attained : ∃ observation ∈ observations, InWindow policy now observation ∧
    demand policy observation = peak
  greatest : ∀ observation ∈ observations, InWindow policy now observation →
    demand policy observation ≤ peak

variable {observations state policy now}

theorem WindowPeak.unique {peak peak' : ℤ} (h : WindowPeak observations policy now peak)
    (h' : WindowPeak observations policy now peak') : peak = peak' := by
  obtain ⟨o, ho, hw, hd⟩ := h.attained
  obtain ⟨o', ho', hw', hd'⟩ := h'.attained
  exact le_antisymm (hd ▸ h'.greatest o ho hw) (hd' ▸ h.greatest o' ho' hw')

theorem Supported.peak_lt {peak : ℤ} (h : Supported observations state policy now)
    (hpeak : WindowPeak observations policy now peak) : peak < state.desiredReplicas := by
  obtain ⟨o, ho, hw, hd⟩ := hpeak.attained
  exact hd ▸ h.lower o ho hw

theorem Supported.of_perm {observations' : List ScaleObservation}
    (hperm : observations.Perm observations') (h : Supported observations state policy now) :
    Supported observations' state policy now := by
  obtain ⟨⟨o, ho, hcovered⟩, ⟨o', ho', hsampled⟩, hlower⟩ := h
  exact ⟨⟨o, hperm.mem_iff.mp ho, hcovered⟩, ⟨o', hperm.mem_iff.mp ho', hsampled⟩,
    fun x hx => hlower x (hperm.mem_iff.mpr hx)⟩

theorem WindowPeak.of_perm {observations' : List ScaleObservation} {peak : ℤ}
    (hperm : observations.Perm observations') (h : WindowPeak observations policy now peak) :
    WindowPeak observations' policy now peak := by
  obtain ⟨⟨o, ho, hattained⟩, hgreatest⟩ := h
  exact ⟨⟨o, hperm.mem_iff.mp ho, hattained⟩, fun x hx => hgreatest x (hperm.mem_iff.mpr hx)⟩

theorem stableDemand_eq_some_iff {peak : ℤ} :
    stableDemand policy now observations = some peak ↔ WindowPeak observations policy now peak := by
  unfold stableDemand
  simp only [List.max?_eq_some_iff, List.mem_map, List.mem_filter, decide_eq_true_eq]
  constructor
  · rintro ⟨⟨o, ⟨ho, hw⟩, hd⟩, hgreatest⟩
    exact ⟨⟨o, ho, hw, hd⟩, fun x hx hxw => hgreatest _ ⟨x, ⟨hx, hxw⟩, rfl⟩⟩
  · rintro ⟨⟨o, ho, hw, hd⟩, hgreatest⟩
    refine ⟨⟨o, ⟨ho, hw⟩, hd⟩, ?_⟩
    rintro _ ⟨x, ⟨hx, hxw⟩, rfl⟩
    exact hgreatest x hx hxw

theorem exists_windowPeak {observation : ScaleObservation} (ho : observation ∈ observations)
    (hw : InWindow policy now observation) : ∃ peak, WindowPeak observations policy now peak := by
  cases hpeak : stableDemand policy now observations with
  | some peak => exact ⟨peak, stableDemand_eq_some_iff.mp hpeak⟩
  | none =>
    have hempty := List.map_eq_nil_iff.mp (List.max?_eq_none_iff.mp hpeak)
    exact absurd (decide_eq_true hw) (List.filter_eq_nil_iff.mp hempty _ ho)

end Window

/-! ### Moves -/

section Moves

variable (observations : List ScaleObservation) (state : ScaleState) (policy : AutoscalingPolicy)
  (now : ℚ) (newestDemand : ℤ)

inductive Move : ℤ → String → Prop
  | matched : newestDemand = state.desiredReplicas →
      Move state.desiredReplicas "current desired capacity matches calculated token demand"
  | scaledUp : state.desiredReplicas < newestDemand →
      policy.scaleUpCooldownSeconds ≤ now - state.lastScaleAt →
      Move newestDemand "arrival and queued-token demand cleared scale-up cooldown"
  | coolingDown : state.desiredReplicas < newestDemand →
      now - state.lastScaleAt < policy.scaleUpCooldownSeconds →
      Move state.desiredReplicas "scale-up demand is inside cooldown"
  | scaledDown (peak : ℤ) : newestDemand < state.desiredReplicas →
      Supported observations state policy now → WindowPeak observations policy now peak →
      Move peak "lower token demand persisted for the full stabilization window"
  | heldDown : newestDemand < state.desiredReplicas →
      ¬ Supported observations state policy now →
      Move state.desiredReplicas "scale-down held for an incomplete or unstable window"

/-- The decision for a target, its reason and the bounds of the policy. -/
def conclude (target : ℤ) (reason : String) : ScaleDecision :=
  ⟨clamp policy target, newestDemand, state.readyReplicas *
    policy.serviceTokensPerSecondPerReplica * policy.targetUtilization,
    if clamp policy target ≠ target then
      reason ++ "; clamped from " ++ toString target ++ " to the policy bound " ++
        toString (clamp policy target)
    else reason⟩

variable {observations state policy now newestDemand}

theorem Move.unique {target target' : ℤ} {reason reason' : String}
    (h : Move observations state policy now newestDemand target reason)
    (h' : Move observations state policy now newestDemand target' reason') :
    target = target' ∧ reason = reason' := by
  cases h with
  | matched heq =>
    cases h' with
    | matched => exact ⟨rfl, rfl⟩
    | scaledUp hlt | coolingDown hlt => exact absurd heq hlt.ne'
    | scaledDown _ hlt | heldDown hlt => exact absurd heq hlt.ne
  | scaledUp hlt hcool =>
    cases h' with
    | matched heq => exact absurd heq hlt.ne'
    | scaledUp => exact ⟨rfl, rfl⟩
    | coolingDown _ hcool' => exact absurd hcool (not_le.mpr hcool')
    | scaledDown _ hgt | heldDown hgt => exact absurd hlt hgt.asymm
  | coolingDown hlt hcool =>
    cases h' with
    | matched heq => exact absurd heq hlt.ne'
    | scaledUp _ hcool' => exact absurd hcool (not_lt.mpr hcool')
    | coolingDown => exact ⟨rfl, rfl⟩
    | scaledDown _ hgt | heldDown hgt => exact absurd hlt hgt.asymm
  | scaledDown peak hlt hsupported hpeak =>
    cases h' with
    | matched heq => exact absurd heq hlt.ne
    | scaledUp hgt | coolingDown hgt => exact absurd hlt hgt.asymm
    | scaledDown _ _ _ hpeak' => exact ⟨hpeak.unique hpeak', rfl⟩
    | heldDown _ hunsupported => exact absurd hsupported hunsupported
  | heldDown hlt hunsupported =>
    cases h' with
    | matched heq => exact absurd heq hlt.ne
    | scaledUp hgt | coolingDown hgt => exact absurd hlt hgt.asymm
    | scaledDown _ _ hsupported => exact absurd hsupported hunsupported
    | heldDown => exact ⟨rfl, rfl⟩

theorem Move.of_perm {observations' : List ScaleObservation} {target : ℤ} {reason : String}
    (hperm : observations.Perm observations')
    (h : Move observations state policy now newestDemand target reason) :
    Move observations' state policy now newestDemand target reason := by
  cases h with
  | matched heq => exact .matched heq
  | scaledUp hlt hcool => exact .scaledUp hlt hcool
  | coolingDown hlt hcool => exact .coolingDown hlt hcool
  | scaledDown _ hlt hsupported hpeak =>
    exact .scaledDown _ hlt (hsupported.of_perm hperm) (hpeak.of_perm hperm)
  | heldDown hlt hunsupported =>
    exact .heldDown hlt fun hsupported => hunsupported (hsupported.of_perm hperm.symm)

/-- The first of the sorted observations decides whether the window is covered. -/
theorem supported_sortedBy_iff {oldest : ScaleObservation} {stable : ℤ}
    (holdest : (sortedBy (·.timestamp) observations).head? = some oldest)
    (hstable : stableDemand policy now (sortedBy (·.timestamp) observations) = some stable) :
    oldest.timestamp ≤ now - policy.scaleDownStabilizationSeconds ∧ stable < state.desiredReplicas ↔
      Supported observations state policy now := by
  have hperm := sortedBy_perm (·.timestamp) observations
  have hpeak := (stableDemand_eq_some_iff.mp hstable).of_perm hperm
  constructor
  · rintro ⟨hcovered, hlt⟩
    obtain ⟨o, ho, hw, -⟩ := hpeak.attained
    exact ⟨⟨oldest, hperm.mem_iff.mp (List.mem_of_head? holdest), hcovered⟩, ⟨o, ho, hw⟩,
      fun x hx hxw => (hpeak.greatest x hx hxw).trans_lt hlt⟩
  · intro h
    obtain ⟨o, ho, hcovered⟩ := h.covered
    exact ⟨(time_head?_sortedBy_le holdest ho).trans hcovered, h.peak_lt hpeak⟩

theorem decideTarget_move {oldest newest : ScaleObservation}
    (holdest : (sortedBy (·.timestamp) observations).head? = some oldest) :
    Move observations state policy now (demand policy newest)
      (decideTarget state policy now (sortedBy (·.timestamp) observations) oldest newest).1
      (decideTarget state policy now (sortedBy (·.timestamp) observations) oldest newest).2 := by
  have hperm := sortedBy_perm (·.timestamp) observations
  unfold decideTarget
  dsimp only
  split_ifs with hup hcool hdown
  · exact .scaledUp hup hcool
  · exact .coolingDown hup (not_le.mp hcool)
  · cases hstable : stableDemand policy now (sortedBy (·.timestamp) observations) with
    | none =>
      refine .heldDown hdown fun h => ?_
      obtain ⟨o, ho, hw⟩ := h.sampled
      obtain ⟨peak, hpeak⟩ := exists_windowPeak (hperm.mem_iff.mpr ho) hw
      rw [stableDemand_eq_some_iff.mpr hpeak] at hstable
      cases hstable
    | some stable =>
      dsimp only
      split_ifs with hwindow
      · exact .scaledDown stable hdown ((supported_sortedBy_iff holdest hstable).mp hwindow)
          ((stableDemand_eq_some_iff.mp hstable).of_perm hperm)
      · exact .heldDown hdown fun h => hwindow ((supported_sortedBy_iff holdest hstable).mpr h)
  · exact .matched (le_antisymm (not_lt.mp hup) (not_lt.mp hdown))

theorem exists_move (h : validate observations state policy now = .ok ()) :
    ∃ newest target reason, IsLatest (·.timestamp) observations newest ∧
      Move observations state policy now (demand policy newest) target reason ∧
      recommendReplicas observations state policy now =
        .ok (conclude state policy (demand policy newest) target reason) := by
  have hne := (validate_eq_ok_iff.mp h).1.nonempty
  have hsorted : sortedBy (·.timestamp) observations ≠ [] := fun hnil =>
    hne ((sortedBy_perm (·.timestamp) observations).symm.trans (.of_eq hnil)).eq_nil
  obtain ⟨oldest, holdest⟩ := Option.isSome_iff_exists.mp (List.isSome_head?.mpr hsorted)
  obtain ⟨newest, hnewest⟩ := Option.isSome_iff_exists.mp (List.getLast?_isSome.mpr hsorted)
  refine ⟨newest, _, _, isLatest_of_getLast?_sortedBy hnewest, decideTarget_move holdest, ?_⟩
  unfold recommendReplicas
  rw [h]
  dsimp only [bind, Except.bind]
  rw [holdest, hnewest]
  rfl

/-- Once the newest observation and the move are known, so is the decision. -/
theorem recommendReplicas_eq_conclude {newest : ScaleObservation} {target : ℤ} {reason : String}
    (h : validate observations state policy now = .ok ())
    (hnewest : IsLatest (·.timestamp) observations newest)
    (hmove : Move observations state policy now (demand policy newest) target reason) :
    recommendReplicas observations state policy now =
      .ok (conclude state policy (demand policy newest) target reason) := by
  obtain ⟨newest', target', reason', hnewest', hmove', heq⟩ := exists_move h
  obtain rfl := hnewest.unique hnewest'
  obtain ⟨rfl, rfl⟩ := hmove.unique hmove'
  exact heq

theorem validate_of_recommendReplicas {decision : ScaleDecision}
    (h : recommendReplicas observations state policy now = .ok decision) :
    validate observations state policy now = .ok () := by
  obtain ⟨_, hvalid, _⟩ := Except.bind_eq_ok_iff.mp h
  exact hvalid

/-- A returned decision concludes a move under consistent bounds. -/
theorem exists_move_of_ok {decision : ScaleDecision}
    (h : recommendReplicas observations state policy now = .ok decision) :
    policy.minReplicas ≤ policy.maxReplicas ∧ ∃ newest target reason,
      IsLatest (·.timestamp) observations newest ∧
      Move observations state policy now (demand policy newest) target reason ∧
      decision = conclude state policy (demand policy newest) target reason := by
  have hvalid := validate_of_recommendReplicas h
  obtain ⟨newest, target, reason, hnewest, hmove, heq⟩ := exists_move hvalid
  exact ⟨(validate_eq_ok_iff.mp hvalid).1.min_le_max, newest, target, reason, hnewest,
    hmove, Except.ok.inj (h.symm.trans heq)⟩

end Moves

end Autoscaling
