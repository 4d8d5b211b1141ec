import InferencePlatform.PythonBuiltins

/-!
# Autoscaling

`recommendReplicas` turns token demand and control-loop history into a target. Times, rates and
fractions are exact rationals. `decideTarget` is the part of the loop before the clamp to the
policy bounds.
-/

namespace Autoscaling

open PythonBuiltins

structure ScaleObservation where
  timestamp : ℚ
  queuedTokens : ℤ
  arrivalTokensPerSecond : ℚ
  cpuUtilization : ℚ
  deriving DecidableEq, Repr

structure ScaleState where
  desiredReplicas : ℤ
  readyReplicas : ℤ
  warmingReplicas : ℤ
  lastScaleAt : ℚ
  deriving DecidableEq, Repr

structure AutoscalingPolicy where
  minReplicas : ℤ
  maxReplicas : ℤ
  serviceTokensPerSecondPerReplica : ℚ
  targetUtilization : ℚ
  queueDrainSeconds : ℚ
  scaleUpCooldownSeconds : ℚ
  scaleDownStabilizationSeconds : ℚ
  deriving DecidableEq, Repr

structure ScaleDecision where
  targetReplicas : ℤ
  calculatedDemandReplicas : ℤ
  readyCapacityTokensPerSecond : ℚ
  reason : String
  deriving DecidableEq, Repr

section Controller

variable (observations : List ScaleObservation) (state : ScaleState) (policy : AutoscalingPolicy)
  (now : ℚ)

def validate : Except PyError Unit :=
  if observations = [] then
    throw (.valueError "at least one scale observation is required")
  else if policy.minReplicas ≤ 0 ∨ policy.maxReplicas < policy.minReplicas then
    throw (.valueError "replica bounds are invalid")
  else if policy.serviceTokensPerSecondPerReplica ≤ 0 then
    throw (.valueError "service rate must be positive")
  else if ¬ (0 < policy.targetUtilization ∧ policy.targetUtilization ≤ 1) then
    throw (.valueError "target_utilization must be in (0, 1]")
  else if pyMin policy.queueDrainSeconds
      [policy.scaleUpCooldownSeconds, policy.scaleDownStabilizationSeconds] < 0 ∨
      policy.queueDrainSeconds = 0 then
    throw (.valueError "timing windows are invalid")
  else if pyMin state.desiredReplicas [state.readyReplicas, state.warmingReplicas] < 0 then
    throw (.valueError "replica counts may not be negative")
  else if state.desiredReplicas < state.readyReplicas + state.warmingReplicas then
    throw (.valueError "ready plus warming replicas exceed desired replicas")
  else if observations.any (fun item =>
      now < item.timestamp ∨ item.queuedTokens < 0 ∨ item.arrivalTokensPerSecond < 0) then
    throw (.valueError "observations contain future timestamps or negative demand")
  else pure ()

def demand (policy : AutoscalingPolicy) (observation : ScaleObservation) : ℤ :=
  let usableRate := policy.serviceTokensPerSecondPerReplica * policy.targetUtilization
  let rateReplicas := ⌈observation.arrivalTokensPerSecond / usableRate⌉
  let queueReplicas := ⌈observation.queuedTokens /
    (policy.serviceTokensPerSecondPerReplica * policy.queueDrainSeconds)⌉
  min policy.maxReplicas (max policy.minReplicas (rateReplicas + queueReplicas))

/-- The largest demand inside the stabilization window, if an observation lies in it. -/
def stableDemand (ordered : List ScaleObservation) : Option ℤ :=
  let windowStart := now - policy.scaleDownStabilizationSeconds
  ((ordered.filter fun observation => windowStart ≤ observation.timestamp).map
    (demand policy)).max?

/-- Target and reason before the clamp; `oldest` and `newest` are the ends of `ordered`. -/
def decideTarget (ordered : List ScaleObservation) (oldest newest : ScaleObservation) :
    ℤ × String :=
  let newestDemand := demand policy newest
  if state.desiredReplicas < newestDemand then
    if policy.scaleUpCooldownSeconds ≤ now - state.lastScaleAt then
      (newestDemand, "arrival and queued-token demand cleared scale-up cooldown")
    else (state.desiredReplicas, "scale-up demand is inside cooldown")
  else if newestDemand < state.desiredReplicas then
    match stableDemand policy now ordered with
    | some stable =>
      if oldest.timestamp ≤ now - policy.scaleDownStabilizationSeconds ∧
          stable < state.desiredReplicas then
        (stable, "lower token demand persisted for the full stabilization window")
      else (state.desiredReplicas, "scale-down held for an incomplete or unstable window")
    | none => (state.desiredReplicas, "scale-down held for an incomplete or unstable window")
  else (state.desiredReplicas, "current desired capacity matches calculated token demand")

def recommendReplicas : Except PyError ScaleDecision := do
  validate observations state policy now
  let ordered := sortedBy (·.timestamp) observations
  match ordered.head?, ordered.getLast? with
  | some oldest, some newest =>
    let (target, reason) := decideTarget state policy now ordered oldest newest
    let bounded := min policy.maxReplicas (max policy.minReplicas target)
    let reason :=
      if bounded ≠ target then
        reason ++ "; clamped from " ++ toString target ++ " to the policy bound " ++
          toString bounded
      else reason
    let readyCapacity := state.readyReplicas * policy.serviceTokensPerSecondPerReplica *
      policy.targetUtilization
    pure ⟨bounded, demand policy newest, readyCapacity, reason⟩
  | _, _ => throw .indexError

variable {observations state policy now}

/-- One observation that is younger than the stabilization window never lowers the fleet. -/
theorem recommendReplicas_of_recent {observation : ScaleObservation} {decision : ScaleDecision}
    (hrecent : now - policy.scaleDownStabilizationSeconds < observation.timestamp)
    (hdemand : demand policy observation ≤ state.desiredReplicas)
    (h : recommendReplicas [observation] state policy now = .ok decision) :
    decision.targetReplicas =
      min policy.maxReplicas (max policy.minReplicas state.desiredReplicas) := by
  obtain ⟨_, -, h⟩ := Except.bind_eq_ok_iff.mp h
  obtain rfl := Except.ok.inj h
  have htarget : (decideTarget state policy now [observation] observation observation).1 =
      state.desiredReplicas := by
    unfold decideTarget
    rw [if_neg (not_lt.mpr hdemand)]
    split_ifs
    · cases stableDemand policy now [observation] with
      | none => rfl
      | some stable =>
          dsimp only
          rw [if_neg fun hwindow => not_le.mpr hrecent hwindow.1]
    · rfl
  exact congrArg (fun target => min policy.maxReplicas (max policy.minReplicas target)) htarget

end Controller

end Autoscaling
