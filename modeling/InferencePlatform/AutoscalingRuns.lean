import InferencePlatform.AutoscalingLoop

/-!
# Long runs of the control loop

`controlStep` is one tick of a loop that writes the target into the state and, when the target is
a new one, the time of the scaling action. A band of demands is absorbing and, once the cooldown
is over, attracting; and a raise that the policy floor does not force is at least a cooldown away
from every move before it.
-/

namespace Autoscaling

open PythonBuiltins Timelines CallRuns

/-- The state after a decision; `last_scale_at` is the time of the last change of `desired`. -/
def record (state : ScaleState) (decision : ScaleDecision) (now : ℚ) : ScaleState :=
  { state with
    desiredReplicas := decision.targetReplicas
    lastScaleAt :=
      if decision.targetReplicas = state.desiredReplicas then state.lastScaleAt else now }

def controlStep (state : ScaleState) (tick : Tick) : Except PyError ScaleDecision × ScaleState :=
  let reported := tick.reported state
  match recommendReplicas tick.observations reported tick.policy tick.now with
  | .ok decision => (.ok decision, record reported decision tick.now)
  | .error e => (.error e, reported)

section Steps

variable {state : ScaleState} {tick : Tick} {decision : ScaleDecision}

theorem controlStep_of_ok
    (h : recommendReplicas tick.observations (tick.reported state) tick.policy tick.now =
      .ok decision) :
    controlStep state tick = (.ok decision, record (tick.reported state) decision tick.now) := by
  simp only [controlStep, h]

theorem controlStep_of_error {e : PyError}
    (h : recommendReplicas tick.observations (tick.reported state) tick.policy tick.now =
      .error e) : controlStep state tick = (.error e, tick.reported state) := by
  simp only [controlStep, h]

/-- A tick decides and records its decision, or it raises and changes no more than the report. -/
theorem controlStep_cases (state : ScaleState) (tick : Tick) :
    (∃ decision, recommendReplicas tick.observations (tick.reported state) tick.policy tick.now =
        .ok decision ∧
      controlStep state tick = (.ok decision, record (tick.reported state) decision tick.now)) ∨
    ∃ e, controlStep state tick = (.error e, tick.reported state) := by
  cases heq : recommendReplicas tick.observations (tick.reported state) tick.policy tick.now with
  | ok decision => exact .inl ⟨decision, rfl, controlStep_of_ok heq⟩
  | error e => exact .inr ⟨e, controlStep_of_error heq⟩

@[simp] theorem reported_desiredReplicas (tick : Tick) (state : ScaleState) :
    (tick.reported state).desiredReplicas = state.desiredReplicas := rfl

@[simp] theorem reported_lastScaleAt (tick : Tick) (state : ScaleState) :
    (tick.reported state).lastScaleAt = state.lastScaleAt := rfl

@[simp] theorem record_desiredReplicas (state : ScaleState) (decision : ScaleDecision) (now : ℚ) :
    (record state decision now).desiredReplicas = decision.targetReplicas := rfl

theorem record_lastScaleAt_of_eq {now : ℚ}
    (h : decision.targetReplicas = state.desiredReplicas) :
    (record state decision now).lastScaleAt = state.lastScaleAt := if_pos h

end Steps

/-! ### Demand in a band -/

section Band

variable {lo hi : ℤ}

/-- The observations reach back over a whole window, in which every demand lies in the band. -/
structure Calm (lo hi : ℤ) (tick : Tick) : Prop where
  covered : ∃ o ∈ tick.observations,
    o.timestamp ≤ tick.now - tick.policy.scaleDownStabilizationSeconds
  sampled : ∃ o ∈ tick.observations, InWindow tick.policy tick.now o
  band : ∀ o ∈ tick.observations, InWindow tick.policy tick.now o →
    lo ≤ demand tick.policy o ∧ demand tick.policy o ≤ hi

def InBand (lo hi : ℤ) (state : ScaleState) : Prop :=
  lo ≤ state.desiredReplicas ∧ state.desiredReplicas ≤ hi

/-- One decision on calm demand: into the band, or a scale-up that is inside the cooldown. -/
theorem Calm.target {state : ScaleState} {tick : Tick} {decision : ScaleDecision}
    (h : Calm lo hi tick)
    (heq : recommendReplicas tick.observations state tick.policy tick.now = .ok decision) :
    (lo ≤ decision.targetReplicas ∧ decision.targetReplicas ≤ hi) ∨
      (state.desiredReplicas < lo ∧
        tick.now - state.lastScaleAt < tick.policy.scaleUpCooldownSeconds ∧
        decision.targetReplicas = clamp tick.policy state.desiredReplicas) := by
  obtain ⟨hbounds, newest, target, reason, hnewest, hmove, rfl⟩ := exists_move_of_ok heq
  obtain ⟨o, ho, hw⟩ := h.sampled
  obtain ⟨hlo, hhi⟩ := h.band newest hnewest.mem (le_trans hw (hnewest.time_le ho))
  have hmin := min_le_demand hbounds newest
  have hmax : demand tick.policy newest ≤ tick.policy.maxReplicas := demand_le_max newest
  have hclamp := clamp_demand hbounds newest
  change (lo ≤ clamp tick.policy target ∧ clamp tick.policy target ≤ hi) ∨
    _ ∧ _ ∧ clamp tick.policy target = _
  cases hmove with
  | matched hmatched =>
      left
      rw [← hmatched, hclamp]
      exact ⟨hlo, hhi⟩
  | scaledUp hup hcool =>
      left
      rw [hclamp]
      exact ⟨hlo, hhi⟩
  | coolingDown hup hcool =>
      by_cases hbelow : state.desiredReplicas < lo
      · exact .inr ⟨hbelow, hcool, rfl⟩
      · left
        unfold clamp
        omega
  | scaledDown peak hdown hsupported hpeak =>
      left
      obtain ⟨o, ho, hw, hd⟩ := hpeak.attained
      rw [hpeak.clamp_eq hbounds, ← hd]
      exact h.band o ho hw
  | heldDown hdown hunsupported =>
      left
      have hle : state.desiredReplicas ≤ hi := by
        by_contra! hlt
        exact hunsupported ⟨h.covered, h.sampled, fun o ho hw => (h.band o ho hw).2.trans_lt hlt⟩
      unfold clamp
      omega

/-- Once the cooldown is over, an answer brings the fleet into the band. -/
theorem Calm.target_of_cooled {state : ScaleState} {tick : Tick} {decision : ScaleDecision}
    (h : Calm lo hi tick)
    (heq : recommendReplicas tick.observations state tick.policy tick.now = .ok decision)
    (hcool : state.lastScaleAt + tick.policy.scaleUpCooldownSeconds ≤ tick.now) :
    lo ≤ decision.targetReplicas ∧ decision.targetReplicas ≤ hi := by
  rcases h.target heq with hband | ⟨-, hcooling, -⟩
  · exact hband
  · exact absurd hcooling (not_lt.mpr (le_sub_iff_add_le'.mpr hcool))

/-- From `start` on, calm demand brings the fleet into the band or leaves it where it is. -/
def Settling (lo hi : ℤ) (start state : ScaleState) : Prop :=
  InBand lo hi state ∨ (state.desiredReplicas = start.desiredReplicas ∧
    state.lastScaleAt = start.lastScaleAt)

theorem InBand.step {state : ScaleState} {tick : Tick} (hstate : InBand lo hi state)
    (h : Calm lo hi tick) : InBand lo hi (controlStep state tick).2 := by
  rcases controlStep_cases state tick with ⟨decision, heq, hstep⟩ | ⟨e, hstep⟩
  · rw [hstep]
    rcases h.target heq with hband | ⟨hbelow, -⟩
    · exact hband
    · exact absurd hstate.1 (not_le.mpr hbelow)
  · rw [hstep]
    exact hstate

theorem Settling.step {start state : ScaleState} {tick : Tick}
    (hmin : tick.policy.minReplicas ≤ start.desiredReplicas) (hstate : Settling lo hi start state)
    (h : Calm lo hi tick) : Settling lo hi start (controlStep state tick).2 := by
  rcases hstate with hband | ⟨hdesired, hlast⟩
  · exact .inl (hband.step h)
  · rcases controlStep_cases state tick with ⟨decision, heq, hstep⟩ | ⟨e, hstep⟩
    · rw [hstep]
      rcases h.target heq with hband | ⟨hbelow, -, htarget⟩
      · exact .inl hband
      · obtain ⟨o, ho, hw⟩ := h.sampled
        have hmax := (h.band o ho hw).1.trans (demand_le_max o)
        rw [reported_desiredReplicas, hdesired] at hbelow htarget
        rw [clamp_of_mem hmin (by omega)] at htarget
        refine .inr ⟨htarget, ?_⟩
        rw [record_lastScaleAt_of_eq (by simp [htarget, hdesired]), reported_lastScaleAt, hlast]
    · rw [hstep]
      exact .inr ⟨hdesired, hlast⟩

theorem Settling.run {start : ScaleState} {ticks : List Tick}
    (hcalm : ∀ tick ∈ ticks, Calm lo hi tick)
    (hmin : ∀ tick ∈ ticks, tick.policy.minReplicas ≤ start.desiredReplicas) (state : ScaleState)
    (hstate : Settling lo hi start state) :
    Settling lo hi start (finalState controlStep state ticks) := by
  induction ticks generalizing state with
  | nil => exact hstate
  | cons tick ticks ih =>
      obtain ⟨htick, hticks⟩ := List.forall_mem_cons.mp hcalm
      obtain ⟨hfloor, hfloors⟩ := List.forall_mem_cons.mp hmin
      exact ih hticks hfloors _ (hstate.step hfloor htick)

/-- The decision at `tick` is made once the cooldown is over, counted from the last change so far,
or from the last change before the run if no policy floor so far is above the starting count. -/
def Cooled (state : ScaleState) (before : List Tick) (tick : Tick) : Prop :=
  (finalState controlStep state before).lastScaleAt + tick.policy.scaleUpCooldownSeconds ≤
      tick.now ∨
    (∀ earlier ∈ before, earlier.policy.minReplicas ≤ state.desiredReplicas) ∧
      state.lastScaleAt + tick.policy.scaleUpCooldownSeconds ≤ tick.now

theorem Cooled.target {state : ScaleState} {before : List Tick} {tick : Tick}
    {decision : ScaleDecision} (h : Cooled state before tick)
    (hbefore : ∀ earlier ∈ before, Calm lo hi earlier) (hcalm : Calm lo hi tick)
    (heq : recommendReplicas tick.observations
      (tick.reported (finalState controlStep state before)) tick.policy tick.now = .ok decision) :
    lo ≤ decision.targetReplicas ∧ decision.targetReplicas ≤ hi := by
  rcases h with hcool | ⟨hmin, hcool⟩
  · exact hcalm.target_of_cooled heq hcool
  · have hreached : Settling lo hi state (finalState controlStep state before) :=
      Settling.run hbefore hmin state (.inr ⟨rfl, rfl⟩)
    rcases hreached with hin | ⟨-, hlast⟩
    · have hin' := hin.step hcalm
      rwa [controlStep_of_ok heq] at hin'
    · exact hcalm.target_of_cooled heq (by rwa [reported_lastScaleAt, hlast])

theorem InBand.run {state : ScaleState} {ticks : List Tick} (hstate : InBand lo hi state)
    (hcalm : ∀ tick ∈ ticks, Calm lo hi tick) :
    ∀ entry ∈ trace controlStep state ticks, InBand lo hi entry.state := by
  refine forall_mem_trace controlStep (P := fun entry => InBand lo hi entry.state)
    (Q := fun _ tick => Calm lo hi tick) (fun s tick hs h => ⟨hs.step h, hs.step h⟩) state hstate
    ticks ?_
  rintro before tick after rfl
  exact hcalm tick (List.mem_append_right _ List.mem_cons_self)

/-- An answer after the cooldown brings the fleet into the band, and there it stays. The ticks may
differ in their policies, and the starting count may lie anywhere. -/
theorem loop_settles {state : ScaleState} {ticks : List Tick}
    (hcalm : ∀ tick ∈ ticks, Calm lo hi tick) {before after : List Tick} {tick : Tick}
    {decision : ScaleDecision} (hsplit : ticks = before ++ tick :: after)
    (hok : (controlStep (finalState controlStep state before) tick).1 = .ok decision)
    (hcool : Cooled state before tick) :
    (lo ≤ decision.targetReplicas ∧ decision.targetReplicas ≤ hi) ∧
      ∀ entry ∈ trace controlStep (finalState controlStep state (before ++ [tick])) after,
        InBand lo hi entry.state := by
  rw [hsplit, List.forall_mem_append, List.forall_mem_cons] at hcalm
  obtain ⟨hbefore, htick, hafter⟩ := hcalm
  rcases controlStep_cases (finalState controlStep state before) tick with
    ⟨decision', heq, hstep⟩ | ⟨e, hstep⟩
  · rw [hstep] at hok
    obtain rfl := Except.ok.inj hok
    have hband := hcool.target hbefore htick heq
    have hin : InBand lo hi (finalState controlStep state (before ++ [tick])) := by
      rw [finalState_concat, hstep]
      exact hband
    exact ⟨hband, hin.run hafter⟩
  · rw [hstep] at hok
    cases hok

theorem calm_steady {now : ℚ} (h60 : 60 ≤ now) (h120 : now ≤ 120) :
    Calm 1 1 ⟨steadyObservations, samplePolicy, now, 1, 0⟩ := by
  have hwindow : samplePolicy.scaleDownStabilizationSeconds = 60 := rfl
  refine ⟨⟨⟨0, 0, 20, 1 / 10⟩, by simp [steadyObservations], ?_⟩,
    ⟨⟨60, 0, 20, 1 / 10⟩, by simp [steadyObservations], ?_⟩, ?_⟩
  · dsimp only
    rw [hwindow]
    linarith
  · rw [InWindow, hwindow]
    linarith
  · intro o ho _
    dsimp only
    simp only [steadyObservations, List.mem_cons, List.not_mem_nil, or_false] at ho
    rcases ho with rfl | rfl <;> decide +kernel

theorem loop_settles_steady :
    (trace controlStep (finalState controlStep ⟨3, 1, 0, 0⟩
        ([] ++ [⟨steadyObservations, samplePolicy, 60, 1, 0⟩]))
        [⟨steadyObservations, samplePolicy, 90, 1, 0⟩]).Forall
      fun entry => InBand 1 1 entry.state := by
  have hok : (controlStep ⟨3, 1, 0, 0⟩ ⟨steadyObservations, samplePolicy, 60, 1, 0⟩).1 =
      .ok ⟨1, 1, 80, "lower token demand persisted for the full stabilization window"⟩ := by
    decide +kernel
  have hcalm : ∀ tick ∈ [(⟨steadyObservations, samplePolicy, 60, 1, 0⟩ : Tick),
      ⟨steadyObservations, samplePolicy, 90, 1, 0⟩], Calm 1 1 tick := by
    rintro tick htick
    simp only [List.mem_cons, List.not_mem_nil, or_false] at htick
    rcases htick with rfl | rfl
    · exact calm_steady le_rfl (by norm_num)
    · exact calm_steady (by norm_num) (by norm_num)
  have hcool : Cooled ⟨3, 1, 0, 0⟩ [] ⟨steadyObservations, samplePolicy, 60, 1, 0⟩ :=
    .inl (by decide +kernel)
  exact List.forall_iff_forall_mem.mpr
    (@loop_settles 1 1 ⟨3, 1, 0, 0⟩ _ hcalm [] _ _ _ rfl hok hcool).2

end Band

/-! ### Moves over a run -/

/-- A change of the desired count, with the policy floor it was made under. -/
structure Change where
  time : ℚ
  before : ℤ
  after : ℤ
  floor : ℤ

def Change.Raise (change : Change) : Prop := change.before < change.after

/-- A raise that the policy floor does not force. -/
def Change.ScaleUp (change : Change) : Prop := max change.floor change.before < change.after

def Change.Within (a b : ℚ) (change : Change) : Prop := a ≤ change.time ∧ change.time ≤ b

instance : DecidablePred Change.Raise := fun _ => inferInstanceAs (Decidable (_ < _))

instance : DecidablePred Change.ScaleUp := fun _ => inferInstanceAs (Decidable (_ < _))

instance (a b : ℚ) : DecidablePred (Change.Within a b) :=
  fun _ => inferInstanceAs (Decidable (_ ∧ _))

def changes : ScaleState → List Tick → List Change
  | _, [] => []
  | state, tick :: ticks =>
    let state' := (controlStep state tick).2
    if state'.desiredReplicas = state.desiredReplicas then changes state' ticks
    else ⟨tick.now, state.desiredReplicas, state'.desiredReplicas, tick.policy.minReplicas⟩ ::
      changes state' ticks

section Changes

variable {state : ScaleState} {tick : Tick} {ticks : List Tick} {t cooldown : ℚ}

theorem lastScaleAt_controlStep (state : ScaleState) (tick : Tick) :
    (controlStep state tick).2.lastScaleAt =
      if (controlStep state tick).2.desiredReplicas = state.desiredReplicas then state.lastScaleAt
      else tick.now := by
  rcases controlStep_cases state tick with ⟨decision, -, hstep⟩ | ⟨e, hstep⟩
  · rw [hstep]
    rfl
  · rw [hstep]
    exact (if_pos rfl).symm

/-- A tick adds its change of the desired count to those of the rest of the run, if it makes one. -/
theorem changes_cons (state : ScaleState) (tick : Tick) (ticks : List Tick) :
    ((controlStep state tick).2.desiredReplicas = state.desiredReplicas ∧
      changes state (tick :: ticks) = changes (controlStep state tick).2 ticks) ∨
    ((controlStep state tick).2.desiredReplicas ≠ state.desiredReplicas ∧
      changes state (tick :: ticks) = ⟨tick.now, state.desiredReplicas,
        (controlStep state tick).2.desiredReplicas, tick.policy.minReplicas⟩ ::
          changes (controlStep state tick).2 ticks) := by
  by_cases hsame : (controlStep state tick).2.desiredReplicas = state.desiredReplicas
  · exact .inl ⟨hsame, if_pos hsame⟩
  · exact .inr ⟨hsame, if_neg hsame⟩

/-- A scale-up has waited for the cooldown. -/
theorem cooldown_le_of_scaleUp
    (hup : max tick.policy.minReplicas state.desiredReplicas <
      (controlStep state tick).2.desiredReplicas) :
    tick.policy.scaleUpCooldownSeconds ≤ tick.now - state.lastScaleAt := by
  rcases controlStep_cases state tick with ⟨decision, heq, hstep⟩ | ⟨e, hstep⟩
  · rw [hstep] at hup
    obtain ⟨-, newest, -, -, hnewest, -⟩ := exists_move_of_ok heq
    exact (scaledUp_of_lt_target hnewest heq ((min_le_right _ _).trans_lt hup)).2.2
  · rw [hstep] at hup
    exact absurd (le_max_right _ _) (not_le.mpr hup)

theorem add_cooldown_le_of_mem_changes
    (hcooldown : ∀ tick ∈ ticks, cooldown ≤ tick.policy.scaleUpCooldownSeconds)
    (hlater : ∀ tick ∈ ticks, t ≤ tick.now) (hlast : t ≤ state.lastScaleAt) :
    ∀ change ∈ changes state ticks, change.ScaleUp → t + cooldown ≤ change.time := by
  induction ticks generalizing state with
  | nil => simp [changes]
  | cons tick ticks ih =>
      simp only [List.forall_mem_cons] at hcooldown hlater
      have hlast' : t ≤ (controlStep state tick).2.lastScaleAt := by
        rw [lastScaleAt_controlStep]
        split_ifs
        · exact hlast
        · exact hlater.1
      have ih' := ih hcooldown.2 hlater.2 hlast'
      rcases changes_cons state tick ticks with ⟨-, hrest⟩ | ⟨-, hrest⟩
      · rw [hrest]
        exact ih'
      · rw [hrest]
        refine List.forall_mem_cons.mpr ⟨fun hup => ?_, ih'⟩
        have hwaited := cooldown_le_of_scaleUp hup
        dsimp only
        linarith [hcooldown.1]

theorem pairwise_changes (hsorted : ticks.Pairwise (fun a b => a.now ≤ b.now))
    (hcooldown : ∀ tick ∈ ticks, cooldown ≤ tick.policy.scaleUpCooldownSeconds)
    (state : ScaleState) : (changes state ticks).Pairwise
      (fun before after => after.ScaleUp → before.time + cooldown ≤ after.time) := by
  induction ticks generalizing state with
  | nil => exact List.Pairwise.nil
  | cons tick ticks ih =>
      obtain ⟨htick, hticks⟩ := List.pairwise_cons.mp hsorted
      obtain ⟨-, hcooldown'⟩ := List.forall_mem_cons.mp hcooldown
      have ih' := ih hticks hcooldown' (controlStep state tick).2
      rcases changes_cons state tick ticks with ⟨-, hrest⟩ | ⟨hmoved, hrest⟩
      · rw [hrest]
        exact ih'
      · rw [hrest]
        refine List.pairwise_cons.mpr ⟨?_, ih'⟩
        apply add_cooldown_le_of_mem_changes hcooldown' htick
        rw [lastScaleAt_controlStep, if_neg hmoved]

/-! ### Raises to the floor -/

theorem floor_le_controlStep (h : tick.policy.minReplicas ≤ state.desiredReplicas ∨
      (controlStep state tick).2.desiredReplicas ≠ state.desiredReplicas) :
    tick.policy.minReplicas ≤ (controlStep state tick).2.desiredReplicas := by
  rcases controlStep_cases state tick with ⟨decision, heq, hstep⟩ | ⟨e, hstep⟩
  · rw [hstep]
    exact (target_mem_bounds heq).1
  · rw [hstep] at h ⊢
    exact h.resolve_right fun hne => hne rfl

/-- A fleet at or above the floor of every tick is never raised by a floor. -/
theorem scaleUp_of_raise {floor : ℤ} (hfloor : ∀ tick ∈ ticks, tick.policy.minReplicas = floor)
    (hstate : floor ≤ state.desiredReplicas) :
    ∀ change ∈ changes state ticks, change.Raise → change.ScaleUp := by
  induction ticks generalizing state with
  | nil => simp [changes]
  | cons tick ticks ih =>
      obtain ⟨htick, hticks⟩ := List.forall_mem_cons.mp hfloor
      have ih' := ih hticks (htick ▸ floor_le_controlStep (.inl (htick ▸ hstate)))
      rcases changes_cons state tick ticks with ⟨-, hrest⟩ | ⟨-, hrest⟩
      · rw [hrest]
        exact ih'
      · rw [hrest]
        refine List.forall_mem_cons.mpr ⟨fun hraise => max_lt ?_ hraise, ih'⟩
        exact (htick.le.trans hstate).trans_lt hraise

/-- Under one floor at most one raise, the first change of the run, is forced by it. -/
theorem countP_raise_le {floor : ℤ} (hfloor : ∀ tick ∈ ticks, tick.policy.minReplicas = floor)
    (state : ScaleState) (a b : ℚ) :
    (changes state ticks).countP (fun change => change.Raise ∧ change.Within a b) ≤
      (changes state ticks).countP (fun change => change.ScaleUp ∧ change.Within a b) + 1 := by
  induction ticks generalizing state with
  | nil => simp [changes]
  | cons tick ticks ih =>
      obtain ⟨htick, hticks⟩ := List.forall_mem_cons.mp hfloor
      rcases changes_cons state tick ticks with ⟨-, hrest⟩ | ⟨hmoved, hrest⟩
      · rw [hrest]
        exact ih hticks _
      · rw [hrest]
        have hforced := scaleUp_of_raise hticks (htick ▸ floor_le_controlStep (.inr hmoved))
        have htail : (changes (controlStep state tick).2 ticks).countP
              (fun change => change.Raise ∧ change.Within a b) ≤
            (changes (controlStep state tick).2 ticks).countP
              (fun change => change.ScaleUp ∧ change.Within a b) :=
          List.countP_mono_left fun change hchange hraise => by
            obtain ⟨hraise, hwithin⟩ := of_decide_eq_true hraise
            exact decide_eq_true ⟨hforced change hchange hraise, hwithin⟩
        rw [List.countP_cons, List.countP_cons]
        split_ifs <;> omega

/-- Every raise that is not forced by the policy floor is at least a cooldown after every earlier
change, so that a span of time holds at most one of them for each cooldown in it, and one more.
While the floor stays the same, it forces one raise at most. -/
theorem scaleUps_rateLimited (hsorted : ticks.Pairwise (fun a b => a.now ≤ b.now))
    (hcooldown : ∀ tick ∈ ticks, cooldown ≤ tick.policy.scaleUpCooldownSeconds)
    (hnonneg : 0 ≤ cooldown) (state : ScaleState) :
    (changes state ticks).Pairwise
      (fun before after => after.ScaleUp → before.time + cooldown ≤ after.time) ∧
    (∀ a b : ℚ, a ≤ b →
      (changes state ticks).countP (fun change => change.ScaleUp ∧ change.Within a b) * cooldown ≤
        b - a + cooldown) ∧
    ∀ floor : ℤ, (∀ tick ∈ ticks, tick.policy.minReplicas = floor) → ∀ a b : ℚ, a ≤ b →
      (changes state ticks).countP (fun change => change.Raise ∧ change.Within a b) * cooldown ≤
        b - a + 2 * cooldown := by
  have hpairwise := pairwise_changes hsorted hcooldown state
  have hspan (a b : ℚ) (hab : a ≤ b) :
      (changes state ticks).countP (fun change => change.ScaleUp ∧ change.Within a b) * cooldown ≤
        b - a + cooldown := by
    have hups : (((changes state ticks).filter
        (fun change => change.ScaleUp ∧ change.Within a b)).map Change.time).Pairwise
          (fun t u => t + cooldown ≤ u) := by
      rw [List.pairwise_map]
      refine (hpairwise.filter _).imp_of_mem ?_
      intro before after _ hafter hgap
      exact hgap (of_decide_eq_true (List.mem_filter.mp hafter).2).1
    have hcount := length_mul_gap_le (a := a) (b := b) (by linarith) hups (fun t ht => by
      obtain ⟨change, hchange, rfl⟩ := List.mem_map.mp ht
      exact (of_decide_eq_true (List.mem_filter.mp hchange).2).2)
    rwa [List.length_map, ← List.countP_eq_length_filter] at hcount
  refine ⟨hpairwise, hspan, fun floor hfloor a b hab => ?_⟩
  have hraises : ((changes state ticks).countP
        (fun change => change.Raise ∧ change.Within a b) : ℚ) ≤
      (changes state ticks).countP (fun change => change.ScaleUp ∧ change.Within a b) + 1 := by
    exact_mod_cast countP_raise_le hfloor state a b
  have hscaled := mul_le_mul_of_nonneg_right hraises hnonneg
  linarith [hspan a b hab]

/-- The fleet of one is first raised to the floor of two, at once, and then by demand. -/
theorem scaleUps_rateLimited_sample :
    let policy : AutoscalingPolicy := ⟨2, 10, 100, 4 / 5, 10, 5, 60⟩
    (changes ⟨1, 1, 0, 9⟩ [⟨[⟨9, 0, 150, 0⟩], policy, 10, 1, 0⟩,
        ⟨[⟨12, 0, 300, 0⟩], policy, 13, 1, 1⟩,
        ⟨[⟨14, 0, 300, 0⟩], policy, 15, 1, 1⟩]).countP
      (fun change => change.Raise ∧ change.Within 10 15) * 5 ≤ (15 : ℚ) - 10 + 2 * 5 := by
  intro policy
  refine (scaleUps_rateLimited (by simp; norm_num) ?_ (by norm_num) ⟨1, 1, 0, 9⟩).2.2 2 ?_ 10 15
    (by norm_num)
  · simp [policy]
  · simp [policy]

end Changes

end Autoscaling
