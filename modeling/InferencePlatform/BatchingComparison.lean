import InferencePlatform.BatchingRecurrence
import InferencePlatform.Timelines

/-!
# Two runs of the batching simulator

Continuous batching has no anomalies: fewer or shorter requests and more lanes delay nobody,
because the original starts are a valid schedule of the reduced workload and the simulator beats
every valid one. In either mode the result depends neither on the order in which the requests are
given nor on the origin of time.
-/

namespace Batching

open PythonBuiltins LaneSchedule Timelines

/-! ### Reduced workloads -/

/-- The request `k` with no more tokens to emit. -/
structure Lowered (r k : BatchRequest) : Prop where
  identifier_eq : r.identifier = k.identifier
  arrival_eq : r.arrivalStep = k.arrivalStep
  output_pos : 1 ≤ r.outputTokens
  output_le : r.outputTokens ≤ k.outputTokens

section Reduced

variable {requests kept reduced : List BatchRequest} {capacity capacity' : ℤ}
  {mode : BatchMode}

theorem Lowered.queueKey_eq {r k : BatchRequest} (h : Lowered r k) : queueKey r = queueKey k := by
  rw [queueKey, queueKey, h.identifier_eq, h.arrival_eq]

theorem exists_lowered (hkept : kept.Sublist requests)
    (hlowered : List.Forall₂ Lowered reduced kept) :
    ∀ r ∈ reduced, ∃ k ∈ requests, Lowered r k := by
  intro r hr
  obtain ⟨k, hk, hrk⟩ := exists_mem_of_forall₂ hlowered hr
  exact ⟨k, hkept.subset hk, hrk⟩

theorem map_identifier_lowered (hlowered : List.Forall₂ Lowered reduced kept) :
    reduced.map (·.identifier) = kept.map (·.identifier) := by
  induction hlowered with
  | nil => rfl
  | cons hrk _ ih => rw [List.map_cons, List.map_cons, hrk.identifier_eq, ih]

theorem Accepted.of_lowered (h : Accepted requests) (hkept : kept.Sublist requests)
    (hlowered : List.Forall₂ Lowered reduced kept) (hne : reduced ≠ []) : Accepted reduced := by
  have hmem := exists_lowered hkept hlowered
  constructor
  case nonempty => exact hne
  case named =>
    intro r hr
    obtain ⟨k, hk, hrk⟩ := hmem r hr
    rw [hrk.identifier_eq]
    exact h.named k hk
  case unique =>
    rw [map_identifier_lowered hlowered]
    exact h.unique.sublist (hkept.map _)
  case arrival_nonneg =>
    intro r hr
    obtain ⟨k, hk, hrk⟩ := hmem r hr
    rw [hrk.arrival_eq]
    exact h.arrival_nonneg k hk
  case output_pos =>
    intro r hr
    obtain ⟨k, -, hrk⟩ := hmem r hr
    exact hrk.output_pos

/-- The starts of the original requests schedule the reduced ones. -/
theorem Schedule.valid_reduced {start : BatchRequest → ℤ} {run : BatchRun}
    (h : Accepted requests) (h' : Accepted reduced)
    (hschedule : Schedule requests capacity mode start run) (orig : BatchRequest → BatchRequest)
    (hmem : ∀ r ∈ reduced, orig r ∈ requests) (horig : ∀ r ∈ reduced, Lowered r (orig r)) :
    Valid BatchRequest.arrivalStep BatchRequest.outputTokens (fun r => start (orig r)) capacity
      (sortedBy queueKey reduced) := by
  have hsorted (r : BatchRequest) (hr : r ∈ sortedBy queueKey reduced) : r ∈ reduced :=
    (mem_sortedBy queueKey).mp hr
  have hids : ((sortedBy queueKey reduced).map orig).map (·.identifier) =
      (sortedBy queueKey reduced).map (·.identifier) := by
    rw [List.map_map]
    apply List.map_congr_left
    intro r hr
    exact (horig r (hsorted r hr)).identifier_eq.symm
  apply hschedule.valid.shortened orig
  · exact fun r hr => (mem_sortedBy queueKey).mpr (hmem r (hsorted r hr))
  · exact List.Nodup.of_map _ (hids ▸ (queue_sortedBy h').unique)
  · exact fun r hr => (horig r (hsorted r hr)).arrival_eq
  · exact fun r hr => (horig r (hsorted r hr)).output_le
  · refine (pairwise_sortedBy queueKey reduced).imp_of_mem ?_
    intro r k hr hk hle
    have hr := hsorted r hr
    have hk := hsorted k hk
    rw [(horig r hr).queueKey_eq, (horig k hk).queueKey_eq] at hle
    exact hschedule.fifo h _ (hmem r hr) _ (hmem k hk) hle

/-- Continuous batching has no anomalies. -/
theorem continuous_no_anomaly (h : Accepted requests) (hkept : kept.Sublist requests)
    (hlowered : List.Forall₂ Lowered reduced kept) (hne : reduced ≠ [])
    (hcapacity : 1 ≤ capacity) (hle : capacity ≤ capacity') :
    ∃ run run', Returns requests capacity .continuous run ∧
      Returns reduced capacity' .continuous run' ∧
      (run'.completions.map (·.identifier)).Perm (reduced.map (·.identifier)) ∧
      ∀ c' ∈ run'.completions, ∃ c ∈ run.completions, c.identifier = c'.identifier ∧
        c'.firstServiceStep ≤ c.firstServiceStep ∧ c'.completionStep ≤ c.completionStep := by
  have h' := h.of_lowered hkept hlowered hne
  obtain ⟨start, run, hrec, hreturns, -⟩ := exists_recurrence h hcapacity .continuous
  obtain ⟨start', run', hrec', hreturns', -⟩ :=
    exists_recurrence h' (hcapacity.trans hle) .continuous
  have : Nonempty BatchRequest := ⟨"", 0, 0⟩
  choose! orig hmem horig using exists_lowered hkept hlowered
  have hvalid := (hrec.valid_reduced h h' orig hmem horig).mono hle
  have hstart := start_le_of_keepsBusy _ _ _ hrec'.keepsBusy hvalid (queue_sortedBy h').output_pos
  refine ⟨run, run', hreturns, hreturns', hrec'.identifiers, ?_⟩
  intro c' hc'
  obtain ⟨r, hr, rfl⟩ := hrec'.mem_completions.mp hc'
  have hrk := horig r hr
  have hle' := hstart r ((mem_sortedBy queueKey).mpr hr)
  refine ⟨_, hrec.mem_completions.mpr ⟨orig r, hmem r hr, rfl⟩, hrk.identifier_eq.symm, hle', ?_⟩
  exact add_le_add hle' hrk.output_le

end Reduced

theorem continuous_no_anomaly_example :
    ∃ run run',
      Returns [⟨"long", 0, 5⟩, ⟨"late", 7, 1⟩, ⟨"short", 0, 1⟩] 1 .continuous run ∧
      Returns [⟨"long", 0, 2⟩, ⟨"late", 7, 1⟩] 2 .continuous run' ∧
      ∀ c' ∈ run'.completions, ∃ c ∈ run.completions, c.identifier = c'.identifier ∧
        c'.firstServiceStep ≤ c.firstServiceStep ∧ c'.completionStep ≤ c.completionStep := by
  have hkept : [⟨"long", 0, 5⟩, ⟨"late", 7, 1⟩].Sublist
      ([⟨"long", 0, 5⟩, ⟨"late", 7, 1⟩, ⟨"short", 0, 1⟩] : List BatchRequest) := by decide
  have hlowered : List.Forall₂ Lowered [⟨"long", 0, 2⟩, ⟨"late", 7, 1⟩]
      [⟨"long", 0, 5⟩, ⟨"late", 7, 1⟩] :=
    .cons ⟨rfl, rfl, by decide, by decide⟩ (.cons ⟨rfl, rfl, by decide, by decide⟩ .nil)
  obtain ⟨run, run', hreturns, hreturns', -, hall⟩ := continuous_no_anomaly
    accepted_example hkept hlowered (by decide) le_rfl (show (1 : ℤ) ≤ 2 by decide)
  exact ⟨run, run', hreturns, hreturns', hall⟩

/-! ### Input order and origin of time -/

def BatchRequest.delay (k : ℤ) (r : BatchRequest) : BatchRequest :=
  { r with arrivalStep := r.arrivalStep + k }

def Completion.delay (k : ℤ) (c : Completion) : Completion :=
  { c with
    firstServiceStep := c.firstServiceStep + k
    completionStep := c.completionStep + k }

/-- The same run, `k` steps later. -/
def BatchRun.delay (k : ℤ) (run : BatchRun) : BatchRun :=
  { run with completions := run.completions.map (Completion.delay k) }

section Delay

variable {requests requests' : List BatchRequest} {capacity k : ℤ} {mode : BatchMode}
  {start start' : BatchRequest → ℤ} {run run' : BatchRun}

theorem map_delay_zero (requests : List BatchRequest) :
    requests.map (BatchRequest.delay 0) = requests := by
  have hid : BatchRequest.delay 0 = id := by
    funext r
    simp [BatchRequest.delay]
  rw [hid, List.map_id]

theorem BatchRun.delay_zero (run : BatchRun) : run.delay 0 = run := by
  have hid : Completion.delay 0 = id := by
    funext c
    simp [Completion.delay]
  rw [BatchRun.delay, hid, List.map_id]

theorem mem_delayed (hperm : requests'.Perm (requests.map (BatchRequest.delay k)))
    {r' : BatchRequest} : r' ∈ requests' ↔ ∃ r ∈ requests, r.delay k = r' := by
  rw [hperm.mem_iff, List.mem_map]

theorem Accepted.of_delay (h : Accepted requests) (hk : 0 ≤ k)
    (hperm : requests'.Perm (requests.map (BatchRequest.delay k))) : Accepted requests' := by
  have hall {P : BatchRequest → Prop} (hP : ∀ r ∈ requests, P (r.delay k)) :
      ∀ r' ∈ requests', P r' := by
    intro r' hr'
    obtain ⟨r, hr, rfl⟩ := (mem_delayed hperm).mp hr'
    exact hP r hr
  constructor
  case nonempty =>
    rintro rfl
    exact h.nonempty (List.map_eq_nil_iff.mp (List.nil_perm.mp hperm))
  case named => exact hall h.named
  case unique =>
    rw [(hperm.map _).nodup_iff, List.map_map]
    exact h.unique
  case arrival_nonneg => exact hall fun r hr => add_nonneg (h.arrival_nonneg r hr) hk
  case output_pos => exact hall h.output_pos

theorem queueKey_delay_le_iff (r l : BatchRequest) :
    queueKey r ≤ queueKey l ↔ queueKey (r.delay k) ≤ queueKey (l.delay k) := by
  simp only [queueKey, BatchRequest.delay, Prod.Lex.toLex_le_toLex, add_lt_add_iff_right,
    add_left_inj]

theorem sortedBy_queueKey_delay (h : Accepted requests)
    (hperm : requests'.Perm (requests.map (BatchRequest.delay k))) :
    sortedBy queueKey requests' = (sortedBy queueKey requests).map (BatchRequest.delay k) := by
  rw [← sortedBy_map queueKey fun r _ l _ => queueKey_delay_le_iff r l]
  apply sortedBy_eq_of_perm _ hperm
  intro r' hr' l' hl' heq
  obtain ⟨r, hr, rfl⟩ := (mem_delayed hperm).mp hr'
  obtain ⟨l, hl, rfl⟩ := (mem_delayed hperm).mp hl'
  have hid : r.identifier = l.identifier := congrArg (fun x => (ofLex x).2) heq
  rw [List.inj_on_of_nodup_map h.unique hr hl hid]

theorem startRoom_delay (pre : List BatchRequest) (t : ℤ) :
    startRoom mode capacity start' (pre.map (BatchRequest.delay k)) (t + k) ↔
      startRoom mode capacity (fun r => start' (r.delay k) - k) pre t := by
  cases mode with
  | static => exact batchRoom_map _ _ (BatchRequest.delay k) k (fun _ => rfl) pre t
  | continuous => exact laneRoom_map (BatchRequest.delay k) k (fun _ => rfl) pre t

theorem completionOf_delay {r : BatchRequest} (h : start' (r.delay k) = start r + k) :
    completionOf start' (r.delay k) = (completionOf start r).delay k := by
  rw [completionOf, completionOf, Completion.delay, h, add_right_comm]
  rfl

theorem sortedBy_identifier_delay (cs : List Completion) :
    sortedBy (·.identifier) (cs.map (Completion.delay k)) =
      (sortedBy (·.identifier) cs).map (Completion.delay k) :=
  sortedBy_map _ fun _ _ _ _ => Iff.rfl

section Origins

variable (h : Accepted requests) (hperm : requests'.Perm (requests.map (BatchRequest.delay k)))
  (hrec : Recurrence requests capacity mode start run)
  (hrec' : Recurrence requests' capacity mode start' run')

include h hperm hrec hrec'

/-- Every start moves with the origin of time. -/
theorem Recurrence.start_delay : ∀ r ∈ requests, start' (r.delay k) = start r + k := by
  have hleast := hrec'.leastStart
  rw [sortedBy_queueKey_delay h hperm] at hleast
  have hback := hleast.comap (BatchRequest.delay k) k (fun _ => rfl) startRoom_delay
  have heq := hback.unique (causal_startRoom mode capacity) hrec.leastStart
  intro r hr
  exact sub_eq_iff_eq_add.mp (heq r ((mem_sortedBy queueKey).mpr hr))

theorem Recurrence.completions_delay :
    run'.completions = run.completions.map (Completion.delay k) := by
  have hstart := hrec.start_delay h hperm hrec'
  have hdelay : (requests'.map (completionOf start')).Perm
      ((requests.map (completionOf start)).map (Completion.delay k)) := by
    refine (hperm.map _).trans (List.Perm.of_eq ?_)
    rw [List.map_map, List.map_map]
    apply List.map_congr_left
    intro r hr
    exact completionOf_delay (hstart r hr)
  rw [hrec'.completions_eq, hrec.completions_eq, ← sortedBy_identifier_delay]
  apply sortedBy_identifier_eq hdelay
  rw [(hdelay.map _).nodup_iff, List.map_map, List.map_map]
  exact h.unique

theorem Recurrence.makespan_delay : run'.makespanSteps = run.makespanSteps := by
  have hstart := hrec.start_delay h hperm hrec'
  obtain ⟨last, first, ⟨⟨r, hr, hlast⟩, hends⟩, ⟨⟨l, hl, hfirst⟩, hstarts⟩, hmakespan⟩ :=
    hrec.makespan
  obtain ⟨last', first', hlast', hfirst', hmakespan'⟩ := hrec'.makespan
  have hgreatest : IsGreatest {t | ∃ r ∈ requests', start' r + r.outputTokens = t} (last + k) := by
    constructor
    · refine ⟨r.delay k, (mem_delayed hperm).mpr ⟨r, hr, rfl⟩, ?_⟩
      rw [hstart r hr, ← hlast]
      exact add_right_comm _ _ _
    · rintro _ ⟨_, hr', rfl⟩
      obtain ⟨r, hr, rfl⟩ := (mem_delayed hperm).mp hr'
      have hle := hends ⟨r, hr, rfl⟩
      rw [hstart r hr, add_right_comm]
      exact add_le_add_left hle k
  have hleast : IsLeast {t | ∃ r ∈ requests', r.arrivalStep = t} (first + k) := by
    constructor
    · exact ⟨l.delay k, (mem_delayed hperm).mpr ⟨l, hl, rfl⟩, congrArg (· + k) hfirst⟩
    · rintro _ ⟨_, hr', rfl⟩
      obtain ⟨r, hr, rfl⟩ := (mem_delayed hperm).mp hr'
      exact add_le_add_left (hstarts ⟨r, hr, rfl⟩) k
  rw [hmakespan, hmakespan', hlast'.unique hgreatest, hfirst'.unique hleast]
  exact add_sub_add_right_eq_sub _ _ k

theorem Recurrence.totalWait_delay : run'.totalWaitSteps = run.totalWaitSteps := by
  have hstart := hrec.start_delay h hperm hrec'
  rw [hrec'.totalWait, hrec.totalWait, (hperm.map _).sum_eq, List.map_map]
  congr 1
  apply List.map_congr_left
  intro r hr
  rw [Function.comp_apply, hstart r hr]
  exact add_sub_add_right_eq_sub _ _ k

theorem Recurrence.run_delay : run' = run.delay k := by
  calc run' = ⟨run'.mode, run'.completions, run'.makespanSteps, run'.totalWaitSteps⟩ := rfl
    _ = run.delay k := by
      rw [hrec'.mode_eq, ← hrec.mode_eq, hrec.completions_delay h hperm hrec',
        hrec.makespan_delay h hperm hrec', hrec.totalWait_delay h hperm hrec']
      rfl

end Origins

/-- The simulator ignores the order of its input and moves with the origin of time. -/
theorem simulateBatching_invariant (h : Accepted requests) (hcapacity : 1 ≤ capacity)
    (mode : BatchMode) :
    ∃ run, Returns requests capacity mode run ∧
      (∀ requests', requests'.Perm requests → Returns requests' capacity mode run) ∧
      ∀ k, 0 ≤ k → Returns (requests.map (BatchRequest.delay k)) capacity mode (run.delay k) := by
  obtain ⟨start, run, hrec, hreturns, -⟩ := exists_recurrence h hcapacity mode
  have hdelayed : ∀ requests' k, 0 ≤ k → requests'.Perm (requests.map (BatchRequest.delay k)) →
      Returns requests' capacity mode (run.delay k) := by
    intro requests' k hk hperm
    obtain ⟨start', run', hrec', hreturns', -⟩ :=
      exists_recurrence (h.of_delay hk hperm) hcapacity mode
    rwa [hrec.run_delay h hperm hrec'] at hreturns'
  refine ⟨run, hreturns, ?_, fun k hk => hdelayed _ k hk (List.Perm.refl _)⟩
  intro requests' hperm
  have hreturns' := hdelayed requests' 0 le_rfl ((map_delay_zero requests).symm ▸ hperm)
  rwa [run.delay_zero] at hreturns'

end Delay

theorem simulateBatching_invariant_example :
    ∃ run, Returns [⟨"short", 0, 1⟩, ⟨"late", 7, 1⟩, ⟨"long", 0, 5⟩] 2 .static run ∧
      Returns [⟨"long", 3, 5⟩, ⟨"late", 10, 1⟩, ⟨"short", 3, 1⟩] 2 .static (run.delay 3) := by
  obtain ⟨run, -, hperm, hdelay⟩ :=
    simulateBatching_invariant accepted_example (show (1 : ℤ) ≤ 2 by decide) .static
  exact ⟨run, hperm _ (by decide), hdelay 3 (by decide)⟩

end Batching
