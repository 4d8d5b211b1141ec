import InferencePlatform.NearestRank
import InferencePlatform.Rollouts

/-!
# Service metrics

`evaluateService` turns timestamped requests into three tail latencies and a throughput, and
names the objectives that are missed. Timestamps are exact rationals. `IsReport` says what a
report states about the traces; it determines the report and does not mention their order.
-/

namespace Metrics

open PythonBuiltins NearestRank
open Rollouts (deciding deciding_eq_nil_iff)

structure RequestTrace where
  identifier : String
  arrivedAt : ℚ
  firstTokenAt : ℚ
  completedAt : ℚ
  outputTokens : ℤ
  deriving DecidableEq, Repr

structure ServiceObjectives where
  maxP95TtftSeconds : ℚ
  maxP95TpotSeconds : ℚ
  maxP95E2eSeconds : ℚ
  minOutputTokensPerSecond : ℚ
  deriving DecidableEq, Repr

structure ServiceReport where
  meetsObjectives : Bool
  p95TtftSeconds : ℚ
  p95TpotSeconds : ℚ
  p95E2eSeconds : ℚ
  outputTokensPerSecond : ℚ
  violations : List String
  deriving DecidableEq, Repr

namespace RequestTrace

variable (trace : RequestTrace)

def ttft : ℚ := trace.firstTokenAt - trace.arrivedAt

def e2e : ℚ := trace.completedAt - trace.arrivedAt

def tpot : ℚ :=
  let decodedIntervals := trace.outputTokens - 1
  if decodedIntervals ≠ 0 then (trace.completedAt - trace.firstTokenAt) / decodedIntervals else 0

/-- A response of one token has no decoded interval. -/
theorem tpot_eq : trace.tpot = if trace.outputTokens = 1 then 0
    else (trace.completedAt - trace.firstTokenAt) / ((trace.outputTokens : ℚ) - 1) := by
  by_cases hone : trace.outputTokens = 1
  · simp [tpot, hone]
  · simp [tpot, hone, sub_eq_zero]

end RequestTrace

/-- The checks of the loop body. -/
def validateTrace (trace : RequestTrace) : Except PyError Unit :=
  if isBlank trace.identifier then
    throw (.valueError "trace identifiers are required")
  else if trace.outputTokens ≤ 0 then
    throw (.valueError "output_tokens must be positive")
  else if ¬ (trace.arrivedAt ≤ trace.firstTokenAt ∧ trace.firstTokenAt ≤ trace.completedAt) then
    throw (.valueErrorQuoting "trace " trace.identifier " has impossible timestamps")
  else pure ()

/-- The index of the source is `rank - 1`, and the rank is at least one. -/
def nearestRank (values : List ℚ) (percentile : ℚ) : Except PyError ℚ :=
  let ordered := sortedBy id values
  let rank := max 1 ⌈percentile * ordered.length⌉
  match ordered[(rank - 1).toNat]? with
  | some value => pure value
  | none => throw .indexError

def observationWindow (traces : List RequestTrace) : Except PyError ℚ := do
  let latest ← maxBy id (traces.map (·.completedAt))
  let earliest ← minBy id (traces.map (·.arrivedAt))
  pure (latest - earliest)

section Service

variable (traces : List RequestTrace) (objectives : ServiceObjectives)

/-- The checks before the loop. -/
def validate : Except PyError Unit :=
  if traces = [] then
    throw (.valueError "at least one request trace is required")
  else if pyMin objectives.maxP95TtftSeconds
      [objectives.maxP95TpotSeconds, objectives.maxP95E2eSeconds,
        objectives.minOutputTokensPerSecond] < 0 then
    throw (.valueError "service objectives may not be negative")
  else pure ()

def serviceViolations (p95Ttft p95Tpot p95E2e throughput : ℚ) : List String :=
  deciding (objectives.maxP95TtftSeconds < p95Ttft) "p95 TTFT exceeded" ++
  deciding (objectives.maxP95TpotSeconds < p95Tpot) "p95 TPOT exceeded" ++
  deciding (objectives.maxP95E2eSeconds < p95E2e) "p95 end-to-end latency exceeded" ++
  deciding (throughput < objectives.minOutputTokensPerSecond)
    "output-token throughput below minimum"

def evaluateService : Except PyError ServiceReport := do
  validate traces objectives
  forM traces validateTrace
  let p95Ttft ← nearestRank (traces.map (·.ttft)) (95 / 100)
  let p95Tpot ← nearestRank (traces.map (·.tpot)) (95 / 100)
  let p95E2e ← nearestRank (traces.map (·.e2e)) (95 / 100)
  let window ← observationWindow traces
  if window ≤ 0 then
    throw (.valueError "the observation window has no duration; throughput is undefined")
  else
    let throughput := ((traces.map (·.outputTokens)).sum : ℤ) / window
    let violations := serviceViolations objectives p95Ttft p95Tpot p95E2e throughput
    pure ⟨violations = [], p95Ttft, p95Tpot, p95E2e, throughput, violations⟩

/-! ### What is accepted and what is reported -/

structure ValidTrace (trace : RequestTrace) : Prop where
  named : isBlank trace.identifier = false
  tokens_pos : 0 < trace.outputTokens
  arrived_le : trace.arrivedAt ≤ trace.firstTokenAt
  first_le : trace.firstTokenAt ≤ trace.completedAt

/-- What the checks accept. The window has a duration when some trace ends after another begins. -/
structure Accepted : Prop where
  nonempty : traces ≠ []
  ttft_nonneg : 0 ≤ objectives.maxP95TtftSeconds
  tpot_nonneg : 0 ≤ objectives.maxP95TpotSeconds
  e2e_nonneg : 0 ≤ objectives.maxP95E2eSeconds
  throughput_nonneg : 0 ≤ objectives.minOutputTokensPerSecond
  valid : ∀ trace ∈ traces, ValidTrace trace
  window_pos : ∃ early ∈ traces, ∃ late ∈ traces, early.arrivedAt < late.completedAt

/-- The time from the first arrival to the last completion. -/
def IsWindow (window : ℚ) : Prop :=
  ∃ first last, IsLeast {t | ∃ trace ∈ traces, trace.arrivedAt = t} first ∧
    IsGreatest {t | ∃ trace ∈ traces, trace.completedAt = t} last ∧ window = last - first

structure IsReport (report : ServiceReport) : Prop where
  ttft : IsNearestRank (95 / 100) (traces.map (·.ttft)) report.p95TtftSeconds
  tpot : IsNearestRank (95 / 100) (traces.map (·.tpot)) report.p95TpotSeconds
  e2e : IsNearestRank (95 / 100) (traces.map (·.e2e)) report.p95E2eSeconds
  throughput : ∃ window, IsWindow traces window ∧ 0 < window ∧
    report.outputTokensPerSecond = ((traces.map (·.outputTokens)).sum : ℤ) / window
  violations : report.violations = serviceViolations objectives report.p95TtftSeconds
    report.p95TpotSeconds report.p95E2eSeconds report.outputTokensPerSecond
  meets : report.meetsObjectives = decide (report.violations = [])

variable {traces objectives}

theorem validateTrace_eq_ok_iff {trace : RequestTrace} :
    validateTrace trace = .ok () ↔ ValidTrace trace := by
  unfold validateTrace
  simp only [Except.ite_throw_eq_ok_iff, Bool.not_eq_true, not_le, not_not]
  constructor
  · rintro ⟨hnamed, htokens, ⟨harrived, hfirst⟩, -⟩
    exact ⟨hnamed, htokens, harrived, hfirst⟩
  · intro h
    exact ⟨h.named, h.tokens_pos, ⟨h.arrived_le, h.first_le⟩, rfl⟩

/-- The loop ends when no trace raises. -/
theorem forM_validateTrace_eq_ok_iff :
    forM traces validateTrace = .ok () ↔ ∀ trace ∈ traces, ValidTrace trace := by
  induction traces with
  | nil => exact iff_of_true rfl fun trace htrace => absurd htrace List.not_mem_nil
  | cons trace traces ih =>
      rw [List.forM_cons, List.forall_mem_cons, Except.bind_eq_ok_iff, ← ih]
      constructor
      · rintro ⟨_, htrace, hrest⟩
        exact ⟨validateTrace_eq_ok_iff.mp htrace, hrest⟩
      · rintro ⟨htrace, hrest⟩
        exact ⟨(), validateTrace_eq_ok_iff.mpr htrace, hrest⟩

theorem nearestRank_spec {values : List ℚ} {percentile value : ℚ} (hpos : 0 < percentile)
    (h : nearestRank values percentile = .ok value) : IsNearestRank percentile values value := by
  have hperm := sortedBy_perm id values
  unfold nearestRank at h
  dsimp only at h
  split at h
  · rename_i hvalue
    obtain rfl := Except.ok.inj h
    rw [hperm.length_eq] at hvalue
    exact isNearestRank_of_sorted hpos hperm (pairwise_sortedBy id values) hvalue
  · cases h

theorem exists_nearestRank {values : List ℚ} {percentile : ℚ} (hle : percentile ≤ 1)
    (hne : values ≠ []) : ∃ value, nearestRank values percentile = .ok value := by
  have hlen := (sortedBy_perm id values).length_eq
  have hlt := rankIndex_lt hle (List.length_pos_of_ne_nil hne)
  have hvalue : (sortedBy id values)[(max 1 ⌈percentile * values.length⌉ - 1).toNat]? = some _ :=
    List.getElem?_eq_getElem (hlt.trans_eq hlen.symm)
  unfold nearestRank
  dsimp only
  rw [hlen, hvalue]
  exact ⟨_, rfl⟩

theorem observationWindow_spec {window : ℚ} (h : observationWindow traces = .ok window) :
    IsWindow traces window := by
  obtain ⟨last, hlast, h⟩ := Except.bind_eq_ok_iff.mp h
  obtain ⟨first, hfirst, h⟩ := Except.bind_eq_ok_iff.mp h
  obtain rfl := Except.ok.inj h
  obtain ⟨hlast, hgreatest⟩ := maxBy_spec hlast
  obtain ⟨hfirst, hleast⟩ := minBy_spec hfirst
  refine ⟨first, last, ⟨List.mem_map.mp hfirst, ?_⟩, ⟨List.mem_map.mp hlast, ?_⟩, rfl⟩
  · rintro t ⟨trace, htrace, rfl⟩
    exact hleast _ (List.mem_map_of_mem htrace)
  · rintro t ⟨trace, htrace, rfl⟩
    exact hgreatest _ (List.mem_map_of_mem htrace)

theorem exists_observationWindow (hne : traces ≠ []) :
    ∃ window, observationWindow traces = .ok window := by
  obtain ⟨trace, htrace⟩ := List.exists_mem_of_ne_nil traces hne
  obtain ⟨last, hlast⟩ := exists_maxBy id (List.mem_map_of_mem (f := (·.completedAt)) htrace)
  obtain ⟨first, hfirst⟩ := exists_minBy id (List.mem_map_of_mem (f := (·.arrivedAt)) htrace)
  unfold observationWindow
  rw [hlast, hfirst]
  exact ⟨_, rfl⟩

theorem IsWindow.unique {window window' : ℚ} (h : IsWindow traces window)
    (h' : IsWindow traces window') : window = window' := by
  obtain ⟨first, last, hfirst, hlast, rfl⟩ := h
  obtain ⟨first', last', hfirst', hlast', rfl⟩ := h'
  rw [hfirst.unique hfirst', hlast.unique hlast']

theorem IsWindow.pos_iff {window : ℚ} (h : IsWindow traces window) :
    0 < window ↔ ∃ early ∈ traces, ∃ late ∈ traces, early.arrivedAt < late.completedAt := by
  obtain ⟨first, last, hfirst, hlast, rfl⟩ := h
  rw [sub_pos]
  constructor
  · intro hlt
    obtain ⟨early, hearly, rfl⟩ := hfirst.1
    obtain ⟨late, hlate, rfl⟩ := hlast.1
    exact ⟨early, hearly, late, hlate, hlt⟩
  · rintro ⟨early, hearly, late, hlate, hlt⟩
    exact (hfirst.2 ⟨early, hearly, rfl⟩).trans_lt (hlt.trans_le (hlast.2 ⟨late, hlate, rfl⟩))

theorem validate_eq_ok_iff : validate traces objectives = .ok () ↔
    traces ≠ [] ∧ 0 ≤ objectives.maxP95TtftSeconds ∧ 0 ≤ objectives.maxP95TpotSeconds ∧
      0 ≤ objectives.maxP95E2eSeconds ∧ 0 ≤ objectives.minOutputTokensPerSecond := by
  unfold validate
  simp only [Except.ite_throw_eq_ok_iff, pyMin_lt_iff, List.mem_cons, List.not_mem_nil, or_false,
    exists_eq_or_imp, exists_eq_left, not_or, not_lt]
  exact ⟨fun h => ⟨h.1, h.2.1⟩, fun h => ⟨h.1, h.2, rfl⟩⟩

theorem evaluateService_spec {report : ServiceReport}
    (h : evaluateService traces objectives = .ok report) :
    Accepted traces objectives ∧ IsReport traces objectives report := by
  obtain ⟨_, hvalid, h⟩ := Except.bind_eq_ok_iff.mp h
  obtain ⟨_, htraces, h⟩ := Except.bind_eq_ok_iff.mp h
  obtain ⟨p95Ttft, httft, h⟩ := Except.bind_eq_ok_iff.mp h
  obtain ⟨p95Tpot, htpot, h⟩ := Except.bind_eq_ok_iff.mp h
  obtain ⟨p95E2e, he2e, h⟩ := Except.bind_eq_ok_iff.mp h
  obtain ⟨window, hwindow, h⟩ := Except.bind_eq_ok_iff.mp h
  obtain ⟨hpos, h⟩ := Except.ite_throw_eq_ok_iff.mp h
  obtain rfl := Except.ok.inj h
  obtain ⟨hne, hmaxTtft, hmaxTpot, hmaxE2e, hmin⟩ := validate_eq_ok_iff.mp hvalid
  have hspan := observationWindow_spec hwindow
  have hpercentile : (0 : ℚ) < 95 / 100 := by norm_num
  constructor
  · exact ⟨hne, hmaxTtft, hmaxTpot, hmaxE2e, hmin, forM_validateTrace_eq_ok_iff.mp htraces,
      hspan.pos_iff.mp (not_le.mp hpos)⟩
  · exact ⟨nearestRank_spec hpercentile httft, nearestRank_spec hpercentile htpot,
      nearestRank_spec hpercentile he2e, ⟨window, hspan, not_le.mp hpos, rfl⟩, rfl, rfl⟩

theorem exists_evaluateService (h : Accepted traces objectives) :
    ∃ report, evaluateService traces objectives = .ok report := by
  have hvalid := validate_eq_ok_iff.mpr ⟨h.nonempty, h.ttft_nonneg, h.tpot_nonneg, h.e2e_nonneg,
    h.throughput_nonneg⟩
  have hrank (metric : RequestTrace → ℚ) :
      ∃ value, nearestRank (traces.map metric) (95 / 100) = .ok value :=
    exists_nearestRank (by norm_num) (mt List.map_eq_nil_iff.mp h.nonempty)
  obtain ⟨p95Ttft, httft⟩ := hrank (·.ttft)
  obtain ⟨p95Tpot, htpot⟩ := hrank (·.tpot)
  obtain ⟨p95E2e, he2e⟩ := hrank (·.e2e)
  obtain ⟨window, hwindow⟩ := exists_observationWindow h.nonempty
  have hpos := (observationWindow_spec hwindow).pos_iff.mpr h.window_pos
  unfold evaluateService
  rw [hvalid, forM_validateTrace_eq_ok_iff.mpr h.valid, httft, htpot, he2e, hwindow]
  exact ⟨_, if_neg hpos.not_ge⟩

/-- Nothing but the traces as a collection determines a report. -/
theorem IsReport.unique {report report' : ServiceReport} (h : IsReport traces objectives report)
    (h' : IsReport traces objectives report') : report = report' := by
  have httft := h.ttft.unique h'.ttft
  have htpot := h.tpot.unique h'.tpot
  have he2e := h.e2e.unique h'.e2e
  have hthroughput : report.outputTokensPerSecond = report'.outputTokensPerSecond := by
    obtain ⟨window, hwindow, -, heq⟩ := h.throughput
    obtain ⟨window', hwindow', -, heq'⟩ := h'.throughput
    rw [heq, heq', hwindow.unique hwindow']
  have hviolations : report.violations = report'.violations := by
    rw [h.violations, h'.violations, httft, htpot, he2e, hthroughput]
  have hmeets : report.meetsObjectives = report'.meetsObjectives := by
    rw [h.meets, h'.meets, hviolations]
  cases report
  cases report'
  simp only at httft htpot he2e hthroughput hviolations hmeets
  rw [httft, htpot, he2e, hthroughput, hviolations, hmeets]

theorem evaluateService_eq_ok_iff {report : ServiceReport} :
    evaluateService traces objectives = .ok report ↔
      Accepted traces objectives ∧ IsReport traces objectives report := by
  refine ⟨evaluateService_spec, fun h => ?_⟩
  obtain ⟨report', hreport'⟩ := exists_evaluateService h.1
  rw [hreport', (evaluateService_spec hreport').2.unique h.2]

/-! ### The gates -/

/-- A gate is listed exactly when its objective is missed. -/
theorem IsReport.mem_violations {report : ServiceReport} (h : IsReport traces objectives report) :
    ("p95 TTFT exceeded" ∈ report.violations ↔
        objectives.maxP95TtftSeconds < report.p95TtftSeconds) ∧
      ("p95 TPOT exceeded" ∈ report.violations ↔
        objectives.maxP95TpotSeconds < report.p95TpotSeconds) ∧
      ("p95 end-to-end latency exceeded" ∈ report.violations ↔
        objectives.maxP95E2eSeconds < report.p95E2eSeconds) ∧
      ("output-token throughput below minimum" ∈ report.violations ↔
        report.outputTokensPerSecond < objectives.minOutputTokensPerSecond) := by
  have hmem (condition : Prop) [Decidable condition] (gate name : String) :
      gate ∈ deciding condition name ↔ condition ∧ gate = name := by
    unfold deciding
    split_ifs with hcondition <;> simp [hcondition]
  rw [h.violations]
  simp [serviceViolations, hmem]

theorem IsReport.meets_iff {report : ServiceReport} (h : IsReport traces objectives report) :
    report.meetsObjectives = true ↔ "p95 TTFT exceeded" ∉ report.violations ∧
      "p95 TPOT exceeded" ∉ report.violations ∧
      "p95 end-to-end latency exceeded" ∉ report.violations ∧
      "output-token throughput below minimum" ∉ report.violations := by
  obtain ⟨httft, htpot, he2e, hthroughput⟩ := h.mem_violations
  rw [h.meets, decide_eq_true_iff, httft, htpot, he2e, hthroughput, h.violations]
  simp only [serviceViolations, List.append_eq_nil_iff, deciding_eq_nil_iff, and_assoc]

/-- A bound on the nearest rank of a metric counts the traces that keep the bound. -/
theorem nearestRank_map_le_iff {percentile value : ℚ} {metric : RequestTrace → ℚ}
    (h : IsNearestRank percentile (traces.map metric) value) (bound : ℚ) :
    value ≤ bound ↔ percentile * traces.length ≤ traces.countP (metric · ≤ bound) := by
  rw [h bound, List.length_map, List.countP_map]
  rfl

/-- What the absence of each violation says about the traces. -/
theorem evaluateService_gates {report : ServiceReport}
    (h : evaluateService traces objectives = .ok report) :
    ("p95 TTFT exceeded" ∉ report.violations ↔ 95 / 100 * (traces.length : ℚ) ≤
        traces.countP fun trace =>
          trace.firstTokenAt - trace.arrivedAt ≤ objectives.maxP95TtftSeconds) ∧
      ("p95 end-to-end latency exceeded" ∉ report.violations ↔ 95 / 100 * (traces.length : ℚ) ≤
        traces.countP fun trace =>
          trace.completedAt - trace.arrivedAt ≤ objectives.maxP95E2eSeconds) ∧
      ("p95 TPOT exceeded" ∉ report.violations ↔ 95 / 100 * (traces.length : ℚ) ≤
        traces.countP fun trace =>
          (if trace.outputTokens = 1 then 0
            else (trace.completedAt - trace.firstTokenAt) / ((trace.outputTokens : ℚ) - 1)) ≤
              objectives.maxP95TpotSeconds) ∧
      (∃ first last, IsLeast {t | ∃ trace ∈ traces, trace.arrivedAt = t} first ∧
        IsGreatest {t | ∃ trace ∈ traces, trace.completedAt = t} last ∧
        ("output-token throughput below minimum" ∉ report.violations ↔
          objectives.minOutputTokensPerSecond * (last - first) ≤
            ((traces.map (·.outputTokens)).sum : ℤ))) ∧
      (report.meetsObjectives = true ↔ "p95 TTFT exceeded" ∉ report.violations ∧
        "p95 TPOT exceeded" ∉ report.violations ∧
        "p95 end-to-end latency exceeded" ∉ report.violations ∧
        "output-token throughput below minimum" ∉ report.violations) := by
  have hreport := (evaluateService_spec h).2
  obtain ⟨httft, htpot, he2e, hthroughput⟩ := hreport.mem_violations
  obtain ⟨window, ⟨first, last, hfirst, hlast, rfl⟩, hpos, heq⟩ := hreport.throughput
  refine ⟨?_, ?_, ?_, ⟨first, last, hfirst, hlast, ?_⟩,
    hreport.meets_iff⟩
  · rw [httft, not_lt]
    exact nearestRank_map_le_iff hreport.ttft _
  · rw [he2e, not_lt]
    exact nearestRank_map_le_iff hreport.e2e _
  · rw [htpot, not_lt]
    simp only [← RequestTrace.tpot_eq]
    exact nearestRank_map_le_iff hreport.tpot _
  · rw [hthroughput, not_lt, heq, le_div_iff₀ hpos]

theorem evaluateService_gates_two_requests :
    ∃ report, evaluateService [⟨"r1", 0, 1 / 5, 1, 5⟩, ⟨"r2", 1, 6 / 5, 2, 5⟩] ⟨1, 1, 3, 6⟩ =
      .ok report ∧ report.violations = ["output-token throughput below minimum"] ∧
      95 / 100 * (([⟨"r1", 0, 1 / 5, 1, 5⟩, ⟨"r2", 1, 6 / 5, 2, 5⟩] :
          List RequestTrace).length : ℚ) ≤
        ([⟨"r1", 0, 1 / 5, 1, 5⟩, ⟨"r2", 1, 6 / 5, 2, 5⟩] : List RequestTrace).countP fun trace =>
          trace.firstTokenAt - trace.arrivedAt ≤ 1 := by
  have hrun : evaluateService [⟨"r1", 0, 1 / 5, 1, 5⟩, ⟨"r2", 1, 6 / 5, 2, 5⟩] ⟨1, 1, 3, 6⟩ =
      .ok ⟨false, 1 / 5, 1 / 5, 1, 5, ["output-token throughput below minimum"]⟩ := by
    decide +kernel
  obtain ⟨httft, -⟩ := evaluateService_gates hrun
  exact ⟨_, hrun, rfl, httft.mp (by decide)⟩

end Service

end Metrics
