import InferencePlatform.Metrics
import InferencePlatform.Timelines

/-!
# Two service reports on the same requests

`Sooner` compares two traces of one request. Requests that are served sooner one by one make a
report that is at least as good in every value, and misses no objective that was met before. A
report moves no further than the clocks that stamped it.
-/

namespace Metrics

open NearestRank Rollouts Timelines

/-- The same request with its tokens no later and no further apart. -/
structure Sooner (trace' trace : RequestTrace) : Prop where
  arrivedAt_eq : trace'.arrivedAt = trace.arrivedAt
  outputTokens_eq : trace'.outputTokens = trace.outputTokens
  first_le : trace'.firstTokenAt ≤ trace.firstTokenAt
  completed_le : trace'.completedAt ≤ trace.completedAt
  decode_le : trace'.completedAt - trace'.firstTokenAt ≤ trace.completedAt - trace.firstTokenAt

section Traces

variable {trace trace' : RequestTrace}

theorem Sooner.ttft_le (h : Sooner trace' trace) : trace'.ttft ≤ trace.ttft := by
  rw [RequestTrace.ttft, RequestTrace.ttft, h.arrivedAt_eq]
  exact sub_le_sub_right h.first_le _

theorem Sooner.e2e_le (h : Sooner trace' trace) : trace'.e2e ≤ trace.e2e := by
  rw [RequestTrace.e2e, RequestTrace.e2e, h.arrivedAt_eq]
  exact sub_le_sub_right h.completed_le _

theorem Sooner.tpot_le (h : Sooner trace' trace) (hvalid : ValidTrace trace) :
    trace'.tpot ≤ trace.tpot := by
  rw [RequestTrace.tpot_eq, RequestTrace.tpot_eq, h.outputTokens_eq]
  by_cases hone : trace.outputTokens = 1
  · simp [hone]
  · have htokens : (1 : ℚ) ≤ trace.outputTokens := by exact_mod_cast hvalid.tokens_pos
    rw [if_neg hone, if_neg hone]
    exact div_le_div_of_nonneg_right h.decode_le (sub_nonneg.mpr htokens)

theorem ValidTrace.ttft_le_e2e (h : ValidTrace trace) : trace.ttft ≤ trace.e2e :=
  sub_le_sub_right h.first_le _

end Traces

section Reports

variable {traces traces' : List RequestTrace} {objectives : ServiceObjectives}
  {report report' : ServiceReport}

/-- A metric bounded request by request is bounded at the percentile. -/
theorem nearestRank_le_of_forall₂ {p v v' : ℚ} {R : RequestTrace → RequestTrace → Prop}
    {metric metric' : RequestTrace → ℚ} {slack : ℚ} (h : List.Forall₂ R traces' traces)
    (hR : ∀ trace' ∈ traces', ∀ trace ∈ traces, R trace' trace →
      metric' trace' ≤ metric trace + slack)
    (hv' : IsNearestRank p (traces'.map metric') v') (hv : IsNearestRank p (traces.map metric) v) :
    v' ≤ v + slack := by
  refine hv'.le_of_forall₂ (f := fun x => x + slack)
    (fun a b hab => add_le_add_left hab slack) ?_ hv
  rw [List.forall₂_map_left_iff, List.forall₂_map_right_iff]
  clear hv hv'
  induction h with
  | nil => exact .nil
  | cons hhead _ ih =>
      refine .cons (hR _ List.mem_cons_self _ List.mem_cons_self hhead) (ih ?_)
      exact fun t ht u hu => hR t (List.mem_cons_of_mem _ ht) u (List.mem_cons_of_mem _ hu)

theorem sum_outputTokens_eq (h : List.Forall₂ Sooner traces' traces) :
    (traces'.map (·.outputTokens)).sum = (traces.map (·.outputTokens)).sum := by
  induction h with
  | nil => rfl
  | cons hhead _ ih => simp only [List.map_cons, List.sum_cons, hhead.outputTokens_eq, ih]

theorem window_le {window window' : ℚ} (h : List.Forall₂ Sooner traces' traces)
    (hw : IsWindow traces window) (hw' : IsWindow traces' window') : window' ≤ window := by
  obtain ⟨first, last, hfirst, hlast, rfl⟩ := hw
  obtain ⟨first', last', hfirst', hlast', rfl⟩ := hw'
  have hlast_le : last' ≤ last := by
    obtain ⟨trace', hmem', rfl⟩ := hlast'.1
    obtain ⟨trace, hmem, hsooner⟩ := exists_mem_of_forall₂ h hmem'
    exact hsooner.completed_le.trans (hlast.2 ⟨trace, hmem, rfl⟩)
  have hfirst_le : first ≤ first' := by
    obtain ⟨trace', hmem', rfl⟩ := hfirst'.1
    obtain ⟨trace, hmem, hsooner⟩ := exists_mem_of_forall₂ h hmem'
    exact hsooner.arrivedAt_eq ▸ hfirst.2 ⟨trace, hmem, rfl⟩
  linarith

/-- Requests served sooner one by one improve every value of the report, and every violation left
was there before. -/
theorem evaluateService_sooner (h : evaluateService traces objectives = .ok report)
    (h' : evaluateService traces' objectives = .ok report')
    (hsooner : List.Forall₂ Sooner traces' traces) :
    report'.p95TtftSeconds ≤ report.p95TtftSeconds ∧
      report'.p95TpotSeconds ≤ report.p95TpotSeconds ∧
      report'.p95E2eSeconds ≤ report.p95E2eSeconds ∧
      report.outputTokensPerSecond ≤ report'.outputTokensPerSecond ∧
      report'.violations.Sublist report.violations ∧
      (report.meetsObjectives = true → report'.meetsObjectives = true) := by
  obtain ⟨haccepted, hreport⟩ := evaluateService_spec h
  obtain ⟨-, hreport'⟩ := evaluateService_spec h'
  have httft : report'.p95TtftSeconds ≤ report.p95TtftSeconds := by
    have hle := nearestRank_le_of_forall₂ hsooner
      (fun t' _ t _ hst => hst.ttft_le.trans_eq (add_zero t.ttft).symm) hreport'.ttft hreport.ttft
    rwa [add_zero] at hle
  have htpot : report'.p95TpotSeconds ≤ report.p95TpotSeconds := by
    have hle := nearestRank_le_of_forall₂ hsooner
      (fun t' _ t ht hst => (hst.tpot_le (haccepted.valid t ht)).trans_eq (add_zero t.tpot).symm)
      hreport'.tpot hreport.tpot
    rwa [add_zero] at hle
  have he2e : report'.p95E2eSeconds ≤ report.p95E2eSeconds := by
    have hle := nearestRank_le_of_forall₂ hsooner
      (fun t' _ t _ hst => hst.e2e_le.trans_eq (add_zero t.e2e).symm) hreport'.e2e hreport.e2e
    rwa [add_zero] at hle
  have hthroughput : report.outputTokensPerSecond ≤ report'.outputTokensPerSecond := by
    obtain ⟨window, hw, hpos, heq⟩ := hreport.throughput
    obtain ⟨window', hw', hpos', heq'⟩ := hreport'.throughput
    have htokens : 0 ≤ (traces.map (·.outputTokens)).sum := by
      apply List.sum_nonneg
      exact List.forall_mem_map.mpr fun t ht => (haccepted.valid t ht).tokens_pos.le
    rw [heq, heq', sum_outputTokens_eq hsooner]
    exact div_le_div_of_nonneg_left (by exact_mod_cast htokens) hpos' (window_le hsooner hw hw')
  have hviolations : report'.violations.Sublist report.violations := by
    rw [hreport.violations, hreport'.violations]
    refine (((deciding_sublist ?_ _).append (deciding_sublist ?_ _)).append
      (deciding_sublist ?_ _)).append (deciding_sublist ?_ _)
    · exact fun hlt => hlt.trans_le httft
    · exact fun hlt => hlt.trans_le htpot
    · exact fun hlt => hlt.trans_le he2e
    · exact fun hlt => hthroughput.trans_lt hlt
  refine ⟨httft, htpot, he2e, hthroughput, hviolations, ?_⟩
  rw [hreport.meets, hreport'.meets, decide_eq_true_iff, decide_eq_true_iff]
  intro hnil
  rw [hnil] at hviolations
  exact List.sublist_nil.mp hviolations

theorem evaluateService_sooner_two_requests :
    ∃ report report',
      evaluateService [⟨"r1", 0, 1 / 5, 1, 5⟩, ⟨"r2", 1, 6 / 5, 2, 5⟩] ⟨1, 1, 3, 5⟩ = .ok report ∧
      evaluateService [⟨"r1", 0, 1 / 10, 1 / 2, 5⟩, ⟨"r2", 1, 6 / 5, 2, 5⟩] ⟨1, 1, 3, 5⟩ =
        .ok report' ∧ report'.p95TtftSeconds ≤ report.p95TtftSeconds := by
  have hrun : evaluateService [⟨"r1", 0, 1 / 5, 1, 5⟩, ⟨"r2", 1, 6 / 5, 2, 5⟩] ⟨1, 1, 3, 5⟩ =
      .ok ⟨true, 1 / 5, 1 / 5, 1, 5, []⟩ := by
    decide +kernel
  have hrun' : evaluateService [⟨"r1", 0, 1 / 10, 1 / 2, 5⟩, ⟨"r2", 1, 6 / 5, 2, 5⟩] ⟨1, 1, 3, 5⟩ =
      .ok ⟨true, 1 / 5, 1 / 5, 1, 5, []⟩ := by
    decide +kernel
  refine ⟨_, _, hrun, hrun', (evaluateService_sooner hrun hrun' ?_).1⟩
  refine .cons ?_ (.cons ?_ .nil)
  · constructor <;> norm_num
  · constructor <;> norm_num

/-! ### Skewed clocks -/

/-- The same request stamped by clocks that are off by at most `ε`. -/
structure Skewed (ε : ℚ) (trace' trace : RequestTrace) : Prop where
  outputTokens_eq : trace'.outputTokens = trace.outputTokens
  arrived : |trace'.arrivedAt - trace.arrivedAt| ≤ ε
  first : |trace'.firstTokenAt - trace.firstTokenAt| ≤ ε
  completed : |trace'.completedAt - trace.completedAt| ≤ ε

theorem Skewed.symm {ε : ℚ} {trace' trace : RequestTrace} (h : Skewed ε trace' trace) :
    Skewed ε trace trace' := by
  obtain ⟨htokens, harrived, hfirst, hcompleted⟩ := h
  rw [abs_sub_comm] at harrived hfirst hcompleted
  exact ⟨htokens.symm, harrived, hfirst, hcompleted⟩

theorem Skewed.tpot_le {ε : ℚ} {trace' trace : RequestTrace} (h : Skewed ε trace' trace)
    (hvalid : ValidTrace trace) : trace'.tpot ≤ trace.tpot + 2 * ε := by
  have hfirst := abs_le.mp h.first
  have hcompleted := abs_le.mp h.completed
  rw [RequestTrace.tpot_eq, RequestTrace.tpot_eq, h.outputTokens_eq]
  by_cases hone : trace.outputTokens = 1
  · rw [if_pos hone, if_pos hone]
    linarith
  · have htokens : (1 : ℚ) ≤ (trace.outputTokens : ℚ) - 1 := by
      have hpos := hvalid.tokens_pos
      have htwo : (2 : ℤ) ≤ trace.outputTokens := by omega
      have hcast : (2 : ℚ) ≤ trace.outputTokens := by exact_mod_cast htwo
      linarith
    have hε : 0 ≤ 2 * ε := by linarith
    rw [if_neg hone, if_neg hone, div_le_iff₀ (by linarith), add_mul,
      div_mul_cancel₀ _ (by linarith)]
    have hmore : 2 * ε ≤ 2 * ε * ((trace.outputTokens : ℚ) - 1) :=
      le_mul_of_one_le_right hε htokens
    linarith

/-- Clocks that are off by at most `ε` move each tail latency by at most twice that, and no tail of
first tokens lies behind the tail of whole requests. -/
theorem evaluateService_skew {ε : ℚ} (h : evaluateService traces objectives = .ok report)
    (h' : evaluateService traces' objectives = .ok report')
    (hskew : List.Forall₂ (Skewed ε) traces' traces) :
    |report'.p95TtftSeconds - report.p95TtftSeconds| ≤ 2 * ε ∧
      |report'.p95TpotSeconds - report.p95TpotSeconds| ≤ 2 * ε ∧
      |report'.p95E2eSeconds - report.p95E2eSeconds| ≤ 2 * ε ∧
      report.p95TtftSeconds ≤ report.p95E2eSeconds := by
  obtain ⟨haccepted, hreport⟩ := evaluateService_spec h
  obtain ⟨haccepted', hreport'⟩ := evaluateService_spec h'
  have hback : List.Forall₂ (Skewed ε) traces traces' :=
    hskew.flip.imp fun _ _ hst => hst.symm
  have hdist {metric : RequestTrace → ℚ} {v v' : ℚ}
      (hmetric : ∀ t' t, ValidTrace t → Skewed ε t' t → metric t' ≤ metric t + 2 * ε)
      (hv' : IsNearestRank (95 / 100) (traces'.map metric) v')
      (hv : IsNearestRank (95 / 100) (traces.map metric) v) : |v' - v| ≤ 2 * ε := by
    have hle := nearestRank_le_of_forall₂ hskew
      (fun t' _ t ht hst => hmetric t' t (haccepted.valid t ht) hst) hv' hv
    have hle' := nearestRank_le_of_forall₂ hback
      (fun t _ t' ht' hst => hmetric t t' (haccepted'.valid t' ht') hst) hv hv'
    rw [abs_le]
    constructor <;> linarith
  refine ⟨hdist ?_ hreport'.ttft hreport.ttft, hdist ?_ hreport'.tpot hreport.tpot,
    hdist ?_ hreport'.e2e hreport.e2e, ?_⟩
  · intro t' t _ hst
    have harrived := abs_le.mp hst.arrived
    have hfirst := abs_le.mp hst.first
    rw [RequestTrace.ttft, RequestTrace.ttft]
    linarith
  · exact fun t' t hvalid hst => hst.tpot_le hvalid
  · intro t' t _ hst
    have harrived := abs_le.mp hst.arrived
    have hcompleted := abs_le.mp hst.completed
    rw [RequestTrace.e2e, RequestTrace.e2e]
    linarith
  · have hsame : List.Forall₂ Eq traces traces := List.forall₂_same.mpr fun _ _ => rfl
    have hle := nearestRank_le_of_forall₂ hsame (fun t _ t' ht' heq => by
      subst heq
      exact (haccepted.valid t ht').ttft_le_e2e.trans_eq (add_zero t.e2e).symm)
      hreport.ttft hreport.e2e
    rwa [add_zero] at hle

theorem evaluateService_skew_two_requests :
    ∃ report report',
      evaluateService [⟨"r1", 0, 1 / 5, 1, 5⟩, ⟨"r2", 1, 6 / 5, 2, 5⟩] ⟨1, 1, 3, 5⟩ = .ok report ∧
      evaluateService [⟨"r1", 0, 1 / 4, 1, 5⟩, ⟨"r2", 1, 6 / 5, 2, 5⟩] ⟨1, 1, 3, 5⟩ =
        .ok report' ∧ |report'.p95TtftSeconds - report.p95TtftSeconds| ≤ 2 * (1 / 20) := by
  have hrun : evaluateService [⟨"r1", 0, 1 / 5, 1, 5⟩, ⟨"r2", 1, 6 / 5, 2, 5⟩] ⟨1, 1, 3, 5⟩ =
      .ok ⟨true, 1 / 5, 1 / 5, 1, 5, []⟩ := by
    decide +kernel
  have hrun' : evaluateService [⟨"r1", 0, 1 / 4, 1, 5⟩, ⟨"r2", 1, 6 / 5, 2, 5⟩] ⟨1, 1, 3, 5⟩ =
      .ok ⟨true, 1 / 4, 1 / 5, 1, 5, []⟩ := by
    decide +kernel
  refine ⟨_, _, hrun, hrun', (evaluateService_skew hrun hrun' (ε := 1 / 20) ?_).1⟩
  refine .cons ?_ (.cons ?_ .nil)
  · constructor <;> norm_num [abs_le]
  · constructor <;> norm_num

end Reports

end Metrics
