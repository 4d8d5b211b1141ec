import InferencePlatform.Metrics

/-!
# Pooled and reordered service reports

Reports of two slices of the traffic and the report of both together, and the two changes that
leave a report alone: the order of the traces and the origin of the clock.
-/

namespace Metrics

open NearestRank

def RequestTrace.shift (offset : ℚ) (trace : RequestTrace) : RequestTrace :=
  { trace with
    arrivedAt := trace.arrivedAt + offset
    firstTokenAt := trace.firstTokenAt + offset
    completedAt := trace.completedAt + offset }

section Pooling

variable {traces traces' : List RequestTrace} {objectives : ServiceObjectives}

/-! ### The order of the traces -/

theorem Accepted.perm (h : traces.Perm traces') (haccepted : Accepted traces objectives) :
    Accepted traces' objectives := by
  obtain ⟨early, hearly, late, hlate, hlt⟩ := haccepted.window_pos
  exact { haccepted with
    nonempty := fun hnil => haccepted.nonempty (hnil ▸ h).eq_nil
    valid := fun trace htrace => haccepted.valid trace (h.mem_iff.mpr htrace)
    window_pos := ⟨early, h.mem_iff.mp hearly, late, h.mem_iff.mp hlate, hlt⟩ }

theorem IsWindow.perm (h : traces.Perm traces') {window : ℚ} (hwindow : IsWindow traces window) :
    IsWindow traces' window := by
  obtain ⟨first, last, hfirst, hlast, heq⟩ := hwindow
  simp only [h.mem_iff] at hfirst hlast
  exact ⟨first, last, hfirst, hlast, heq⟩

theorem IsReport.perm (h : traces.Perm traces') {report : ServiceReport}
    (hreport : IsReport traces objectives report) : IsReport traces' objectives report := by
  obtain ⟨window, hwindow, hpos, heq⟩ := hreport.throughput
  exact { hreport with
    ttft := hreport.ttft.perm (h.map _)
    tpot := hreport.tpot.perm (h.map _)
    e2e := hreport.e2e.perm (h.map _)
    throughput := ⟨window, hwindow.perm h, hpos, by rw [heq, (h.map _).sum_eq]⟩ }

theorem evaluateService_perm (h : traces.Perm traces') {report : ServiceReport} :
    evaluateService traces objectives = .ok report ↔
      evaluateService traces' objectives = .ok report := by
  rw [evaluateService_eq_ok_iff, evaluateService_eq_ok_iff]
  exact ⟨fun hrun => ⟨hrun.1.perm h, hrun.2.perm h⟩,
    fun hrun => ⟨hrun.1.perm h.symm, hrun.2.perm h.symm⟩⟩

/-! ### The origin of the clock -/

theorem Accepted.shift (offset : ℚ) (h : Accepted traces objectives) :
    Accepted (traces.map (·.shift offset)) objectives := by
  obtain ⟨early, hearly, late, hlate, hlt⟩ := h.window_pos
  have hvalid : ∀ trace ∈ traces, ValidTrace (trace.shift offset) := by
    intro trace htrace
    have hsound := h.valid trace htrace
    exact ⟨hsound.named, hsound.tokens_pos, add_le_add_left hsound.arrived_le offset,
      add_le_add_left hsound.first_le offset⟩
  exact { h with
    nonempty := mt List.map_eq_nil_iff.mp h.nonempty
    valid := List.forall_mem_map.mpr hvalid
    window_pos := ⟨_, List.mem_map_of_mem hearly, _, List.mem_map_of_mem hlate,
      add_lt_add_left hlt offset⟩ }

theorem IsWindow.shift (offset : ℚ) {window : ℚ} (h : IsWindow traces window) :
    IsWindow (traces.map (·.shift offset)) window := by
  obtain ⟨first, last, ⟨⟨early, hearly, rfl⟩, hleast⟩, ⟨⟨late, hlate, rfl⟩, hgreatest⟩, rfl⟩ := h
  refine ⟨early.arrivedAt + offset, late.completedAt + offset,
    ⟨⟨_, List.mem_map_of_mem hearly, rfl⟩, ?_⟩, ⟨⟨_, List.mem_map_of_mem hlate, rfl⟩, ?_⟩,
    (add_sub_add_right_eq_sub _ _ _).symm⟩
  · rintro t ⟨shifted, hshifted, rfl⟩
    obtain ⟨trace, htrace, rfl⟩ := List.mem_map.mp hshifted
    exact add_le_add_left (hleast ⟨trace, htrace, rfl⟩) offset
  · rintro t ⟨shifted, hshifted, rfl⟩
    obtain ⟨trace, htrace, rfl⟩ := List.mem_map.mp hshifted
    exact add_le_add_left (hgreatest ⟨trace, htrace, rfl⟩) offset

/-- Every metric is a difference of timestamps. -/
theorem IsReport.shift (offset : ℚ) {report : ServiceReport}
    (h : IsReport traces objectives report) :
    IsReport (traces.map (·.shift offset)) objectives report := by
  have hmap {β : Type} (f : RequestTrace → β) (hf : ∀ trace, f (trace.shift offset) = f trace) :
      (traces.map (·.shift offset)).map f = traces.map f := by
    rw [List.map_map]
    exact List.map_congr_left fun trace _ => hf trace
  obtain ⟨window, hwindow, hpos, heq⟩ := h.throughput
  exact { h with
    ttft := hmap (·.ttft) (fun _ => add_sub_add_right_eq_sub _ _ _) ▸ h.ttft
    tpot := by
      rw [hmap (·.tpot) fun trace => ?_]
      · exact h.tpot
      · simp only [RequestTrace.tpot, RequestTrace.shift, add_sub_add_right_eq_sub]
    e2e := hmap (·.e2e) (fun _ => add_sub_add_right_eq_sub _ _ _) ▸ h.e2e
    throughput := ⟨window, hwindow.shift offset, hpos, by
      rw [hmap (·.outputTokens) fun _ => rfl]
      exact heq⟩ }

theorem evaluateService_shift (offset : ℚ) {report : ServiceReport} :
    evaluateService (traces.map (·.shift offset)) objectives = .ok report ↔
      evaluateService traces objectives = .ok report := by
  have hforth (offset : ℚ) {traces : List RequestTrace}
      (h : evaluateService traces objectives = .ok report) :
      evaluateService (traces.map (·.shift offset)) objectives = .ok report := by
    rw [evaluateService_eq_ok_iff] at h ⊢
    exact ⟨h.1.shift offset, h.2.shift offset⟩
  refine ⟨fun h => ?_, hforth offset⟩
  have hback := hforth (-offset) h
  have hcancel : (traces.map (·.shift offset)).map (·.shift (-offset)) = traces := by
    rw [List.map_map]
    refine (List.map_congr_left fun trace _ => ?_).trans (List.map_id traces)
    simp only [Function.comp_apply, RequestTrace.shift, add_neg_cancel_right, id]
  rwa [hcancel] at hback

/-! ### Pooling -/

variable {report report' pooled : ServiceReport}

theorem Accepted.append (h : Accepted traces objectives) (h' : Accepted traces' objectives) :
    Accepted (traces ++ traces') objectives := by
  obtain ⟨early, hearly, late, hlate, hlt⟩ := h.window_pos
  exact { h with
    nonempty := List.append_ne_nil_of_left_ne_nil h.nonempty _
    valid := List.forall_mem_append.mpr ⟨h.valid, h'.valid⟩
    window_pos := ⟨early, List.mem_append_left _ hearly, late, List.mem_append_left _ hlate, hlt⟩ }

theorem IsWindow.mono (hsub : traces ⊆ traces') {window window' : ℚ}
    (h : IsWindow traces window) (h' : IsWindow traces' window') : window ≤ window' := by
  obtain ⟨_, _, ⟨⟨early, hearly, rfl⟩, -⟩, ⟨⟨late, hlate, rfl⟩, -⟩, rfl⟩ := h
  obtain ⟨first, last, hfirst, hlast, rfl⟩ := h'
  exact sub_le_sub (hlast.2 ⟨late, hsub hlate, rfl⟩) (hfirst.2 ⟨early, hsub hearly, rfl⟩)

/-- A longer window only lowers the throughput of the same tokens. -/
theorem IsReport.throughput_le (haccepted : Accepted traces objectives)
    (h : IsReport traces objectives report) (hsub : traces ⊆ traces') {window : ℚ}
    (hwindow : IsWindow traces' window) :
    ((traces.map (·.outputTokens)).sum : ℤ) / window ≤ report.outputTokensPerSecond := by
  obtain ⟨short, hshort, hpos, heq⟩ := h.throughput
  have htokens : 0 ≤ (traces.map (·.outputTokens)).sum := by
    refine List.sum_nonneg fun tokens htokens => ?_
    obtain ⟨trace, htrace, rfl⟩ := List.mem_map.mp htokens
    exact (haccepted.valid trace htrace).tokens_pos.le
  rw [heq]
  exact div_le_div_of_nonneg_left (by exact_mod_cast htokens) hpos (hshort.mono hsub hwindow)

theorem pooled_throughput_le (haccepted : Accepted traces objectives)
    (haccepted' : Accepted traces' objectives) (h : IsReport traces objectives report)
    (h' : IsReport traces' objectives report')
    (hpooled : IsReport (traces ++ traces') objectives pooled) :
    pooled.outputTokensPerSecond ≤
      report.outputTokensPerSecond + report'.outputTokensPerSecond := by
  obtain ⟨window, hwindow, -, heq⟩ := hpooled.throughput
  have hleft := h.throughput_le haccepted (List.subset_append_left _ traces') hwindow
  have hright := h'.throughput_le haccepted' (List.subset_append_right traces _) hwindow
  rw [heq, List.map_append, List.sum_append, Int.cast_add, add_div]
  exact add_le_add hleft hright

theorem pooled_between {metric : RequestTrace → ℚ} {percentile v w u : ℚ}
    (hv : IsNearestRank percentile (traces.map metric) v)
    (hw : IsNearestRank percentile (traces'.map metric) w)
    (hu : IsNearestRank percentile ((traces ++ traces').map metric) u) :
    min v w ≤ u ∧ u ≤ max v w := by
  rw [List.map_append] at hu
  exact ⟨hv.min_le_append hw hu, hv.append_le_max hw hu⟩

/-- A tail objective missed by the pooled traces is missed by one of the slices. -/
theorem pooled_violation (h : IsReport traces objectives report)
    (h' : IsReport traces' objectives report')
    (hpooled : IsReport (traces ++ traces') objectives pooled) {gate : String}
    (hgate : gate ∈
      ["p95 TTFT exceeded", "p95 TPOT exceeded", "p95 end-to-end latency exceeded"])
    (hmem : gate ∈ pooled.violations) : gate ∈ report.violations ∨ gate ∈ report'.violations := by
  obtain ⟨httft, htpot, he2e, -⟩ := h.mem_violations
  obtain ⟨httft', htpot', he2e', -⟩ := h'.mem_violations
  obtain ⟨httft'', htpot'', he2e'', -⟩ := hpooled.mem_violations
  simp only [List.mem_cons, List.not_mem_nil, or_false] at hgate
  rcases hgate with rfl | rfl | rfl
  · rw [httft, httft', ← lt_max_iff]
    exact (httft''.mp hmem).trans_le (pooled_between h.ttft h'.ttft hpooled.ttft).2
  · rw [htpot, htpot', ← lt_max_iff]
    exact (htpot''.mp hmem).trans_le (pooled_between h.tpot h'.tpot hpooled.tpot).2
  · rw [he2e, he2e', ← lt_max_iff]
    exact (he2e''.mp hmem).trans_le (pooled_between h.e2e h'.e2e hpooled.e2e).2

/-- Reports of pooled slices, of reordered traces and of a moved clock. -/
theorem evaluateService_consistent (objectives : ServiceObjectives) :
    (∀ A B a b, evaluateService A objectives = .ok a → evaluateService B objectives = .ok b →
      ∃ pooled, evaluateService (A ++ B) objectives = .ok pooled ∧
        (min a.p95TtftSeconds b.p95TtftSeconds ≤ pooled.p95TtftSeconds ∧
          pooled.p95TtftSeconds ≤ max a.p95TtftSeconds b.p95TtftSeconds) ∧
        (min a.p95TpotSeconds b.p95TpotSeconds ≤ pooled.p95TpotSeconds ∧
          pooled.p95TpotSeconds ≤ max a.p95TpotSeconds b.p95TpotSeconds) ∧
        (min a.p95E2eSeconds b.p95E2eSeconds ≤ pooled.p95E2eSeconds ∧
          pooled.p95E2eSeconds ≤ max a.p95E2eSeconds b.p95E2eSeconds) ∧
        (∀ gate ∈ ["p95 TTFT exceeded", "p95 TPOT exceeded", "p95 end-to-end latency exceeded"],
          gate ∈ pooled.violations → gate ∈ a.violations ∨ gate ∈ b.violations) ∧
        pooled.outputTokensPerSecond ≤ a.outputTokensPerSecond + b.outputTokensPerSecond) ∧
      (∀ traces traces' report, traces.Perm traces' →
        (evaluateService traces objectives = .ok report ↔
          evaluateService traces' objectives = .ok report)) ∧
      (∀ traces (offset : ℚ) report,
        evaluateService (traces.map (·.shift offset)) objectives = .ok report ↔
          evaluateService traces objectives = .ok report) := by
  refine ⟨fun A B a b hA hB => ?_, fun _ _ _ h => evaluateService_perm h,
    fun _ offset _ => evaluateService_shift offset⟩
  obtain ⟨haccepted, ha⟩ := evaluateService_spec hA
  obtain ⟨haccepted', hb⟩ := evaluateService_spec hB
  obtain ⟨pooled, hrun⟩ := exists_evaluateService (haccepted.append haccepted')
  have hpooled := (evaluateService_spec hrun).2
  exact ⟨pooled, hrun, pooled_between ha.ttft hb.ttft hpooled.ttft,
    pooled_between ha.tpot hb.tpot hpooled.tpot, pooled_between ha.e2e hb.e2e hpooled.e2e,
    fun gate hgate => pooled_violation ha hb hpooled hgate,
    pooled_throughput_le haccepted haccepted' ha hb hpooled⟩

theorem evaluateService_consistent_two_slices :
    ∃ pooled, evaluateService [⟨"r1", 0, 1 / 5, 1, 5⟩, ⟨"r2", 1, 6 / 5, 2, 5⟩] ⟨1, 1, 3, 4⟩ =
      .ok pooled ∧ pooled.outputTokensPerSecond ≤ 5 + 5 := by
  have hA : evaluateService [⟨"r1", 0, 1 / 5, 1, 5⟩] ⟨1, 1, 3, 4⟩ =
      .ok ⟨true, 1 / 5, 1 / 5, 1, 5, []⟩ := by decide +kernel
  have hB : evaluateService [⟨"r2", 1, 6 / 5, 2, 5⟩] ⟨1, 1, 3, 4⟩ =
      .ok ⟨true, 1 / 5, 1 / 5, 1, 5, []⟩ := by decide +kernel
  obtain ⟨pooled, hrun, -, -, -, -, hthroughput⟩ :=
    (evaluateService_consistent ⟨1, 1, 3, 4⟩).1 _ _ _ _ hA hB
  exact ⟨pooled, hrun, hthroughput⟩

end Pooling

end Metrics
