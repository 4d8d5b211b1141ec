import InferencePlatform.BatchingSchedule
import InferencePlatform.LaneBatches

/-!
# The batches of static mode

In static mode only an idle pass starts requests, and what it starts is one batch. `InBatches`
says that the requests started so far came in batches; a pass touches neither the queue nor the
recorded starts after its queue loops, so only the filling loop has to be looked at.
-/

namespace Batching

open PythonBuiltins LaneSchedule OrderedDict

section Loop

variable {capacity : ℤ} {mode : BatchMode} {queue started batch : List BatchRequest}
  {s : BatchState}

def InBatches (capacity : ℤ) (queue : List BatchRequest) (s : BatchState) : Prop :=
  ∃ batches : List (List BatchRequest),
    batches.flatten ++ (s.waiting ++ s.pending) = queue ∧
    ServedInBatches BatchRequest.arrivalStep BatchRequest.outputTokens
      (serviceStart s.firstService) capacity queue batches

theorem InBatches.congr {s' : BatchState} (hstarts : s'.firstService = s.firstService)
    (hqueue : s'.waiting ++ s'.pending = s.waiting ++ s.pending)
    (h : InBatches capacity queue s) : InBatches capacity queue s' := by
  obtain ⟨batches, hsplit, hserved⟩ := h
  refine ⟨batches, ?_, ?_⟩
  · rwa [hqueue]
  · rwa [hstarts]

theorem joined_queue (s : BatchState) :
    (joined s).waiting ++ (joined s).pending = s.waiting ++ s.pending :=
  joinQueue_append s.step s.pending s.waiting

/-- The filling loop takes its batch from the head of the queue. -/
theorem FillsBatch.waiting_eq (h : Serving capacity mode queue started s)
    (hfill : FillsBatch capacity mode queue started batch s) :
    s.waiting = batch ++ (filled capacity s).waiting := by
  have hsplit := hfill.serving.split
  rw [← h.split, List.append_assoc, ← List.append_assoc batch] at hsplit
  exact (List.append_cancel_right (List.append_cancel_left hsplit)).symm

/-- Into idle lanes goes as much of the queue as has arrived and fits. -/
theorem FillsBatch.eq_take (h : Serving capacity mode queue started s)
    (hfill : FillsBatch capacity mode queue started batch s) (hactive : s.active.items = [])
    (hahead : ∀ r ∈ s.pending, s.step < r.arrivalStep) :
    batch = (s.waiting ++ s.pending).take (min capacity.toNat
      ((s.waiting ++ s.pending).countP (fun r => r.arrivalStep ≤ s.step))) := by
  have hwaiting := hfill.waiting_eq h
  have harrived : (s.waiting ++ s.pending).countP (fun r => r.arrivalStep ≤ s.step) =
      s.waiting.length := by
    have hw : s.waiting.countP (fun r => r.arrivalStep ≤ s.step) = s.waiting.length := by
      apply List.countP_eq_length.mpr
      intro r hr
      simpa using h.queued r hr
    have hp : s.pending.countP (fun r => r.arrivalStep ≤ s.step) = 0 := by
      apply List.countP_eq_zero.mpr
      intro r hr
      simpa using hahead r hr
    rw [List.countP_append, hw, hp, Nat.add_zero]
  have hlen : min capacity.toNat s.waiting.length = batch.length := by
    have hle := hfill.serving.active_le
    have hactive_length := hfill.active_length
    have hwaiting_length := congrArg List.length hwaiting
    rw [List.length_append] at hwaiting_length
    rw [hactive, List.length_nil, Nat.zero_add] at hactive_length
    rcases hfill.stopped with hnil | hfull
    · rw [hnil, List.length_nil] at hwaiting_length
      omega
    · omega
  rw [harrived, hlen, hwaiting, List.append_assoc, List.take_left]

/-- A request waits in static mode only while some earlier request is in service. -/
theorem FillsBatch.isLeast_step (h : Serving capacity .static queue started s)
    (hfill : FillsBatch capacity .static queue started batch s) (hactive : s.active.items = [])
    {r : BatchRequest} (hr : r ∈ batch) :
    IsLeast {t | r.arrivalStep ≤ t ∧
      ∀ k ∈ started, serviceStart (filled capacity s).firstService k + k.outputTokens ≤ t}
      s.step := by
  have hwaiting : r ∈ s.waiting := by
    rw [hfill.waiting_eq h]
    exact List.mem_append_left _ hr
  constructor
  · refine ⟨h.queued r hwaiting, ?_⟩
    intro k hk
    rw [← hfill.kept k hk]
    exact h.drained hactive k hk
  · rintro t ⟨hat, hended⟩
    by_contra! hlt
    have hheld := h.waited r (List.mem_append_left _ hwaiting) t hat hlt
    have hnone : busy BatchRequest.outputTokens (serviceStart s.firstService) started t = 0 := by
      apply busy_eq_zero
      rintro k hk ⟨-, hin⟩
      have hend := hended k hk
      rw [← hfill.kept k hk] at hend
      omega
    rw [hnone, lanesHeld] at hheld
    omega

theorem FillsBatch.isBatch (h : Serving capacity .static queue started s)
    (hfill : FillsBatch capacity .static queue started batch s) (hactive : s.active.items = [])
    (hahead : ∀ r ∈ s.pending, s.step < r.arrivalStep) (hbatch : batch ≠ []) :
    IsBatch BatchRequest.arrivalStep BatchRequest.outputTokens
      (serviceStart (filled capacity s).firstService) capacity started
      (s.waiting ++ s.pending) batch := by
  obtain ⟨first, members, rfl⟩ := List.exists_cons_of_ne_nil hbatch
  exact ⟨first, members, s.step, rfl, hfill.begins,
    hfill.isLeast_step h hactive List.mem_cons_self, hfill.eq_take h hactive hahead⟩

theorem InBatches.fill (h : Serving capacity .static queue started s)
    (hfill : FillsBatch capacity .static queue started batch s) (hactive : s.active.items = [])
    (hahead : ∀ r ∈ s.pending, s.step < r.arrivalStep) (hin : InBatches capacity queue s) :
    InBatches capacity queue (filled capacity s) := by
  obtain ⟨batches, hsplit, hserved⟩ := hin
  obtain rfl : started = batches.flatten :=
    List.append_cancel_right (h.split.trans hsplit.symm)
  have hserved' := hserved.congr hfill.kept
  have hsplit' := hfill.serving.split
  by_cases hbatch : batch = []
  · rw [hbatch, List.append_nil] at hsplit'
    exact ⟨batches, hsplit', hserved'⟩
  · refine ⟨batches ++ [batch], ?_, ?_⟩
    · rwa [List.flatten_append, List.flatten_singleton]
    · apply hserved'.concat
      intro rest hrest
      obtain rfl := List.append_cancel_left (hrest.trans hsplit.symm)
      exact hfill.isBatch h hactive hahead hbatch

theorem InBatches.refill (hq : Queue queue) (h : Serving capacity .static queue started s)
    (hin : InBatches capacity queue s) :
    InBatches capacity queue (refilled capacity .static s) := by
  have hjoin : Serving capacity .static queue started (joined s) := h.join
  have hin' : InBatches capacity queue (joined s) := .congr (s := s) rfl (joined_queue s) hin
  by_cases hactive : s.active.items = []
  · obtain ⟨batch, hfill⟩ := hjoin.exists_fillsBatch hq
    have hrefilled : refilled capacity .static s = filled capacity (joined s) :=
      if_pos (Or.inr hactive)
    have hahead : ∀ r ∈ (joined s).pending, s.step < r.arrivalStep := by
      have hserving := hfill.serving
      rw [← hrefilled] at hserving
      have hahead := refilled_ahead hq hserving
      rwa [refilled_pending] at hahead
    rw [hrefilled]
    exact hin'.fill hjoin hfill hactive hahead
  · have hrefilled : refilled capacity .static s = joined s :=
      if_neg (not_or.mpr ⟨by decide, hactive⟩)
    rwa [hrefilled]

/-- After the queue loops, a pass leaves the queue and the recorded starts alone. -/
theorem tokenPhase_frame {s' : BatchState} (h : tokenPhase s = .ok s') :
    s'.firstService = s.firstService ∧ s'.waiting = s.waiting ∧ s'.pending = s.pending := by
  unfold tokenPhase at h
  split_ifs at h with hactive
  · cases hpending : s.pending with
    | nil =>
        rw [hpending] at h
        cases h
    | cons r rest =>
        rw [hpending] at h
        cases h
        exact ⟨rfl, rfl, hpending⟩
  · obtain ⟨out, -, hout⟩ := Except.bind_eq_ok_iff.mp h
    cases hout
    exact ⟨rfl, rfl, rfl⟩

theorem InBatches.pass (hq : Queue queue) {s' : BatchState}
    (hinv : LoopInvariant capacity .static queue s) (hin : InBatches capacity queue s)
    (hpass : iteration capacity .static s = .ok s') : InBatches capacity queue s' := by
  obtain ⟨started, hserving, -⟩ := hinv
  rw [iteration_eq] at hpass
  obtain ⟨hstarts, hwaiting, hpending⟩ := tokenPhase_frame hpass
  exact (hin.refill hq hserving).congr hstarts (by rw [hwaiting, hpending])

end Loop

end Batching
