import InferencePlatform.AdmissionHistory
import InferencePlatform.Reservation

/-!
# Bursts of new requests

When requests under new identifiers arrive one right after another, and each passes the checks
that concern it alone, the controller is a first-fit reservation of its free tokens and free
queue slots.
-/

namespace Admission

open CallRuns OrderedDict PythonBuiltins Reservation

variable {T : Type}

structure Arrival (T : Type) where
  request : AdmissionRequest T
  now : T
  estimatedQueueSeconds : T

namespace Arrival

def identifier (a : Arrival T) : String := a.request.identifier

def tokens (a : Arrival T) : ℤ := a.request.maximumLiveTokens

def call (a : Arrival T) : AdmissionCall T := .decide a.request a.now a.estimatedQueueSeconds

end Arrival

def admission (tokens : ℤ) : AdmissionDecision :=
  ⟨.admitted, tokens, "worst-case live-token reservation fits"⟩

def queueSlot : AdmissionDecision :=
  ⟨.queue, 0, "live-token budget full; bounded queue slot reserved"⟩

def refusal : AdmissionDecision :=
  ⟨.shed, 0, "live-token budget and bounded queue are full"⟩

def freeTokens (self : AdmissionController) : ℤ := self.policy.maxLiveTokens - self.liveTokens

def freeSlots (self : AdmissionController) : ℤ :=
  self.policy.maxQueuedRequests - self.queuedRequests

/-- What a controller makes of a burst: the counters and the new records are those of a first-fit
reservation, and no other record changes. -/
structure Admits (s : AdmissionController) (burst : List (Arrival T))
    (outcome : Outcome (Arrival T)) (final : AdmissionController) : Prop where
  policy_eq : final.policy = s.policy
  live : final.liveTokens = s.liveTokens + (outcome.taken.map Arrival.tokens).sum
  queue : final.queuedRequests = s.queuedRequests + outcome.waiting.length
  taken : ∀ a ∈ outcome.taken, final.decisions.get? a.identifier = some (admission a.tokens)
  waiting : ∀ a ∈ outcome.waiting, final.decisions.get? a.identifier = some queueSlot
  refused : ∀ a ∈ outcome.refused, final.decisions.get? a.identifier = some refusal
  others : ∀ x, x ∉ burst.map Arrival.identifier →
    final.decisions.get? x = s.decisions.get? x

section Burst

variable {self final : AdmissionController} {a : Arrival T} {burst : List (Arrival T)}
  {rest : Outcome (Arrival T)} {d : AdmissionDecision} {n q : ℤ}

/-- The record of the first request survives the rest of the burst, which may not name it. -/
theorem Admits.others_cons
    (h : Admits ⟨self.policy, n, q, self.decisions.set a.identifier d⟩ burst rest final)
    (x : String) (hx : x ∉ (a :: burst).map Arrival.identifier) :
    final.decisions.get? x = self.decisions.get? x := by
  rw [List.map_cons, List.mem_cons, not_or] at hx
  rw [h.others x hx.2, get?_set_of_ne _ _ hx.1]

theorem Admits.record
    (h : Admits ⟨self.policy, n, q, self.decisions.set a.identifier d⟩ burst rest final)
    (ha : a.identifier ∉ burst.map Arrival.identifier) :
    final.decisions.get? a.identifier = some d := by
  rw [h.others _ ha, get?_set_self]

theorem Admits.cons_taken
    (h : Admits ⟨self.policy, self.liveTokens + a.tokens, self.queuedRequests,
      self.decisions.set a.identifier (admission a.tokens)⟩ burst rest final)
    (ha : a.identifier ∉ burst.map Arrival.identifier) :
    Admits self (a :: burst) { rest with taken := a :: rest.taken } final where
  policy_eq := h.policy_eq
  live := by rw [h.live, List.map_cons, List.sum_cons, add_assoc]
  queue := h.queue
  taken := List.forall_mem_cons.mpr ⟨h.record ha, h.taken⟩
  waiting := h.waiting
  refused := h.refused
  others := h.others_cons

theorem Admits.cons_waiting
    (h : Admits ⟨self.policy, self.liveTokens, self.queuedRequests + 1,
      self.decisions.set a.identifier queueSlot⟩ burst rest final)
    (ha : a.identifier ∉ burst.map Arrival.identifier) :
    Admits self (a :: burst) { rest with waiting := a :: rest.waiting } final where
  policy_eq := h.policy_eq
  live := h.live
  queue := by
    rw [h.queue, List.length_cons, Nat.cast_succ, add_assoc, add_comm (1 : ℤ)]
  taken := h.taken
  waiting := List.forall_mem_cons.mpr ⟨h.record ha, h.waiting⟩
  refused := h.refused
  others := h.others_cons

theorem Admits.cons_refused
    (h : Admits ⟨self.policy, self.liveTokens, self.queuedRequests,
      self.decisions.set a.identifier refusal⟩ burst rest final)
    (ha : a.identifier ∉ burst.map Arrival.identifier) :
    Admits self (a :: burst) { rest with refused := a :: rest.refused } final where
  policy_eq := h.policy_eq
  live := h.live
  queue := h.queue
  taken := h.taken
  waiting := h.waiting
  refused := List.forall_mem_cons.mpr ⟨h.record ha, h.refused⟩
  others := h.others_cons

end Burst

variable [Add T] [Zero T] [LT T] [DecidableLT T]

/-- Every check that looks at the request and the policy only. -/
structure Arrival.Passes (policy : AdmissionPolicy) (a : Arrival T) : Prop where
  named : isBlank a.identifier = false
  prompt_nonneg : 0 ≤ a.request.promptTokens
  output_nonneg : 0 ≤ a.request.maxOutputTokens
  tokens_pos : 0 < a.tokens
  estimate : ¬ a.estimatedQueueSeconds < 0
  tokens_le : a.tokens ≤ policy.maxTokensPerRequest
  deadline : ¬ a.request.deadlineAt < a.now + a.estimatedQueueSeconds

/-- The capacity branches of `decide`, the only ones left to a request that passes the others. -/
theorem step_arrival (self : AdmissionController) {a : Arrival T} (hpass : a.Passes self.policy)
    (hnew : self.decisions.get? a.identifier = none) :
    step self a.call =
      if self.liveTokens + a.tokens ≤ self.policy.maxLiveTokens then
        (.ok (some (admission a.tokens)),
          { self with
            liveTokens := self.liveTokens + a.tokens
            decisions := self.decisions.set a.identifier (admission a.tokens) })
      else if self.queuedRequests < self.policy.maxQueuedRequests then
        (.ok (some queueSlot),
          { self with
            queuedRequests := self.queuedRequests + 1
            decisions := self.decisions.set a.identifier queueSlot })
      else
        (.ok (some refusal),
          { self with decisions := self.decisions.set a.identifier refusal }) := by
  obtain ⟨hnamed, hprompt, houtput, hpos, hest, hbound, hdeadline⟩ := hpass
  rw [Arrival.tokens] at hpos hbound
  have hneg : ¬ pyMin a.request.promptTokens [a.request.maxOutputTokens] < 0 := by
    rw [pyMin_lt_iff]
    simp only [List.mem_singleton, exists_eq_left]
    omega
  have hnamed' : ¬ isBlank a.request.identifier = true := by
    simpa [Arrival.identifier] using hnamed
  rw [Arrival.call, step, decide_run_of_new _ a.request a.now a.estimatedQueueSeconds hnew]
  dsimp only
  rw [if_neg hnamed', if_neg hneg, if_neg (not_le.mpr hpos), if_neg hest,
    if_neg (not_lt.mpr hbound), if_neg hdeadline]
  by_cases hfits : self.liveTokens + a.tokens ≤ self.policy.maxLiveTokens
  · rw [if_pos hfits, if_pos (show self.liveTokens + a.request.maximumLiveTokens ≤ _ from hfits)]
    rfl
  rw [if_neg hfits, if_neg (show ¬ self.liveTokens + a.request.maximumLiveTokens ≤ _ from hfits)]
  by_cases hslot : self.queuedRequests < self.policy.maxQueuedRequests
  · rw [if_pos hslot, if_pos hslot]
    rfl
  · rw [if_neg hslot, if_neg hslot]
    rfl

theorem burst_admits (self : AdmissionController) (burst : List (Arrival T))
    (hpass : ∀ a ∈ burst, a.Passes self.policy) (hnd : (burst.map Arrival.identifier).Nodup)
    (hnew : ∀ a ∈ burst, self.decisions.get? a.identifier = none) :
    Admits self burst (firstFit Arrival.tokens (freeTokens self) (freeSlots self) burst)
      (finalState step self (burst.map Arrival.call)) := by
  induction burst generalizing self with
  | nil => exact ⟨rfl, by simp [firstFit], by simp [firstFit], by simp [firstFit],
      by simp [firstFit], by simp [firstFit], fun x _ => rfl⟩
  | cons a burst ih =>
      obtain ⟨ha, hnd⟩ := List.nodup_cons.mp hnd
      have hfresh (d : AdmissionDecision) : ∀ b ∈ burst,
          (self.decisions.set a.identifier d).get? b.identifier = none := by
        intro b hb
        have hne : b.identifier ≠ a.identifier := fun h => ha (h ▸ List.mem_map_of_mem hb)
        rw [get?_set_of_ne _ _ hne, hnew b (List.mem_cons_of_mem a hb)]
      have hrest (n q : ℤ) (d : AdmissionDecision) :=
        ih ⟨self.policy, n, q, self.decisions.set a.identifier d⟩
          (fun b hb => hpass b (List.mem_cons_of_mem a hb)) hnd (hfresh d)
      rw [List.map_cons, finalState_cons,
        step_arrival self (hpass a List.mem_cons_self) (hnew a List.mem_cons_self)]
      by_cases hfits : self.liveTokens + a.tokens ≤ self.policy.maxLiveTokens
      · rw [if_pos hfits, firstFit_cons_of_le (by rw [freeTokens]; omega)]
        have hfree : freeTokens self - a.tokens =
            self.policy.maxLiveTokens - (self.liveTokens + a.tokens) := by
          rw [freeTokens]
          omega
        rw [hfree]
        exact (hrest _ _ _).cons_taken ha
      have hover : ¬ a.tokens ≤ freeTokens self := by
        rw [freeTokens]
        omega
      by_cases hslot : self.queuedRequests < self.policy.maxQueuedRequests
      · rw [if_neg hfits, if_pos hslot, firstFit_cons_of_slot hover (by rw [freeSlots]; omega)]
        have hfree : freeSlots self - 1 =
            self.policy.maxQueuedRequests - (self.queuedRequests + 1) := by
          rw [freeSlots]
          omega
        rw [hfree]
        exact (hrest _ _ _).cons_waiting ha
      · rw [if_neg hfits, if_neg hslot, firstFit_cons_of_full hover (by rw [freeSlots]; omega)]
        exact (hrest _ _ _).cons_refused ha

section Reached

variable {policy : AdmissionPolicy} {self start final final' : AdmissionController}
  {burst burst' : List (Arrival T)}

theorem InStep.freeTokens_eq (h : InStep policy start) :
    freeTokens start = policy.maxLiveTokens - start.liveTokens := by
  rw [freeTokens, h.policy_eq]

theorem InStep.freeTokens_nonneg (h : InStep policy start) : 0 ≤ freeTokens start := by
  have hle := h.live_le
  rw [h.freeTokens_eq]
  omega

theorem InStep.freeSlots_nonneg (h : InStep policy start) : 0 ≤ freeSlots start := by
  have hle := h.queued_le
  rw [freeSlots, h.policy_eq]
  omega

/-- First fit on what a controller has free. -/
def served (start : AdmissionController) (burst : List (Arrival T)) : Outcome (Arrival T) :=
  firstFit Arrival.tokens (freeTokens start) (freeSlots start) burst

omit [Add T] [Zero T] [LT T] [DecidableLT T] in
theorem served_taken_subperm (start : AdmissionController) (burst : List (Arrival T)) :
    (served start burst).taken.Subperm burst :=
  (List.sublist_append_left _ _).subperm.trans (firstFit_perm _ _ _ burst).subperm

omit [DecidableLT T] in
theorem Admits.passed (h : Admits start burst (served start burst) final)
    (hI : InStep policy start) (hpass : ∀ a ∈ burst, a.Passes policy) {a : Arrival T}
    (ha : a ∈ burst) (htaken : a ∉ (served start burst).taken) :
    policy.maxLiveTokens < final.liveTokens + a.tokens := by
  have hmem := (firstFit_perm Arrival.tokens (freeTokens start) (freeSlots start) burst).mem_iff.mpr
    ha
  have hpassed := List.mem_append.mp ((List.mem_append.mp hmem).resolve_left htaken)
  have hlt := free_lt_of_passed (fun a ha => (hpass a ha).tokens_pos.le) hpassed
  have hlive := h.live
  rw [hI.freeTokens_eq] at hlt
  rw [served, hI.freeTokens_eq] at hlive
  omega

omit [Add T] [Zero T] [LT T] [DecidableLT T] in
/-- A burst that fits is admitted whole, which settles the counters and every record. -/
theorem Admits.of_taken_eq (h : Admits start burst (served start burst) final)
    (hall : (served start burst).taken = burst) :
    final.liveTokens = start.liveTokens + (burst.map Arrival.tokens).sum ∧
      final.queuedRequests = start.queuedRequests ∧
      ∀ a ∈ burst, final.decisions.get? a.identifier = some (admission a.tokens) := by
  have hlength : _ = burst.length :=
    (firstFit_perm Arrival.tokens (freeTokens start) (freeSlots start) burst).length_eq
  change ((served start burst).taken ++ ((served start burst).waiting ++
    (served start burst).refused)).length = _ at hlength
  rw [List.length_append, List.length_append, hall] at hlength
  have hqueue := h.queue
  refine ⟨?_, by omega, ?_⟩
  · rw [h.live, hall]
  · intro a ha
    exact h.taken a (by rwa [hall])

omit [DecidableLT T] in
theorem Admits.sum_lt (h : Admits start burst (served start burst) final)
    (hpass : ∀ a ∈ burst, a.Passes policy) (hpos : 0 < policy.maxTokensPerRequest)
    {selected : List (Arrival T)} (hsub : selected.Subperm burst)
    (hfits : (selected.map Arrival.tokens).sum ≤ freeTokens start) :
    start.liveTokens + (selected.map Arrival.tokens).sum <
      final.liveTokens + policy.maxTokensPerRequest := by
  have hlt := sum_lt_of_fits (freeSlots start) (fun a ha => (hpass a ha).tokens_pos.le)
    (fun a ha => (hpass a ha).tokens_le) hpos hsub hfits
  have hlive := h.live
  rw [served] at hlive
  omega

/-- In any state a run can reach, a burst is served by first fit, the queue fills up before
anything is shed, everything is admitted exactly when all of it fits, and what is passed over
would not fit at the end either. -/
theorem burst_firstFit (h : AdmissionController.init policy = .ok self)
    (before : List (AdmissionCall T)) (burst : List (Arrival T))
    (hpass : ∀ a ∈ burst, a.Passes policy) (hnd : (burst.map Arrival.identifier).Nodup)
    (hnew : ∀ a ∈ burst, (finalState step self before).decisions.get? a.identifier = none) :
    let start := finalState step self before
    let final := finalState step start (burst.map Arrival.call)
    let outcome := firstFit Arrival.tokens (freeTokens start) (freeSlots start) burst
    Admits start burst outcome final ∧
    (outcome.waiting.length : ℤ) = min (freeSlots start) (burst.length - outcome.taken.length) ∧
    (outcome.taken = burst ↔ (burst.map Arrival.tokens).sum ≤ freeTokens start) ∧
    ∀ a ∈ burst, a ∉ outcome.taken → policy.maxLiveTokens < final.liveTokens + a.tokens := by
  intro start final outcome
  have hI : InStep policy start := run_inStep (init_inStep h) before
  have hadmits := burst_admits start burst (by rwa [hI.policy_eq]) hnd hnew
  refine ⟨hadmits, length_waiting hI.freeSlots_nonneg, ?_, ?_⟩
  · exact taken_eq_iff hI.freeTokens_nonneg fun a ha => (hpass a ha).tokens_pos.le
  · exact fun a => hadmits.passed hI hpass

def sampleBurst : List (Arrival ℚ) :=
  [⟨⟨"chat", 40, 40, 10⟩, 0, 1⟩, ⟨⟨"batch", 30, 20, 10⟩, 0, 1⟩]

theorem sampleBurst_passes : ∀ a ∈ sampleBurst, a.Passes ⟨100, 1, 80⟩ := by
  simp only [sampleBurst, List.forall_mem_cons, List.not_mem_nil, false_imp_iff, implies_true,
    and_true]
  constructor <;> constructor <;> decide +kernel

theorem burst_firstFit_sample :
    let start : AdmissionController := ⟨⟨100, 1, 80⟩, 0, 0, .empty⟩
    ((firstFit Arrival.tokens (freeTokens start) (freeSlots start) sampleBurst).taken =
      sampleBurst ↔ (sampleBurst.map Arrival.tokens).sum ≤ freeTokens start) :=
  (burst_firstFit (show AdmissionController.init ⟨100, 1, 80⟩ = _ from rfl) [] sampleBurst
    sampleBurst_passes (by decide +kernel) (fun _ _ => rfl)).2.2.1

/-- Arrival order matters by less than the largest request the policy allows: no selection of the
burst that fits the free tokens, and so no other order, admits that many tokens more. -/
theorem burst_order (h : AdmissionController.init policy = .ok self)
    (before : List (AdmissionCall T)) (hpass : ∀ a ∈ burst, a.Passes policy)
    (hnd : (burst.map Arrival.identifier).Nodup)
    (hnew : ∀ a ∈ burst, (finalState step self before).decisions.get? a.identifier = none)
    (hperm : burst'.Perm burst) :
    let start := finalState step self before
    let final := finalState step start (burst.map Arrival.call)
    let final' := finalState step start (burst'.map Arrival.call)
    (∀ selected : List (Arrival T), selected.Subperm burst →
      (selected.map Arrival.tokens).sum ≤ freeTokens start →
      start.liveTokens + (selected.map Arrival.tokens).sum <
        final.liveTokens + policy.maxTokensPerRequest) ∧
    |final'.liveTokens - final.liveTokens| < policy.maxTokensPerRequest ∧
    ((burst.map Arrival.tokens).sum ≤ freeTokens start →
      final'.liveTokens = final.liveTokens ∧ final'.queuedRequests = final.queuedRequests ∧
      ∀ x, final'.decisions.get? x = final.decisions.get? x) := by
  intro start final final'
  have hI : InStep policy start := run_inStep (init_inStep h) before
  have hpos : 0 < policy.maxTokensPerRequest := (AdmissionController.init_eq_ok_iff.mp h).1.1.2
  have hpass' : ∀ a ∈ burst', a.Passes policy := fun a ha => hpass a (hperm.subset ha)
  have hids := hperm.map Arrival.identifier
  have hadmits : Admits start burst (served start burst) final :=
    burst_admits start burst (by rwa [hI.policy_eq]) hnd hnew
  have hadmits' : Admits start burst' (served start burst') final' :=
    burst_admits start burst' (by rwa [hI.policy_eq]) (hids.nodup_iff.mpr hnd)
      (fun a ha => hnew a (hperm.subset ha))
  refine ⟨fun selected => hadmits.sum_lt hpass hpos, ?_, ?_⟩
  · have hlt := hadmits.sum_lt hpass hpos ((served_taken_subperm start burst').trans hperm.subperm)
      (sum_taken_le Arrival.tokens (freeSlots start) _ hI.freeTokens_nonneg)
    have hlt' := hadmits'.sum_lt hpass' hpos
      ((served_taken_subperm start burst).trans hperm.symm.subperm)
      (sum_taken_le Arrival.tokens (freeSlots start) _ hI.freeTokens_nonneg)
    rw [← hadmits'.live] at hlt
    rw [← hadmits.live] at hlt'
    rw [abs_lt]
    constructor
    · linarith only [hlt']
    · linarith only [hlt]
  · intro hfits
    have hsum := (hperm.map Arrival.tokens).sum_eq
    have hsize : ∀ a ∈ burst, 0 ≤ a.tokens := fun a ha => (hpass a ha).tokens_pos.le
    obtain ⟨hlive, hqueue, hrecords⟩ := hadmits.of_taken_eq
      ((taken_eq_iff hI.freeTokens_nonneg hsize).mpr hfits)
    obtain ⟨hlive', hqueue', hrecords'⟩ := hadmits'.of_taken_eq
      ((taken_eq_iff hI.freeTokens_nonneg fun a ha => hsize a (hperm.subset ha)).mpr
        (hsum.trans_le hfits))
    refine ⟨?_, hqueue'.trans hqueue.symm, fun x => ?_⟩
    · rw [hlive, hlive', hsum]
    · by_cases hx : x ∈ burst.map Arrival.identifier
      · obtain ⟨a, ha, rfl⟩ := List.mem_map.mp hx
        rw [hrecords a ha, hrecords' a (hperm.mem_iff.mpr ha)]
      · rw [hadmits.others x hx, hadmits'.others x (fun hmem => hx (hids.mem_iff.mp hmem))]

theorem burst_order_sample :
    let start : AdmissionController := ⟨⟨100, 1, 80⟩, 0, 0, .empty⟩
    |(finalState step start (sampleBurst.reverse.map Arrival.call)).liveTokens -
      (finalState step start (sampleBurst.map Arrival.call)).liveTokens| < 80 :=
  (burst_order (show AdmissionController.init ⟨100, 1, 80⟩ = _ from rfl) [] sampleBurst_passes
    (by decide +kernel) (fun _ _ => rfl) (List.reverse_perm sampleBurst)).2.1

end Reached

end Admission
