import InferencePlatform.AdmissionRecords
import InferencePlatform.DictHistory

/-!
# The log of a controller

A first decision writes a record and a successful release drops one; every other call leaves the
table alone. `history` lists these events for a run, and the counters are the balance of that
log. Shed records are never dropped, so the table holds every rejection ever made besides the
work in the system, which the policy bounds.

The last section shows that the records are all of the state: two histories that leave the same
records, in whatever order they were made, are answered alike ever after.
-/

namespace Admission

open CallRuns OrderedDict PythonBuiltins

variable {T : Type} [Add T] [Zero T] [LT T] [DecidableLT T]

def logged (self : AdmissionController) (call : AdmissionCall T) :
    List (Event String AdmissionDecision) :=
  match call, (step self call).1, self.decisions.get? call.identifier with
  | .decide request _ _, .ok (some d), none => [.wrote request.identifier d]
  | .release x, .ok none, some d => [.dropped x d]
  | _, _, _ => []

def history (self : AdmissionController) :
    List (AdmissionCall T) → List (Event String AdmissionDecision)
  | [] => []
  | call :: calls => logged self call ++ history (step self call).2 calls

/-- What a log says about the two controllers around it. -/
structure Ledger (s : AdmissionController) (log : List (Event String AdmissionDecision))
    (s' : AdmissionController) : Prop where
  table : Logged s.decisions log s'.decisions
  live : s'.liveTokens = s.liveTokens + (log.map (Event.signed liveWeight)).sum
  queue : s'.queuedRequests = s.queuedRequests + (log.map (Event.signed queueWeight)).sum
  kept : ∀ x d, Event.dropped x d ∈ log → d.action ≠ .shed

theorem Ledger.refl (self : AdmissionController) : Ledger self [] self :=
  ⟨.nil _, by simp, by simp, by simp⟩

theorem Ledger.append {s s' s'' : AdmissionController}
    {log log' : List (Event String AdmissionDecision)}
    (h : Ledger s log s') (h' : Ledger s' log' s'') : Ledger s (log ++ log') s'' where
  table := h.table.append h'.table
  live := by rw [h'.live, h.live, List.map_append, List.sum_append, add_assoc]
  queue := by rw [h'.queue, h.queue, List.map_append, List.sum_append, add_assoc]
  kept := by
    intro x d hd
    rcases List.mem_append.mp hd with hd | hd
    · exact h.kept x d hd
    · exact h'.kept x d hd

section Steps

variable {self : AdmissionController} {x : String} {d : AdmissionDecision} {n q : ℤ}

theorem ledger_wrote (hnew : self.decisions.get? x = none)
    (hn : n = self.liveTokens + liveWeight d) (hq : q = self.queuedRequests + queueWeight d) :
    Ledger self [.wrote x d] ⟨self.policy, n, q, self.decisions.set x d⟩ where
  table := .wrote hnew (.nil _)
  live := by simp [hn, Event.signed]
  queue := by simp [hq, Event.signed]
  kept := by simp

theorem ledger_dropped (hknown : self.decisions.get? x = some d) (hshed : d.action ≠ .shed)
    (hn : n = self.liveTokens - liveWeight d) (hq : q = self.queuedRequests - queueWeight d) :
    Ledger self [.dropped x d] ⟨self.policy, n, q, self.decisions.erase x⟩ where
  table := .dropped hknown (.nil _)
  live := by simp [hn, Event.signed, sub_eq_add_neg]
  queue := by simp [hq, Event.signed, sub_eq_add_neg]
  kept := by
    intro y e he
    obtain ⟨rfl, rfl⟩ : y = x ∧ e = d := by simpa using he
    exact hshed

end Steps

theorem step_ledger (self : AdmissionController) (call : AdmissionCall T) :
    Ledger self (logged self call) (step self call).2 := by
  have ht := step_transition self call
  unfold logged
  generalize (step self call).1 = answer at ht ⊢
  generalize (step self call).2 = self' at ht ⊢
  cases ht with
  | raised call e =>
      cases call <;> exact Ledger.refl self
  | replayed request now est hknown =>
      simp only [AdmissionCall.identifier, hknown]
      exact Ledger.refl self
  | shed request now est reason hnew =>
      simp only [AdmissionCall.identifier, hnew]
      exact ledger_wrote hnew (by simp [liveWeight]) (by simp [queueWeight])
  | admitted request now est reason hnew =>
      simp only [AdmissionCall.identifier, hnew]
      exact ledger_wrote hnew (by simp [liveWeight]) (by simp [queueWeight])
  | queued request now est reason hnew =>
      simp only [AdmissionCall.identifier, hnew]
      exact ledger_wrote hnew (by simp [liveWeight]) (by simp [queueWeight])
  | releasedTokens x hknown haction =>
      simp only [AdmissionCall.identifier, hknown]
      exact ledger_dropped hknown (by simp [haction]) (by simp [liveWeight, haction])
        (by simp [queueWeight, haction])
  | releasedSlot x hknown haction =>
      simp only [AdmissionCall.identifier, hknown]
      exact ledger_dropped hknown (by simp [haction]) (by simp [liveWeight, haction])
        (by simp [queueWeight, haction])

theorem history_ledger (self : AdmissionController) (calls : List (AdmissionCall T)) :
    Ledger self (history self calls) (finalState step self calls) := by
  induction calls generalizing self with
  | nil => exact Ledger.refl self
  | cons call calls ih => exact (step_ledger self call).append (ih (step self call).2)

/-- The call is the one that asked for the tokens of an admission. -/
def Charges (call : AdmissionCall T) (x : String) (d : AdmissionDecision) : Prop :=
  ∃ request now est, call = .decide request now est ∧ request.identifier = x ∧
    d.reservedTokens = request.maximumLiveTokens

theorem step_charges (self : AdmissionController) (call : AdmissionCall T) {x : String}
    {d : AdmissionDecision} (h : Event.wrote x d ∈ logged self call) (hd : d.action = .admitted) :
    Charges call x d := by
  have ht := step_transition self call
  unfold logged at h
  generalize (step self call).1 = answer at ht h
  generalize (step self call).2 = self' at ht
  cases ht with
  | raised call e => cases call <;> cases h
  | replayed request now est hknown =>
      simp only [AdmissionCall.identifier, hknown] at h
      cases h
  | admitted request now est reason hnew =>
      simp only [AdmissionCall.identifier, hnew, List.mem_singleton, Event.wrote.injEq] at h
      obtain ⟨rfl, rfl⟩ := h
      exact ⟨request, now, est, rfl, rfl, rfl⟩
  | shed request now est reason hnew | queued request now est reason hnew =>
      simp only [AdmissionCall.identifier, hnew, List.mem_singleton, Event.wrote.injEq] at h
      obtain ⟨rfl, rfl⟩ := h
      cases hd
  | releasedTokens x hknown | releasedSlot x hknown =>
      simp only [AdmissionCall.identifier, hknown, List.mem_singleton] at h
      cases h

theorem history_charges (self : AdmissionController) (calls : List (AdmissionCall T)) {x : String}
    {d : AdmissionDecision} (h : Event.wrote x d ∈ history self calls)
    (hd : d.action = .admitted) : ∃ call ∈ calls, Charges call x d := by
  induction calls generalizing self with
  | nil => cases h
  | cons call calls ih =>
      rcases List.mem_append.mp h with h | h
      · exact ⟨call, List.mem_cons_self, step_charges self call h hd⟩
      · obtain ⟨call', hmem, hcharges⟩ := ih (step self call).2 h
        exact ⟨call', List.mem_cons_of_mem call hmem, hcharges⟩

/-- Under each identifier decisions and releases alternate, every release gives up the decision
made before it, and the counters are the balance of the log, in which every admission stands for
the tokens of the request that asked for it. -/
theorem run_ledger (self : AdmissionController) (calls : List (AdmissionCall T)) :
    let final := finalState step self calls
    let log := history self calls
    (∀ x, (log.filter (fun e => e.key = x)).foldlM Event.cell (self.decisions.get? x) =
      some (final.decisions.get? x)) ∧
    final.liveTokens - self.liveTokens = (log.map (Event.signed liveWeight)).sum ∧
    final.queuedRequests - self.queuedRequests = (log.map (Event.signed queueWeight)).sum ∧
    (∀ x d, Event.dropped x d ∈ log → d.action ≠ .shed) ∧
    ∀ x d, Event.wrote x d ∈ log → d.action = .admitted → ∃ call ∈ calls, Charges call x d := by
  intro final log
  have h := history_ledger self calls
  exact ⟨h.table.cells, sub_eq_iff_eq_add'.mpr h.live, sub_eq_iff_eq_add'.mpr h.queue, h.kept,
    fun x d => history_charges self calls⟩

/-! ### How the table grows -/

def sheds (log : List (Event String AdmissionDecision)) : ℕ :=
  log.countP fun
    | .wrote _ d => d.action = .shed
    | .dropped _ _ => false

def shedWeight (d : AdmissionDecision) : ℤ := if d.action = .shed then 1 else 0

def heldWeight (d : AdmissionDecision) : ℤ := if d.action ≠ .shed then 1 else 0

theorem length_eq_weights (decisions : Table) :
    (decisions.items.length : ℤ) = total shedWeight decisions + total heldWeight decisions := by
  simp only [total, OrderedDict.values, List.map_map]
  induction decisions.items with
  | nil => rfl
  | cons e items ih =>
      simp only [List.length_cons, List.map_cons, List.sum_cons, Nat.cast_succ, ih]
      by_cases he : e.2.action = .shed
      · simp [shedWeight, heldWeight, he]
        omega
      · simp [shedWeight, heldWeight, he]
        omega

theorem length_held (self : AdmissionController) :
    ((held self).length : ℤ) = total heldWeight self.decisions := by
  have hones := total_ite (fun d : AdmissionDecision => d.action ≠ .shed) (fun _ => (1 : ℤ))
    self.decisions
  rw [List.map_const', List.sum_replicate, nsmul_one] at hones
  refine Eq.trans ?_ hones.symm
  simp [held, OrderedDict.values, List.filter_map, Function.comp_def]

theorem sheds_eq_sum {log : List (Event String AdmissionDecision)}
    (h : ∀ x d, Event.dropped x d ∈ log → d.action ≠ .shed) :
    (sheds log : ℤ) = (log.map (Event.signed shedWeight)).sum := by
  rw [signed_sum_of_wrote (f := shedWeight) fun x d hd => if_neg (h x d hd)]
  clear h
  induction log with
  | nil => rfl
  | cons e log ih =>
      rw [List.map_cons, List.sum_cons, ← ih, sheds, List.countP_cons]
      cases e with
      | wrote x d =>
          by_cases hd : d.action = .shed
          · simp [shedWeight, hd, sheds, add_comm]
          · simp [shedWeight, hd, sheds]
      | dropped x d => simp [sheds]

/-- Admitted work holds a token each and queued work a slot each. -/
theorem InStep.length_held_le {policy : AdmissionPolicy} {c : AdmissionController}
    (h : InStep policy c) :
    ((held c).length : ℤ) ≤ policy.maxLiveTokens + policy.maxQueuedRequests := by
  have hweight : total heldWeight c.decisions ≤
      total (fun d => liveWeight d + queueWeight d) c.decisions := by
    apply List.sum_le_sum
    intro d hd
    obtain ⟨e, he, rfl⟩ := List.mem_map.mp hd
    have hreserved := h.reserved e.1 e.2 (get?_eq_some_iff.mpr he)
    cases ha : e.2.action with
    | admitted =>
        have hpos := (hreserved ha).1
        simpa [heldWeight, liveWeight, queueWeight, ha] using hpos
    | queue => simp [heldWeight, liveWeight, queueWeight, ha]
    | shed => simp [heldWeight, liveWeight, queueWeight, ha]
  have hsplit : total (fun d => liveWeight d + queueWeight d) c.decisions =
      c.liveTokens + c.queuedRequests := by
    rw [h.live_eq, h.queued_eq, admittedTokens_eq_total, queuedCount_eq_total]
    exact List.sum_map_add
  have hlive := h.live_le
  have hqueued := h.queued_le
  rw [length_held]
  omega

section Growth

variable {policy : AdmissionPolicy} {self : AdmissionController}

/-- Requests that no policy with the bound of `policy` accepts, under fresh identifiers. -/
def oversized (policy : AdmissionPolicy) (est : T) (n : ℕ) : List (AdmissionCall T) :=
  (List.range n).map fun i =>
    .decide ⟨repeatName i, policy.maxTokensPerRequest + 1, 0, 0⟩ 0 est

theorem step_oversized (self : AdmissionController) (request : AdmissionRequest T) (now est : T)
    (hid : isBlank request.identifier = false)
    (hprompt : 0 ≤ request.promptTokens) (houtput : 0 ≤ request.maxOutputTokens)
    (htokens : 0 < request.maximumLiveTokens) (hest : ¬ est < 0)
    (hbound : self.policy.maxTokensPerRequest < request.maximumLiveTokens)
    (hnew : self.decisions.get? request.identifier = none) :
    (step self (.decide request now est)).2 =
      { self with
        decisions := self.decisions.set request.identifier
          ⟨.shed, 0, "request token bound exceeds policy"⟩ } := by
  have hneg : ¬ pyMin request.promptTokens [request.maxOutputTokens] < 0 := by
    rw [pyMin_lt_iff]
    simp only [List.mem_singleton, exists_eq_left]
    omega
  rw [step, decide_run_of_new _ request now est hnew]
  dsimp only
  rw [if_neg (by simp [hid]), if_neg hneg, if_neg (by omega), if_neg hest, if_pos hbound]
  rfl

theorem finalState_oversized (self : AdmissionController)
    (hbound : 0 < self.policy.maxTokensPerRequest) {est : T}
    (hest : ¬ est < 0) (hempty : self.decisions = .empty) (n : ℕ) :
    let final := finalState step self (oversized self.policy est n)
    final.policy = self.policy ∧ final.liveTokens = self.liveTokens ∧
      final.queuedRequests = self.queuedRequests ∧ final.decisions.items.length = n ∧
      ∀ i, n ≤ i → final.decisions.get? (repeatName i) = none := by
  induction n with
  | zero =>
      refine ⟨rfl, rfl, rfl, ?_, fun i _ => ?_⟩
      · simp [oversized, hempty, OrderedDict.empty]
      · simp [oversized, hempty]
  | succ n ih =>
      obtain ⟨hpolicy, hlive, hqueue, hlength, hnew⟩ := ih
      have hsplit : oversized self.policy est (n + 1) = oversized self.policy est n ++
          [.decide ⟨repeatName n, self.policy.maxTokensPerRequest + 1, 0, 0⟩ 0
            est] := by
        simp [oversized, List.range_succ]
      have hstep := step_oversized (finalState step self (oversized self.policy est n))
        ⟨repeatName n, self.policy.maxTokensPerRequest + 1, 0, 0⟩ 0 est
        (isBlank_repeatName n) (by dsimp only; omega) le_rfl
        (by simp only [AdmissionRequest.maximumLiveTokens]; omega) hest
        (by simp only [AdmissionRequest.maximumLiveTokens, hpolicy]; omega) (hnew n le_rfl)
      rw [hsplit, finalState_concat, hstep]
      refine ⟨hpolicy, hlive, hqueue, ?_, fun i hi => ?_⟩
      · rw [items_set_of_not_mem _ (get?_eq_none_iff.mp (hnew n le_rfl)), List.length_append,
          hlength]
        rfl
      · have hne : repeatName i ≠ repeatName n := fun h => by
          have := repeatName_injective h
          omega
        rw [get?_set_of_ne _ _ hne, hnew i (by omega)]

/-- Besides the work in the system, which the policy bounds, the table holds one record for every
rejection ever made, so no policy bounds the table. -/
theorem table_growth (h : AdmissionController.init policy = .ok self)
    (hclock : ∃ est : T, ¬ est < 0) :
    (∀ calls : List (AdmissionCall T),
      let final := finalState step self calls
      final.decisions.items.length = sheds (history self calls) + (held final).length ∧
        ((held final).length : ℤ) ≤ policy.maxLiveTokens + policy.maxQueuedRequests) ∧
    ∀ n, ∃ calls : List (AdmissionCall T), calls.length = n ∧
      let final := finalState step self calls
      final.decisions.items.length = n ∧ final.liveTokens = 0 ∧ final.queuedRequests = 0 := by
  constructor
  · intro calls final
    have hledger := history_ledger self calls
    have hshed := hledger.table.total_eq shedWeight
    have hempty : total shedWeight self.decisions = 0 := by
      obtain ⟨-, rfl⟩ := AdmissionController.init_eq_ok_iff.mp h
      rfl
    have hlength := length_eq_weights final.decisions
    rw [hempty, zero_add, ← sheds_eq_sum hledger.kept] at hshed
    rw [hshed, ← length_held] at hlength
    exact ⟨by exact_mod_cast hlength, (run_inStep (init_inStep h) calls).length_held_le⟩
  · intro n
    obtain ⟨est, hest⟩ := hclock
    obtain ⟨⟨⟨-, hbound⟩, -⟩, rfl⟩ := AdmissionController.init_eq_ok_iff.mp h
    obtain ⟨-, hlive, hqueue, hlength, -⟩ :=
      finalState_oversized ⟨policy, 0, 0, .empty⟩ hbound hest rfl n
    exact ⟨oversized policy est n, by simp [oversized], hlength, hlive, hqueue⟩

theorem table_growth_small : ∃ calls : List (AdmissionCall ℚ), calls.length = 1000 ∧
    let final := finalState step ⟨⟨100, 1, 80⟩, 0, 0, .empty⟩ calls
    final.decisions.items.length = 1000 ∧ final.liveTokens = 0 ∧ final.queuedRequests = 0 :=
  (table_growth (T := ℚ) (show AdmissionController.init ⟨100, 1, 80⟩ = _ from rfl)
    ⟨0, by decide +kernel⟩).2 1000

end Growth

/-! ### The records decide the future -/

/-- The same controller up to the order of its records. -/
structure SameRecords (s t : AdmissionController) : Prop where
  policy_eq : s.policy = t.policy
  live_eq : s.liveTokens = t.liveTokens
  queued_eq : s.queuedRequests = t.queuedRequests
  get?_eq : ∀ x, s.decisions.get? x = t.decisions.get? x

theorem SameRecords.of_inStep {policy : AdmissionPolicy} {s t : AdmissionController}
    (hs : InStep policy s) (ht : InStep policy t)
    (h : ∀ x, s.decisions.get? x = t.decisions.get? x) : SameRecords s t where
  policy_eq := hs.policy_eq.trans ht.policy_eq.symm
  live_eq := by
    rw [hs.live_eq, ht.live_eq, admittedTokens_eq_total, admittedTokens_eq_total,
      total_eq_of_get? liveWeight h]
  queued_eq := by
    rw [hs.queued_eq, ht.queued_eq, queuedCount_eq_total, queuedCount_eq_total,
      total_eq_of_get? queueWeight h]
  get?_eq := h

theorem SameRecords.view_eq {s t : AdmissionController} (h : SameRecords s t) (x : String) :
    othersView x s = othersView x t :=
  othersView_eq_iff.mpr ⟨h.policy_eq, h.live_eq, h.queued_eq, fun y _ => h.get?_eq y⟩

/-- Seen from any other name, controllers with the same records take the same step. -/
theorem step_sameRecords {s t : AdmissionController} (h : SameRecords s t)
    (call : AdmissionCall T) :
    (step s call).1 = (step t call).1 ∧ SameRecords (step s call).2 (step t call).2 := by
  have hne : call.identifier ≠ call.identifier ++ "a" := by
    intro heq
    have hlen := congrArg String.length heq
    rw [String.length_append] at hlen
    exact absurd hlen (by simp)
  obtain ⟨hanswer, hview⟩ := step_congr_view _ s t call hne (h.view_eq (call.identifier ++ "a"))
  obtain ⟨hpolicy, hlive, hqueued, hget⟩ := othersView_eq_iff.mp hview
  refine ⟨hanswer, hpolicy, hlive, hqueued, fun y => ?_⟩
  by_cases hy : y = call.identifier ++ "a"
  · rw [hy, step_get?_of_ne s call hne.symm, step_get?_of_ne t call hne.symm, h.get?_eq]
  · exact hget y hy

theorem run_sameRecords {s t : AdmissionController} (h : SameRecords s t)
    (calls : List (AdmissionCall T)) :
    (trace step s calls).map (fun e => (e.call, e.answer)) =
      (trace step t calls).map (fun e => (e.call, e.answer)) ∧
    SameRecords (finalState step s calls) (finalState step t calls) := by
  induction calls generalizing s t with
  | nil => exact ⟨rfl, h⟩
  | cons call calls ih =>
      obtain ⟨hanswer, hnext⟩ := step_sameRecords h call
      obtain ⟨htrace, hfinal⟩ := ih hnext
      refine ⟨?_, hfinal⟩
      simp only [trace, List.map_cons, hanswer, htrace]

/-- Two histories whose logs leave the same decision under every identifier are answered alike
ever after: no call can tell in which order, or after how many retries and releases, the records
came about. -/
theorem same_records_same_future {policy : AdmissionPolicy} {self : AdmissionController}
    (h : AdmissionController.init policy = .ok self) (before before' : List (AdmissionCall T))
    (hlogs : ∀ x,
      ((history self before).filter (fun e => e.key = x)).foldlM Event.cell none =
        ((history self before').filter (fun e => e.key = x)).foldlM Event.cell none)
    (calls : List (AdmissionCall T)) :
    (trace step (finalState step self before) calls).map (fun e => (e.call, e.answer)) =
      (trace step (finalState step self before') calls).map (fun e => (e.call, e.answer)) ∧
    SameRecords (finalState step self (before ++ calls))
      (finalState step self (before' ++ calls)) := by
  have hI := init_inStep h
  have hcells (calls : List (AdmissionCall T)) (x : String) :
      ((history self calls).filter (fun e => e.key = x)).foldlM Event.cell none =
        some ((finalState step self calls).decisions.get? x) := by
    have hcell := (history_ledger self calls).table.cells x
    obtain ⟨-, rfl⟩ := AdmissionController.init_eq_ok_iff.mp h
    exact hcell
  have hrecords : SameRecords (finalState step self before) (finalState step self before') := by
    apply SameRecords.of_inStep (run_inStep hI before) (run_inStep hI before')
    intro x
    have hx := hlogs x
    rw [hcells before x, hcells before' x] at hx
    exact Option.some.inj hx
  rw [finalState_append, finalState_append]
  exact run_sameRecords hrecords calls

theorem same_records_same_future_swapped :
    let self : AdmissionController := ⟨⟨100, 1, 80⟩, 0, 0, .empty⟩
    let chat : AdmissionCall ℚ := .decide ⟨"chat", 40, 20, 10⟩ 0 0
    let batch : AdmissionCall ℚ := .decide ⟨"batch", 10, 20, 10⟩ 0 0
    SameRecords (finalState step self ([chat, batch] ++ [.release "chat"]))
      (finalState step self ([batch, chat, batch] ++ [.release "chat"])) := by
  intro self chat batch
  have hlog : history self [chat, batch] =
      [.wrote "chat" ⟨.admitted, 60, "worst-case live-token reservation fits"⟩,
        .wrote "batch" ⟨.admitted, 30, "worst-case live-token reservation fits"⟩] := by
    decide +kernel
  have hlog' : history self [batch, chat, batch] =
      [.wrote "batch" ⟨.admitted, 30, "worst-case live-token reservation fits"⟩,
        .wrote "chat" ⟨.admitted, 60, "worst-case live-token reservation fits"⟩] := by
    decide +kernel
  refine (same_records_same_future (show AdmissionController.init ⟨100, 1, 80⟩ = .ok self from rfl)
    [chat, batch] [batch, chat, batch] (fun x => ?_) [.release "chat"]).2
  rw [hlog, hlog']
  by_cases hchat : x = "chat"
  · simp [hchat, Event.key, Event.cell]
  · by_cases hbatch : x = "batch"
    · simp [hbatch, Event.key, Event.cell]
    · simp [Ne.symm hchat, Ne.symm hbatch, Event.key]

end Admission
