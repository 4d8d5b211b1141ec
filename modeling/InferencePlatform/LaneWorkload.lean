import InferencePlatform.LaneBatches

/-!
# Work and waiting on lanes

Added up over time, the lanes held are the work of the jobs and the queue lengths are their waits.
A schedule that keeps all its lanes busy holds as many of them as there are unfinished jobs to
fill them.

`Feasible` is any schedule at all, in any order and with full knowledge of what will arrive. It
cannot serve more work than its lanes have steps, so keeping `n` lanes busy is never far behind.

Jobs that have ended leave room as if they had never been there. A queue that drains before the
next job arrives can therefore be scheduled on its own.
-/

namespace LaneSchedule

variable {ι : Type*} {arrival length start : ι → ℤ} {lanes n : ℤ} {js : List ι}

/-! ### Sums over time -/

theorem sum_busy_cons (j : ι) (js : List ι) (a b : ℤ) :
    ∑ t ∈ Finset.Ico a b, busy length start (j :: js) t =
      ∑ t ∈ Finset.Ico a b, busy length start [j] t +
        ∑ t ∈ Finset.Ico a b, busy length start js t := by
  rw [← Finset.sum_add_distrib]
  exact Finset.sum_congr rfl fun t _ => busy_append [j] js t

theorem sum_busy_singleton {j : ι} {a b : ℤ} (hfrom : a ≤ start j)
    (hto : start j + length j ≤ b) :
    ∑ t ∈ Finset.Ico a b, busy length start [j] t = (length j).toNat := by
  have hfilter : (Finset.Ico a b).filter (InService length start j) =
      Finset.Ico (start j) (start j + length j) := by
    ext t
    simp only [Finset.mem_filter, Finset.mem_Ico, InService]
    omega
  calc ∑ t ∈ Finset.Ico a b, busy length start [j] t
      = ((Finset.Ico a b).filter (InService length start j)).card := by
        simp only [busy_singleton, Finset.sum_boole, Nat.cast_id]
    _ = (length j).toNat := by rw [hfilter, Int.card_Ico, add_sub_cancel_left]

/-- Over a horizon that contains every job, the lanes held add up to the work. -/
theorem sum_busy_eq {a b : ℤ} (hlength : ∀ j ∈ js, 0 ≤ length j)
    (hfrom : ∀ j ∈ js, a ≤ start j) (hto : ∀ j ∈ js, start j + length j ≤ b) :
    ((∑ t ∈ Finset.Ico a b, busy length start js t : ℕ) : ℤ) = (js.map length).sum := by
  induction js with
  | nil => simp [busy]
  | cons j js ih =>
      simp only [List.forall_mem_cons] at hlength hfrom hto
      rw [sum_busy_cons, sum_busy_singleton hfrom.1 hto.1, List.map_cons, List.sum_cons,
        Nat.cast_add, ih hlength.2 hfrom.2 hto.2, Int.toNat_of_nonneg hlength.1]

/-! ### Queue lengths -/

/-- The jobs that have arrived and not started. -/
def waiting (arrival start : ι → ℤ) (js : List ι) (t : ℤ) : ℕ :=
  js.countP (fun j => arrival j ≤ t ∧ t < start j)

/-- The jobs that have arrived and not finished. -/
def backlog (arrival length start : ι → ℤ) (js : List ι) (t : ℤ) : ℕ :=
  js.countP (fun j => arrival j ≤ t ∧ t < start j + length j)

/-- Waiting is service by the queue, from the arrival to the start. -/
theorem waiting_eq_busy (t : ℤ) :
    waiting arrival start js t = busy (fun j => start j - arrival j) arrival js t := by
  simp only [waiting, busy, InService, add_sub_cancel]

theorem sum_waiting_eq {a b : ℤ} (harrived : ∀ j ∈ js, arrival j ≤ start j)
    (hfrom : ∀ j ∈ js, a ≤ arrival j) (hto : ∀ j ∈ js, start j ≤ b) :
    ((∑ t ∈ Finset.Ico a b, waiting arrival start js t : ℕ) : ℤ) =
      (js.map (fun j => start j - arrival j)).sum := by
  simp only [waiting_eq_busy]
  apply sum_busy_eq
  · exact fun j hj => sub_nonneg.mpr (harrived j hj)
  · exact hfrom
  · exact fun j hj => by simpa using hto j hj

theorem backlog_eq (hlength : ∀ j ∈ js, 0 ≤ length j) (harrived : ∀ j ∈ js, arrival j ≤ start j)
    (t : ℤ) : backlog arrival length start js t =
      waiting arrival start js t + busy length start js t := by
  have hservice : busy length start js t =
      js.countP (fun j => start j ≤ t ∧ t < start j + length j) := rfl
  rw [hservice, backlog, waiting]
  clear hservice
  induction js with
  | nil => rfl
  | cons j js ih =>
      simp only [List.forall_mem_cons] at hlength harrived
      simp only [List.countP_cons, decide_eq_true_eq, ih hlength.2 harrived.2]
      split_ifs <;> omega

/-- No lane is idle while a job waits: the lanes held are all the lanes, or all the backlog. -/
theorem busy_eq_min (hlength : ∀ j ∈ js, 0 ≤ length j)
    (hvalid : Valid arrival length start lanes js)
    (hbusy : KeepsBusy arrival length start lanes js) (t : ℤ) :
    (busy length start js t : ℤ) = min lanes (backlog arrival length start js t) := by
  have hsuffice := hvalid.lanes_suffice t
  have hbacklog := backlog_eq hlength hvalid.arrived t
  by_cases hnone : waiting arrival start js t = 0
  · rw [hbacklog, hnone, zero_add, min_eq_right hsuffice]
  · obtain ⟨j, hj, hwaits⟩ := List.countP_pos_iff.mp (Nat.pos_of_ne_zero hnone)
    obtain ⟨hat, hts⟩ := of_decide_eq_true hwaits
    obtain ⟨pre, post, hsplit⟩ := List.append_of_mem hj
    have hfull := hbusy pre j post hsplit t hat hts
    have hpre : busy length start js t =
        busy length start pre t + busy length start (j :: post) t := by
      rw [hsplit, busy_append]
    omega

/-! ### Any other schedule -/

structure Feasible (arrival length start : ι → ℤ) (lanes : ℤ) (js : List ι) : Prop where
  arrived : ∀ j ∈ js, arrival j ≤ start j
  lanes_suffice : ∀ t, (busy length start js t : ℤ) ≤ lanes

theorem Feasible.sum_length_le {a b : ℤ} (h : Feasible arrival length start lanes js)
    (hlength : ∀ j ∈ js, 0 ≤ length j) (hfrom : ∀ j ∈ js, a ≤ arrival j)
    (hto : ∀ j ∈ js, start j + length j ≤ b) (hab : a ≤ b) :
    (js.map length).sum ≤ lanes * (b - a) := by
  have hle := Finset.sum_le_card_nsmul (Finset.Ico a b)
    (fun t => (busy length start js t : ℤ)) lanes fun t _ => h.lanes_suffice t
  have hstart : ∀ j ∈ js, a ≤ start j := fun j hj => (hfrom j hj).trans (h.arrived j hj)
  rw [← sum_busy_eq hlength hstart hto]
  calc ((∑ t ∈ Finset.Ico a b, busy length start js t : ℕ) : ℤ)
      = ∑ t ∈ Finset.Ico a b, (busy length start js t : ℤ) := by push_cast; rfl
    _ ≤ (Finset.Ico a b).card • lanes := hle
    _ = lanes * (b - a) := by
        rw [Int.card_Ico, nsmul_eq_mul, Int.toNat_of_nonneg (sub_nonneg.mpr hab), mul_comm]

/-- A job waits for the work ahead only, and that work takes any other schedule its time too. -/
theorem KeepsBusy.mul_finish_le {start' : ι → ℤ} {a b : ℤ} (hn : 0 ≤ n)
    (h : KeepsBusy arrival length start n js) (hother : Feasible arrival length start' lanes js)
    (hlength : ∀ j ∈ js, 0 ≤ length j) (hfrom : ∀ j ∈ js, a ≤ arrival j)
    (hto : ∀ j ∈ js, start' j + length j ≤ b) :
    ∀ j ∈ js, n * (start j + length j - a) ≤ (n + lanes) * (b - a) := by
  intro j hj
  have harrived := hother.arrived j hj
  have hend := hto j hj
  have hab : a ≤ b := by
    have := hfrom j hj
    have := hlength j hj
    omega
  have hwork := hother.sum_length_le hlength hfrom hto hab
  obtain ⟨pre, post, hsplit⟩ := List.append_of_mem hj
  have hpre : (pre.map length).sum ≤ (js.map length).sum := by
    rw [hsplit, List.map_append, List.sum_append]
    apply le_add_of_nonneg_right
    apply List.sum_nonneg
    intro x hx
    obtain ⟨i, hi, rfl⟩ := List.mem_map.mp hx
    exact hlength i (hsplit ▸ List.mem_append_right _ hi)
  have hwait := h.mul_wait_le hn hsplit fun i hi => hlength i (hsplit ▸ List.mem_append_left _ hi)
  have hself : n * (arrival j + length j - a) ≤ n * (b - a) :=
    mul_le_mul_of_nonneg_left (by omega) hn
  calc n * (start j + length j - a)
      = n * (start j - arrival j) + n * (arrival j + length j - a) := by ring
    _ ≤ lanes * (b - a) + n * (b - a) := add_le_add (hwait.trans (hpre.trans hwork)) hself
    _ = (n + lanes) * (b - a) := by ring

/-! ### Drained queues -/

/-- Ended jobs do not count for the room at `t`. -/
def Forgets (length : ι → ℤ) (room : (ι → ℤ) → List ι → ℤ → Prop) : Prop :=
  ∀ (start : ι → ℤ) (ended pre : List ι) (t : ℤ), (∀ i ∈ ended, 0 < length i) →
    (∀ i ∈ ended, start i + length i ≤ t) → (room start (ended ++ pre) t ↔ room start pre t)

theorem forgets_laneRoom : Forgets length (LaneRoom length lanes) := by
  intro start ended pre t hpos hended
  have hnone : ended.countP (fun i => t < start i + length i) = 0 := by
    apply List.countP_eq_zero.mpr
    intro i hi
    simpa using hended i hi
  have hbegun : ∀ i ∈ ended, start i ≤ t := by
    intro i hi
    have := hpos i hi
    have := hended i hi
    omega
  rw [LaneRoom, LaneRoom, List.countP_append, hnone, zero_add, List.forall_mem_append]
  exact and_congr_left fun _ => and_iff_right hbegun

theorem forgets_batchRoom : Forgets length (BatchRoom length lanes) := by
  intro start ended pre t hpos hended
  have hnone : ended.countP (fun i => start i = t) = 0 := by
    apply List.countP_eq_zero.mpr
    intro i hi
    have := hpos i hi
    have := hended i hi
    simp
    omega
  rw [BatchRoom, BatchRoom, List.countP_append, hnone, zero_add, List.forall_mem_append]
  exact and_congr_left fun _ => and_iff_right fun i hi => .inl (hended i hi)

/-- Two queues solve the recurrence one after the other when the first drains before the second
arrives. -/
theorem LeastStart.append {room : (ι → ℤ) → List ι → ℤ → Prop} {ks : List ι}
    (hforgets : Forgets length room) (hpos : ∀ j ∈ js, 0 < length j)
    (hdrained : ∀ j ∈ js, ∀ k ∈ ks, start j + length j ≤ arrival k)
    (h : LeastStart arrival room start js) (h' : LeastStart arrival room start ks) :
    LeastStart arrival room start (js ++ ks) := by
  have hlate : ∀ gap j post, ks = gap ++ j :: post →
      IsLeast {t | arrival j ≤ t ∧ room start (js ++ gap) t} (start j) := by
    intro gap j post hks
    have hset : {t | arrival j ≤ t ∧ room start (js ++ gap) t} =
        {t | arrival j ≤ t ∧ room start gap t} := by
      ext t
      refine and_congr_right fun hat => hforgets start js gap t hpos fun i hi => ?_
      exact (hdrained i hi j (hks ▸ by simp)).trans hat
    rw [hset]
    exact h' gap j post hks
  intro pre j post hsplit
  rcases List.append_eq_append_iff.mp hsplit with ⟨gap, rfl, hks⟩ | ⟨gap, hjs, hgap⟩
  · exact hlate gap j post hks
  · cases gap with
    | nil =>
        rw [List.append_nil] at hjs
        rw [← hjs, ← List.append_nil js]
        exact hlate [] j post hgap.symm
    | cons k gap =>
        obtain ⟨rfl, rfl⟩ := List.cons.inj hgap
        exact h pre j gap hjs

end LaneSchedule
