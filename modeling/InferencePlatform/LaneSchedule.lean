import Mathlib.Data.Finset.Basic
import Mathlib.Tactic

/-!
# Schedules of jobs on interchangeable lanes

Jobs are listed in queue order. Job `j` arrives at `arrival j`, starts at `start j` and holds
one lane for `length j` consecutive steps; `busy` counts the lanes held at a step. A schedule
is valid when no job starts before it arrives, starts follow the queue order, and the lanes
suffice at every step. It keeps `n` lanes busy when an arrived job only waits while `n` of the
earlier jobs are in service.

The comparison at the end needs no induction over time: on the same queue, a schedule that
keeps all its lanes busy starts every job no later than any valid schedule does.
-/

namespace LaneSchedule

variable {ι : Type*} (arrival length : ι → ℤ) (start : ι → ℤ)

def InService (j : ι) (t : ℤ) : Prop := start j ≤ t ∧ t < start j + length j

instance (j : ι) (t : ℤ) : Decidable (InService length start j t) :=
  inferInstanceAs (Decidable (_ ∧ _))

def busy (js : List ι) (t : ℤ) : ℕ := js.countP (fun j => InService length start j t)

structure Valid (lanes : ℤ) (js : List ι) : Prop where
  arrived : ∀ j ∈ js, arrival j ≤ start j
  fifo : js.Pairwise (fun i j => start i ≤ start j)
  lanes_suffice : ∀ t, (busy length start js t : ℤ) ≤ lanes

def KeepsBusy (n : ℤ) (js : List ι) : Prop :=
  ∀ pre j post, js = pre ++ j :: post → ∀ t, arrival j ≤ t → t < start j →
    n ≤ busy length start pre t

section Busy

variable {length start}

theorem busy_append (js ks : List ι) (t : ℤ) :
    busy length start (js ++ ks) t = busy length start js t + busy length start ks t :=
  List.countP_append

theorem busy_singleton (j : ι) (t : ℤ) :
    busy length start [j] t = if InService length start j t then 1 else 0 := by
  simp only [busy, List.countP_singleton, decide_eq_true_eq]

theorem busy_congr {start' : ι → ℤ} {js : List ι} (h : ∀ j ∈ js, start j = start' j) (t : ℤ) :
    busy length start js t = busy length start' js t := by
  apply List.countP_congr
  intro j hj
  have hin : InService length start j t ↔ InService length start' j t := by
    rw [InService, InService, h j hj]
  simp only [decide_eq_true_eq, hin]

theorem busy_mono {start' : ι → ℤ} {js : List ι} {t : ℤ}
    (h : ∀ j ∈ js, InService length start j t → InService length start' j t) :
    busy length start js t ≤ busy length start' js t := by
  apply List.countP_mono_left
  intro j hj hin
  simp only [decide_eq_true_eq] at hin ⊢
  exact h j hj hin

theorem busy_eq_zero {js : List ι} {t : ℤ} (h : ∀ j ∈ js, ¬ InService length start j t) :
    busy length start js t = 0 := by
  apply List.countP_eq_zero.mpr
  intro j hj
  simpa using h j hj

/-- Once every job has started, the lanes held are those whose jobs have not finished. -/
theorem busy_eq_length_filter {js : List ι} {t : ℤ} (h : ∀ j ∈ js, start j ≤ t) :
    busy length start js t = (js.filter (fun j => t < start j + length j)).length := by
  rw [busy, List.countP_eq_length_filter]
  congr 1
  apply List.filter_congr
  intro j hj
  simp [InService, h j hj]

end Busy

/-- A member of an extended queue is the new one or a member of the old queue. -/
theorem split_append_singleton {α : Type*} {js pre post : List α} {j k : α}
    (h : js ++ [j] = pre ++ k :: post) :
    (pre = js ∧ k = j) ∨ ∃ post', js = pre ++ k :: post' := by
  rcases List.eq_nil_or_concat post with rfl | ⟨post', l, rfl⟩
  · obtain ⟨hpre, hk⟩ := List.append_inj' h rfl
    exact Or.inl ⟨hpre.symm, (List.head_eq_of_cons_eq hk).symm⟩
  · have h' : js ++ [j] = (pre ++ k :: post') ++ [l] := by simpa using h
    exact Or.inr ⟨post', (List.append_inj' h' rfl).1⟩

theorem KeepsBusy.concat {n : ℤ} {js : List ι} {j : ι}
    (h : KeepsBusy arrival length start n js)
    (hj : ∀ t, arrival j ≤ t → t < start j → n ≤ busy length start js t) :
    KeepsBusy arrival length start n (js ++ [j]) := by
  intro pre k post hsplit t hat hts
  rcases split_append_singleton hsplit with ⟨rfl, rfl⟩ | ⟨post', hjs⟩
  · exact hj t hat hts
  · exact h pre k post' hjs t hat hts

theorem KeepsBusy.congr {n : ℤ} {js : List ι} {start' : ι → ℤ}
    (h : KeepsBusy arrival length start n js) (heq : ∀ j ∈ js, start j = start' j) :
    KeepsBusy arrival length start' n js := by
  intro pre j post hsplit t hat hts
  have hpre : ∀ i ∈ pre, start i = start' i := fun i hi =>
    heq i (hsplit ▸ List.mem_append_left _ hi)
  have hj : start j = start' j := heq j (hsplit ▸ List.mem_append_right _ List.mem_cons_self)
  rw [← busy_congr hpre t]
  exact h pre j post hsplit t hat (hj ▸ hts)

/-- What follows for a job from the jobs before it holds of the whole queue. -/
theorem queue_induction {P : ι → Prop} {js : List ι}
    (h : ∀ pre j post, js = pre ++ j :: post → (∀ i ∈ pre, P i) → P j) : ∀ j ∈ js, P j := by
  suffices hpre : ∀ pre post, js = pre ++ post → ∀ j ∈ pre, P j from
    hpre js [] (List.append_nil js).symm
  intro pre
  induction pre using List.reverseRecOn with
  | nil => simp
  | append_singleton pre j ih =>
      intro post hsplit
      have hsplit' : js = pre ++ j :: post := by simpa using hsplit
      have ih' := ih (j :: post) hsplit'
      intro k hk
      rcases List.mem_append.mp hk with hk | hk
      · exact ih' k hk
      · obtain rfl := List.mem_singleton.mp hk
        exact h pre k post hsplit' ih'

section Split

variable {arrival length start} {lanes : ℤ} {js pre post : List ι} {j : ι}

theorem Valid.begun (h : Valid arrival length start lanes js) (hsplit : js = pre ++ j :: post) :
    ∀ i ∈ pre, start i ≤ start j := by
  have hfifo := h.fifo
  rw [hsplit] at hfifo
  exact fun i hi => (List.pairwise_append.mp hfifo).2.2 i hi j List.mem_cons_self

/-- When a job starts, the jobs before it leave a lane for it. -/
theorem Valid.busy_lt (h : Valid arrival length start lanes js) (hsplit : js = pre ++ j :: post)
    (hpos : 0 < length j) : (busy length start pre (start j) : ℤ) < lanes := by
  have hself : InService length start j (start j) := ⟨le_rfl, lt_add_of_pos_right _ hpos⟩
  have hlanes := h.lanes_suffice (start j)
  rw [hsplit, ← List.singleton_append, busy_append, busy_append, busy_singleton,
    if_pos hself] at hlanes
  omega

end Split

/-- Keeping all lanes busy beats every valid schedule of the same queue, job by job: a job that
started sooner there would find every lane held by the jobs before it. -/
theorem start_le_of_keepsBusy {lanes : ℤ} {js : List ι} {start' : ι → ℤ}
    (hbusy : KeepsBusy arrival length start lanes js)
    (hvalid : Valid arrival length start' lanes js) (hpos : ∀ j ∈ js, 0 < length j) :
    ∀ j ∈ js, start j ≤ start' j := by
  apply queue_induction
  intro pre k post hsplit ih
  by_contra! hlt
  have hkjs : k ∈ js := hsplit ▸ List.mem_append_right _ List.mem_cons_self
  have hfull := hbusy pre k post hsplit (start' k) (hvalid.arrived k hkjs) hlt
  have hmono : busy length start pre (start' k) ≤ busy length start' pre (start' k) := by
    apply busy_mono
    rintro i hi ⟨_, hend⟩
    exact ⟨hvalid.begun hsplit i hi, hend.trans_le (by have := ih i hi; omega)⟩
  have hfree := hvalid.busy_lt hsplit (hpos k hkjs)
  omega

variable {arrival length start}

/-- Some of the jobs of a valid schedule, shortened and left where they are, fit into its lanes. -/
theorem Valid.shortened {κ : Type*} {lanes : ℤ} {js : List ι} {ks : List κ}
    {arrival' length' : κ → ℤ} (f : κ → ι) (h : Valid arrival length start lanes js)
    (hmem : ∀ k ∈ ks, f k ∈ js) (hnodup : (ks.map f).Nodup)
    (harrival : ∀ k ∈ ks, arrival' k = arrival (f k))
    (hlength : ∀ k ∈ ks, length' k ≤ length (f k))
    (hfifo : ks.Pairwise (fun i k => start (f i) ≤ start (f k))) :
    Valid arrival' length' (fun k => start (f k)) lanes ks := by
  refine ⟨fun k hk => ?_, hfifo, fun t => ?_⟩
  · rw [harrival k hk]
    exact h.arrived (f k) (hmem k hk)
  · have hle : busy length' (fun k => start (f k)) ks t ≤ busy length start js t := by
      rw [busy, busy, List.countP_eq_length_filter, List.countP_eq_length_filter,
        ← List.length_map f]
      apply List.Subperm.length_le
      apply List.subperm_of_subset (hnodup.sublist (List.filter_sublist.map f))
      intro j hj
      obtain ⟨k, hk, rfl⟩ := List.mem_map.mp hj
      obtain ⟨hk, hin⟩ := List.mem_filter.mp hk
      obtain ⟨hbegun, hend⟩ := of_decide_eq_true hin
      refine List.mem_filter.mpr ⟨hmem k hk, decide_eq_true ⟨hbegun, ?_⟩⟩
      exact hend.trans_le (add_le_add_right (hlength k hk) _)
    have hlanes := h.lanes_suffice t
    omega

theorem Valid.mono {lanes lanes' : ℤ} {js : List ι} (hle : lanes ≤ lanes')
    (h : Valid arrival length start lanes js) : Valid arrival length start lanes' js :=
  ⟨h.arrived, h.fifo, fun t => (h.lanes_suffice t).trans hle⟩

end LaneSchedule
