import InferencePlatform.LaneSchedule
import Mathlib.Order.Bounds.Basic
import Mathlib.Order.Interval.Finset.Basic
import Mathlib.Data.Int.Interval

/-!
# Recurrences for the starts of queued jobs

In a first-come-first-served schedule each job starts at the least step, from its arrival on, at
which the jobs before it leave room. `LeastStart` says this for every job of a queue. What `room`
means is up to the schedule, as long as it only reads the starts of the earlier jobs; the starts
then depend on nothing else, so the recurrence has one solution on every prefix of a queue.

A valid schedule that keeps all its lanes busy solves the recurrence of `LaneRoom`. The last
section bounds the wait of a job by the work that lies before it.
-/

namespace LaneSchedule

variable {ι κ : Type*}

section Recurrence

variable (arrival : ι → ℤ) (room : (ι → ℤ) → List ι → ℤ → Prop)

def LeastStart (start : ι → ℤ) (js : List ι) : Prop :=
  ∀ pre j post, js = pre ++ j :: post → IsLeast {t | arrival j ≤ t ∧ room start pre t} (start j)

/-- Room that depends on the starts of the earlier jobs only. -/
def Causal : Prop :=
  ∀ (start start' : ι → ℤ) (pre : List ι), (∀ i ∈ pre, start i = start' i) →
    ∀ t, room start pre t ↔ room start' pre t

variable {arrival room} {start : ι → ℤ} {js : List ι}

theorem LeastStart.of_append {ks : List ι} (h : LeastStart arrival room start (js ++ ks)) :
    LeastStart arrival room start js := by
  intro pre j post hsplit
  apply h pre j (post ++ ks)
  rw [hsplit, List.append_assoc, List.cons_append]

theorem LeastStart.unique {start' : ι → ℤ} (hroom : Causal room)
    (h : LeastStart arrival room start js) (h' : LeastStart arrival room start' js) :
    ∀ j ∈ js, start j = start' j := by
  apply queue_induction
  intro pre j post hsplit ih
  have hset : {t | arrival j ≤ t ∧ room start pre t} =
      {t | arrival j ≤ t ∧ room start' pre t} := by
    ext t
    exact and_congr_right fun _ => hroom start start' pre ih t
  exact (h pre j post hsplit).unique (hset ▸ h' pre j post hsplit)

theorem LeastStart.congr {start' : ι → ℤ} (hroom : Causal room)
    (h : LeastStart arrival room start js) (heq : ∀ j ∈ js, start j = start' j) :
    LeastStart arrival room start' js := by
  intro pre j post hsplit
  have hset : {t | arrival j ≤ t ∧ room start pre t} =
      {t | arrival j ≤ t ∧ room start' pre t} := by
    ext t
    exact and_congr_right fun _ =>
      hroom start start' pre (fun i hi => heq i (by simp [hsplit, hi])) t
  rw [← hset, ← heq j (by simp [hsplit])]
  exact h pre j post hsplit

/-- A solution for a renamed and delayed queue, brought back to the original one. -/
theorem LeastStart.comap {arrival' : κ → ℤ} {room' : (κ → ℤ) → List κ → ℤ → Prop}
    {start' : κ → ℤ} (f : ι → κ) (k : ℤ) (harrival : ∀ j, arrival' (f j) = arrival j + k)
    (hroom : ∀ pre t, room' start' (pre.map f) (t + k) ↔
      room (fun j => start' (f j) - k) pre t)
    (h : LeastStart arrival' room' start' (js.map f)) :
    LeastStart arrival room (fun j => start' (f j) - k) js := by
  intro pre j post hsplit
  obtain ⟨⟨hat, hfree⟩, hleast⟩ := h (pre.map f) (f j) (post.map f) (by simp [hsplit])
  constructor
  · refine ⟨?_, ?_⟩
    · rw [harrival] at hat
      dsimp only
      omega
    · rw [← hroom, sub_add_cancel]
      exact hfree
  · rintro t ⟨hat', hfree'⟩
    have hle := hleast ⟨by rw [harrival]; omega, (hroom pre t).mpr hfree'⟩
    dsimp only
    omega

end Recurrence

section LaneRoom

variable (length : ι → ℤ) (lanes : ℤ)

/-- Earlier jobs have started and one of the lanes is free. -/
def LaneRoom (start : ι → ℤ) (pre : List ι) (t : ℤ) : Prop :=
  (∀ i ∈ pre, start i ≤ t) ∧ (pre.countP (fun i => t < start i + length i) : ℤ) < lanes

theorem causal_laneRoom : Causal (LaneRoom length lanes) := by
  intro start start' pre h t
  have hcount : pre.countP (fun i => t < start i + length i) =
      pre.countP (fun i => t < start' i + length i) := by
    apply List.countP_congr
    intro i hi
    rw [h i hi]
  rw [LaneRoom, LaneRoom, hcount]
  exact and_congr_left fun _ => forall₂_congr fun i hi => by rw [h i hi]

variable {length lanes} {arrival start : ι → ℤ} {js : List ι}

/-- Renaming jobs and moving the origin of time leaves the room as it is. -/
theorem laneRoom_map {length' start' : κ → ℤ} (f : ι → κ) (k : ℤ)
    (hlength : ∀ j, length' (f j) = length j) (pre : List ι) (t : ℤ) :
    LaneRoom length' lanes start' (pre.map f) (t + k) ↔
      LaneRoom length lanes (fun j => start' (f j) - k) pre t := by
  have hcount : (pre.map f).countP (fun i => t + k < start' i + length' i) =
      pre.countP (fun i => t < start' (f i) - k + length i) := by
    rw [List.countP_map]
    apply List.countP_congr
    intro i _
    simp only [Function.comp_apply, decide_eq_true_eq, hlength]
    omega
  rw [LaneRoom, LaneRoom, hcount, List.forall_mem_map]
  simp only [sub_le_iff_le_add]

/-- Once all of them have started, the unfinished jobs are the ones in service. -/
theorem countP_unfinished_eq_busy {pre : List ι} {t : ℤ} (h : ∀ i ∈ pre, start i ≤ t) :
    pre.countP (fun i => t < start i + length i) = busy length start pre t := by
  rw [busy_eq_length_filter h, List.countP_eq_length_filter]

theorem leastStart_of_keepsBusy (hvalid : Valid arrival length start lanes js)
    (hbusy : KeepsBusy arrival length start lanes js) (hpos : ∀ j ∈ js, 0 < length j) :
    LeastStart arrival (LaneRoom length lanes) start js := by
  intro pre j post hsplit
  have hj : j ∈ js := hsplit ▸ List.mem_append_right _ List.mem_cons_self
  have hbegun := hvalid.begun hsplit
  constructor
  · refine ⟨hvalid.arrived j hj, hbegun, ?_⟩
    rw [countP_unfinished_eq_busy hbegun]
    exact hvalid.busy_lt hsplit (hpos j hj)
  · rintro t ⟨hat, hstarted, hfree⟩
    by_contra! hlt
    have hfull := hbusy pre j post hsplit t hat hlt
    rw [countP_unfinished_eq_busy hstarted] at hfree
    omega

end LaneRoom

section Wait

variable {arrival length start : ι → ℤ}

/-- Over any interval, the lanes held add up to no more than the work of the jobs. -/
theorem sum_busy_le {js : List ι} (hlength : ∀ j ∈ js, 0 ≤ length j) (a b : ℤ) :
    ((∑ t ∈ Finset.Ico a b, busy length start js t : ℕ) : ℤ) ≤ (js.map length).sum := by
  induction js with
  | nil => simp [busy]
  | cons j js ih =>
      have ih' := ih fun i hi => hlength i (List.mem_cons_of_mem _ hi)
      have hone : ∑ t ∈ Finset.Ico a b, busy length start [j] t ≤ (length j).toNat := by
        calc ∑ t ∈ Finset.Ico a b, busy length start [j] t
            = ((Finset.Ico a b).filter (InService length start j)).card := by
              simp only [busy_singleton, Finset.sum_boole, Nat.cast_id]
          _ ≤ (Finset.Ico (start j) (start j + length j)).card := by
              apply Finset.card_le_card
              intro t ht
              exact Finset.mem_Ico.mpr (Finset.mem_filter.mp ht).2
          _ = (length j).toNat := by rw [Int.card_Ico, add_sub_cancel_left]
      have hj := hlength j List.mem_cons_self
      have hsplit : ∑ t ∈ Finset.Ico a b, busy length start (j :: js) t =
          ∑ t ∈ Finset.Ico a b, busy length start [j] t +
            ∑ t ∈ Finset.Ico a b, busy length start js t := by
        rw [← Finset.sum_add_distrib]
        exact Finset.sum_congr rfl fun t _ => busy_append [j] js t
      rw [hsplit, List.map_cons, List.sum_cons, Nat.cast_add]
      omega

/-- While a job waits, `n` lanes work off the jobs before it. -/
theorem KeepsBusy.mul_wait_le {n : ℤ} {js pre post : List ι} {j : ι} (hn : 0 ≤ n)
    (h : KeepsBusy arrival length start n js) (hsplit : js = pre ++ j :: post)
    (hlength : ∀ i ∈ pre, 0 ≤ length i) :
    n * (start j - arrival j) ≤ (pre.map length).sum := by
  obtain ⟨m, rfl⟩ := Int.eq_ofNat_of_zero_le hn
  have hbusy : ∀ t ∈ Finset.Ico (arrival j) (start j), m ≤ busy length start pre t := by
    intro t ht
    obtain ⟨hat, hts⟩ := Finset.mem_Ico.mp ht
    exact_mod_cast h pre j post hsplit t hat hts
  have hsum := Finset.card_nsmul_le_sum _ _ m hbusy
  rw [Int.card_Ico, smul_eq_mul] at hsum
  calc (m : ℤ) * (start j - arrival j)
      ≤ m * ((start j - arrival j).toNat : ℤ) :=
        mul_le_mul_of_nonneg_left (Int.self_le_toNat _) hn
    _ = (((start j - arrival j).toNat * m : ℕ) : ℤ) := by push_cast; ring
    _ ≤ ((∑ t ∈ Finset.Ico (arrival j) (start j), busy length start pre t : ℕ) : ℤ) := by
        exact_mod_cast hsum
    _ ≤ (pre.map length).sum := sum_busy_le hlength _ _

end Wait

end LaneSchedule
