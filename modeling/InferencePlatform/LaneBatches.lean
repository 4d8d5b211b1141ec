import InferencePlatform.LaneRecurrence

/-!
# Jobs served batch by batch

A batch starts at the later of the arrival of its first job and the end of everything served
before it, and takes as many of the jobs arrived by then as there are lanes. What a batch takes
depends on the jobs behind it in the queue. The start of a single job does not: `BatchRoom`
describes it by the jobs before it alone.
-/

namespace LaneSchedule

variable {ι : Type*} (arrival length start : ι → ℤ) (lanes : ℤ)

/-- `batch` is served from `rest` once the jobs of `served` have ended. -/
def IsBatch (served rest batch : List ι) : Prop :=
  ∃ first members t, batch = first :: members ∧ (∀ j ∈ batch, start j = t) ∧
    IsLeast {t | arrival first ≤ t ∧ ∀ i ∈ served, start i + length i ≤ t} t ∧
    batch = rest.take (min lanes.toNat (rest.countP (fun j => arrival j ≤ t)))

def ServedInBatches (queue : List ι) (batches : List (List ι)) : Prop :=
  ∀ before batch after, batches = before ++ batch :: after →
    ∀ rest, before.flatten ++ rest = queue →
      IsBatch arrival length start lanes before.flatten rest batch

/-- Each earlier job has ended or starts at this very step, together with a lane to spare. -/
def BatchRoom (start : ι → ℤ) (pre : List ι) (t : ℤ) : Prop :=
  (∀ i ∈ pre, start i + length i ≤ t ∨ start i = t) ∧
    (pre.countP (fun i => start i = t) : ℤ) < lanes

theorem causal_batchRoom : Causal (BatchRoom length lanes) := by
  intro start start' pre h t
  have hcount : pre.countP (fun i => start i = t) = pre.countP (fun i => start' i = t) := by
    apply List.countP_congr
    intro i hi
    rw [h i hi]
  rw [BatchRoom, BatchRoom, hcount]
  exact and_congr_left fun _ => forall₂_congr fun i hi => by rw [h i hi]

theorem batchRoom_map {κ : Type*} {length' start' : κ → ℤ} (f : ι → κ) (k : ℤ)
    (hlength : ∀ j, length' (f j) = length j) (pre : List ι) (t : ℤ) :
    BatchRoom length' lanes start' (pre.map f) (t + k) ↔
      BatchRoom length lanes (fun j => start' (f j) - k) pre t := by
  have hcount : (pre.map f).countP (fun i => start' i = t + k) =
      pre.countP (fun i => start' (f i) - k = t) := by
    rw [List.countP_map]
    apply List.countP_congr
    intro i _
    simp only [Function.comp_apply, decide_eq_true_eq]
    omega
  rw [BatchRoom, BatchRoom, hcount, List.forall_mem_map]
  apply and_congr_left
  intro _
  apply forall₂_congr
  intro i _
  rw [hlength]
  omega

section Batches

variable {arrival length start lanes} {queue served rest batch : List ι}
  {batches : List (List ι)}

theorem IsBatch.congr {start' : ι → ℤ} (hserved : ∀ i ∈ served, start i = start' i)
    (hbatch : ∀ i ∈ batch, start i = start' i)
    (h : IsBatch arrival length start lanes served rest batch) :
    IsBatch arrival length start' lanes served rest batch := by
  obtain ⟨first, members, t, hcons, hstart, hleast, htake⟩ := h
  refine ⟨first, members, t, hcons, fun j hj => hbatch j hj ▸ hstart j hj, ?_, htake⟩
  have hset : {t | arrival first ≤ t ∧ ∀ i ∈ served, start i + length i ≤ t} =
      {t | arrival first ≤ t ∧ ∀ i ∈ served, start' i + length i ≤ t} := by
    ext t
    exact and_congr_right fun _ => forall₂_congr fun i hi => by rw [hserved i hi]
  rwa [← hset]

theorem ServedInBatches.congr {start' : ι → ℤ} (h : ∀ i ∈ batches.flatten, start i = start' i)
    (hbatches : ServedInBatches arrival length start lanes queue batches) :
    ServedInBatches arrival length start' lanes queue batches := by
  intro before batch after hsplit rest hrest
  rw [hsplit, List.flatten_append, List.flatten_cons] at h
  refine (hbatches before batch after hsplit rest hrest).congr ?_ ?_
  · exact fun i hi => h i (List.mem_append_left _ hi)
  · exact fun i hi => h i (List.mem_append_right _ (List.mem_append_left _ hi))

theorem ServedInBatches.of_append {after : List (List ι)}
    (h : ServedInBatches arrival length start lanes queue (batches ++ after)) :
    ServedInBatches arrival length start lanes queue batches := by
  intro before batch behind hsplit
  apply h before batch (behind ++ after)
  rw [hsplit, List.append_assoc, List.cons_append]

theorem ServedInBatches.concat (h : ServedInBatches arrival length start lanes queue batches)
    (hbatch : ∀ rest, batches.flatten ++ rest = queue →
      IsBatch arrival length start lanes batches.flatten rest batch) :
    ServedInBatches arrival length start lanes queue (batches ++ [batch]) := by
  intro before b after hsplit rest hrest
  rcases split_append_singleton hsplit with ⟨rfl, rfl⟩ | ⟨after', hbatches⟩
  · exact hbatch rest hrest
  · exact h before b after' hbatches rest hrest

theorem IsBatch.length_le (h : IsBatch arrival length start lanes served rest batch) :
    (batch.length : ℤ) ≤ lanes := by
  obtain ⟨first, members, t, hcons, -, -, htake⟩ := h
  have hpos : 0 < batch.length := by rw [hcons]; exact Nat.succ_pos _
  have hlen := congrArg List.length htake
  rw [List.length_take] at hlen
  omega

/-- In order of arrival, what is taken from the arrived jobs has arrived. -/
theorem arrived_of_mem_take {t : ℤ} {n : ℕ} (hsorted : rest.Pairwise (arrival · ≤ arrival ·))
    (hn : n ≤ rest.countP (fun j => arrival j ≤ t)) : ∀ j ∈ rest.take n, arrival j ≤ t := by
  induction rest generalizing n with
  | nil => simp
  | cons k rest ih =>
      obtain ⟨hk, hrest⟩ := List.pairwise_cons.mp hsorted
      cases n with
      | zero => simp
      | succ n =>
          have hkt : arrival k ≤ t := by
            by_contra hlt
            have hnone : (k :: rest).countP (fun j => arrival j ≤ t) = 0 := by
              apply List.countP_eq_zero.mpr
              intro j hj
              rcases List.mem_cons.mp hj with rfl | hj
              · simpa using hlt
              · simpa using (not_le.mp hlt).trans_le (hk j hj)
            omega
          rw [List.countP_cons, if_pos (by simpa using hkt)] at hn
          intro j hj
          rcases List.mem_cons.mp hj with rfl | hj
          · exact hkt
          · exact ih hrest (by omega) j hj

theorem IsBatch.arrived (hsorted : rest.Pairwise (arrival · ≤ arrival ·))
    (h : IsBatch arrival length start lanes served rest batch) :
    ∀ j ∈ batch, arrival j ≤ start j := by
  obtain ⟨first, members, t, -, hstart, -, htake⟩ := h
  intro j hj
  rw [hstart j hj]
  rw [htake] at hj
  exact arrived_of_mem_take hsorted (min_le_right _ _) j hj

/-- A batch leaves an arrived job behind only when it holds every lane. -/
theorem IsBatch.full {j : ι} {post : List ι} {t : ℤ}
    (hsorted : (batch ++ j :: post).Pairwise (arrival · ≤ arrival ·))
    (h : IsBatch arrival length start lanes served (batch ++ j :: post) batch)
    (hstart : ∀ i ∈ batch, start i = t) (hj : arrival j ≤ t) : lanes ≤ batch.length := by
  obtain ⟨first, members, t', hcons, hstart', -, htake⟩ := h
  have hfirst : first ∈ batch := hcons ▸ List.mem_cons_self
  obtain rfl : t' = t := (hstart' first hfirst).symm.trans (hstart first hfirst)
  have harrived : batch.countP (fun i => arrival i ≤ t') = batch.length := by
    apply List.countP_eq_length.mpr
    intro i hi
    simpa using ((List.pairwise_append.mp hsorted).2.2 i hi j List.mem_cons_self).trans hj
  have hlen := congrArg List.length htake
  rw [List.length_take, List.countP_append, harrived, List.countP_cons,
    if_pos (by simpa using hj), List.length_append, List.length_cons] at hlen
  omega

/-- The batch a job is served in. -/
theorem exists_batch_of_split {pre post : List ι} {j : ι}
    (h : batches.flatten = pre ++ j :: post) :
    ∃ before ahead behind after, batches = before ++ (ahead ++ j :: behind) :: after ∧
      pre = before.flatten ++ ahead ∧ post = behind ++ after.flatten := by
  rcases List.flatten_eq_append_iff.mp h with
    ⟨before, tail, rfl, rfl, htail⟩ | ⟨before, ahead, k, behind, after, rfl, rfl, hpost⟩
  · obtain ⟨empties, behind, after, rfl, hnil, rfl⟩ := List.flatten_eq_cons_iff.mp htail.symm
    refine ⟨before ++ empties, [], behind, after, by simp, ?_, rfl⟩
    simp [List.flatten_eq_nil_iff.mpr hnil]
  · obtain ⟨rfl, rfl⟩ := List.cons_eq_cons.mp hpost
    exact ⟨before, ahead, behind, after, rfl, rfl, rfl⟩

/-- A job that finds room behind complete batches finds all of their jobs ended: a last batch that
ended before another job started would have to follow that job, which is still in service. -/
theorem ServedInBatches.le_of_batchRoom {j : ι} {t : ℤ}
    (h : ServedInBatches arrival length start lanes queue batches)
    (hrest : batches.flatten ++ j :: rest = queue)
    (hsorted : queue.Pairwise (arrival · ≤ arrival ·)) (hpos : ∀ i ∈ queue, 0 < length i)
    (hat : arrival j ≤ t) (hroom : BatchRoom length lanes start batches.flatten t) :
    ∀ i ∈ batches.flatten, start i + length i ≤ t := by
  obtain ⟨hended, hlanes⟩ := hroom
  intro i hi
  by_contra hlt
  have hit : start i = t := (hended i hi).resolve_left hlt
  rcases List.eq_nil_or_concat batches with rfl | ⟨earlier, batch, rfl⟩
  · cases hi
  rw [List.concat_eq_append, List.flatten_concat] at hended hlanes hi hrest
  have hqueue : earlier.flatten ++ (batch ++ j :: rest) = queue := by
    rw [← hrest, List.append_assoc]
  have hbatch := h earlier batch [] List.concat_eq_append _ hqueue
  obtain ⟨first, members, t', hcons, hstart, hleast, -⟩ := id hbatch
  have hlen : 0 < length i := hpos i (hrest ▸ List.mem_append_left _ hi)
  obtain rfl : t' = t := by
    have hmem : first ∈ batch := hcons ▸ List.mem_cons_self
    have hfirst := hstart first hmem
    rcases hended first (List.mem_append_right _ hmem) with hend | heq
    · have hlen' := hpos first (hrest ▸ List.mem_append_left _ (List.mem_append_right _ hmem))
      rcases List.mem_append.mp hi with hi | hi
      · have := hleast.1.2 i hi
        omega
      · exact (hstart i hi).symm.trans hit
    · exact hfirst.symm.trans heq
  have hfull := hbatch.full (List.pairwise_append.mp (hqueue ▸ hsorted)).2.1 hstart hat
  have hcount : batch.countP (fun k => start k = t') = batch.length := by
    apply List.countP_eq_length.mpr
    intro k hk
    simpa using hstart k hk
  rw [List.countP_append, hcount] at hlanes
  omega

theorem ServedInBatches.leastStart
    (h : ServedInBatches arrival length start lanes queue batches)
    (hflatten : batches.flatten = queue) (hsorted : queue.Pairwise (arrival · ≤ arrival ·))
    (hpos : ∀ i ∈ queue, 0 < length i) :
    LeastStart arrival (BatchRoom length lanes) start queue := by
  intro pre j post hsplit
  obtain ⟨before, ahead, behind, after, rfl, rfl, rfl⟩ :=
    exists_batch_of_split (hflatten.trans hsplit)
  have hqueue : before.flatten ++ ((ahead ++ j :: behind) ++ after.flatten) = queue := by
    rw [hsplit]
    simp
  have hbatch := h before (ahead ++ j :: behind) after rfl _ hqueue
  have hlen := hbatch.length_le
  have hj : j ∈ ahead ++ j :: behind := List.mem_append_right _ List.mem_cons_self
  have harrived := hbatch.arrived (List.pairwise_append.mp (hqueue ▸ hsorted)).2.1 j hj
  obtain ⟨first, members, t, hcons, hstart, ⟨⟨-, hserved⟩, hleast⟩, -⟩ := hbatch
  rw [hstart j hj] at harrived ⊢
  constructor
  · refine ⟨harrived, ?_, ?_⟩
    · intro i hi
      rcases List.mem_append.mp hi with hi | hi
      · exact Or.inl (hserved i hi)
      · exact Or.inr (hstart i (List.mem_append_left _ hi))
    · have hnone : before.flatten.countP (fun i => start i = t) = 0 := by
        apply List.countP_eq_zero.mpr
        intro i hi
        have hend := hserved i hi
        have hi' := hpos i (hqueue ▸ List.mem_append_left _ hi)
        simp only [decide_eq_true_eq]
        omega
      have hle := List.countP_le_length (p := fun i => start i = t) (l := ahead)
      rw [List.length_append, List.length_cons] at hlen
      rw [List.countP_append, hnone]
      omega
  · rintro t' ⟨hat, hroom⟩
    cases ahead with
    | nil =>
        obtain rfl := List.head_eq_of_cons_eq hcons
        rw [List.append_nil] at hroom
        exact hleast ⟨hat, h.of_append.le_of_batchRoom hqueue hsorted hpos hat hroom⟩
    | cons i ahead =>
        have hi := hstart i List.mem_cons_self
        have hi' := hpos i (hqueue ▸ by simp)
        rcases hroom.1 i (by simp) with hend | heq
        · omega
        · omega

end Batches

end LaneSchedule
