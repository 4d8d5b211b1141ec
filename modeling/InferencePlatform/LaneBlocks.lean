import InferencePlatform.LaneBatches

/-!
# Head-of-line blocking

Jobs `0, 1, 2, …` are all there from the start, and every `c`-th of them is long. Served batch by
batch on `c` lanes, each batch holds one long job, which the other lanes wait for. Kept busy, the
lanes serve the short jobs next to the long ones until the long jobs fill every lane.
-/

namespace LaneSchedule

theorem KeepsBusy.of_map {ι κ : Type*} {arrival length start : ι → ℤ} {n : ℤ} {js : List κ}
    (f : κ → ι) (h : KeepsBusy arrival length start n (js.map f)) :
    KeepsBusy (fun j => arrival (f j)) (fun j => length (f j)) (fun j => start (f j)) n js := by
  intro pre j post hsplit t hat hts
  have hfull := h (pre.map f) (f j) (post.map f) (by simp [hsplit]) t hat hts
  rwa [busy, List.countP_map] at hfull

/-- `size` for the jobs at the head of a batch and one step for the others. -/
def blockLength (c : ℕ) (size : ℤ) (i : ℕ) : ℤ := if i % c = 0 then size else 1

/-- Batch after batch, each as long as its head. -/
def blockStart (c : ℕ) (size : ℤ) (i : ℕ) : ℤ := (i / c : ℕ) * size

section Blocks

variable {c : ℕ} {size : ℤ}

theorem blockLength_le (hsize : 1 ≤ size) (i : ℕ) : blockLength c size i ≤ size := by
  unfold blockLength
  split_ifs
  · exact le_rfl
  · exact hsize

theorem blockLength_pos (hsize : 1 ≤ size) (i : ℕ) : 0 < blockLength c size i := by
  unfold blockLength
  split_ifs <;> omega

theorem eq_range_of_split {n i : ℕ} {pre post : List ℕ} (h : List.range n = pre ++ i :: post) :
    pre = List.range i ∧ i < n := by
  have hlen : pre.length < n := by
    have := congrArg List.length h
    simp at this
    omega
  have hi : i = pre.length := by
    have hget := congrArg (fun l : List ℕ => l[pre.length]?) h
    simpa [List.getElem?_range hlen] using hget.symm
  have hpre : pre = (List.range n).take pre.length := by
    rw [h, List.take_left']
    rfl
  rw [List.take_range, min_eq_left hlen.le, ← hi] at hpre
  exact ⟨hpre, hi ▸ hlen⟩

/-- The heads among the first `c * m` jobs. -/
theorem countP_heads (hc : 0 < c) (m : ℕ) :
    (List.range (c * m)).countP (fun i => i % c = 0) = m := by
  induction m with
  | zero => rfl
  | succ m ih =>
      have hhead : (List.range c).countP (fun i => (c * m + i) % c = 0) = 1 := by
        obtain ⟨k, rfl⟩ : ∃ k, c = k + 1 := ⟨c - 1, by omega⟩
        rw [List.range_succ_eq_map, List.countP_cons, List.countP_map]
        have hrest : (List.range k).countP
            ((fun i => decide (((k + 1) * m + i) % (k + 1) = 0)) ∘ Nat.succ) = 0 := by
          apply List.countP_eq_zero.mpr
          intro i hi
          have hik := List.mem_range.mp hi
          simp only [Function.comp_apply, Nat.mul_add_mod, decide_eq_true_eq]
          rw [Nat.mod_eq_of_lt (by omega)]
          omega
        rw [hrest]
        simp
      rw [Nat.mul_succ, List.range_add, List.countP_append, ih, List.countP_map]
      exact congrArg (m + ·) hhead

theorem blockStart_inj (hsize : 1 ≤ size) {i j : ℕ} :
    blockStart c size i = blockStart c size j ↔ i / c = j / c := by
  unfold blockStart
  constructor
  · intro h
    exact_mod_cast mul_right_cancel₀ (by omega) h
  · intro h
    rw [h]

/-- The members of the batch of `i` that come before `i`. -/
theorem countP_batch_lt (hc : 0 < c) (hsize : 1 ≤ size) (i : ℕ) :
    (List.range i).countP (fun j => blockStart c size j = blockStart c size i) < c := by
  have hearlier : (List.range (c * (i / c))).countP
      (fun j => blockStart c size j = blockStart c size i) = 0 := by
    apply List.countP_eq_zero.mpr
    intro j hj
    have hlt := Nat.div_lt_of_lt_mul (List.mem_range.mp hj)
    simp only [decide_eq_true_eq, blockStart_inj hsize]
    omega
  have hle := List.countP_le_length
    (p := fun j => decide (blockStart c size j = blockStart c size i))
    (l := (List.range (i % c)).map (c * (i / c) + ·))
  rw [List.length_map, List.length_range] at hle
  have hmod := Nat.mod_lt i hc
  conv_lhs => rw [← Nat.div_add_mod i c, List.range_add, List.countP_append]
  rw [Nat.div_add_mod, hearlier, zero_add]
  exact hle.trans_lt hmod

theorem countP_batch_ge {k j : ℕ} (hj : c * k + c ≤ j) :
    c ≤ (List.range j).countP (fun i => blockStart c size i = k * size) := by
  obtain ⟨more, rfl⟩ := Nat.exists_eq_add_of_le hj
  have hbatch : ((List.range c).map (c * k + ·)).countP
      (fun i => blockStart c size i = k * size) = c := by
    rw [List.countP_eq_length.mpr]
    · simp
    · intro i hi
      obtain ⟨x, hx, rfl⟩ := List.mem_map.mp hi
      have hxc := List.mem_range.mp hx
      have hdiv : (c * k + x) / c = k := by
        rw [Nat.mul_add_div (by omega), Nat.div_eq_of_lt hxc, add_zero]
      simp only [decide_eq_true_eq, blockStart, hdiv]
  rw [List.range_add, List.range_add, List.countP_append, List.countP_append, hbatch]
  omega

/-- The blocks start as soon as static batching allows: while the one before is in service, none of
the next can start. -/
theorem leastStart_blockStart (hc : 0 < c) (hsize : 1 ≤ size) (n : ℕ) :
    LeastStart (fun _ => 0) (BatchRoom (blockLength c size) c) (blockStart c size)
      (List.range n) := by
  intro pre j post hsplit
  obtain ⟨rfl, -⟩ := eq_range_of_split hsplit
  constructor
  · refine ⟨by unfold blockStart; positivity, ?_, by exact_mod_cast countP_batch_lt hc hsize j⟩
    intro i hi
    have hij := List.mem_range.mp hi
    by_cases hbatch : i / c = j / c
    · exact .inr ((blockStart_inj hsize).mpr hbatch)
    · have hlt : i / c + 1 ≤ j / c := by
        have := Nat.div_le_div_right (c := c) hij.le
        omega
      have hlen := blockLength_le (c := c) hsize i
      refine .inl ?_
      calc blockStart c size i + blockLength c size i
          ≤ (i / c : ℕ) * size + size := add_le_add_right hlen _
        _ = (i / c + 1 : ℕ) * size := by push_cast; ring
        _ ≤ (j / c : ℕ) * size := by
            apply mul_le_mul_of_nonneg_right _ (by omega)
            exact_mod_cast hlt
  · rintro t ⟨hat, hended, hfree⟩
    by_contra! hlt
    have hne : j / c ≠ 0 := by
      intro hzero
      rw [blockStart, hzero] at hlt
      simp only [Nat.cast_zero, zero_mul] at hlt
      exact absurd hat (not_le.mpr hlt)
    obtain ⟨k, hk⟩ := Nat.exists_eq_add_one_of_ne_zero hne
    have hj : c * k + c ≤ j := by
      have := Nat.mul_div_le j c
      rwa [hk, Nat.mul_succ] at this
    have hhead : blockStart c size (c * k) = k * size := by
      rw [blockStart, Nat.mul_div_cancel_left k hc]
    have hlen : blockLength c size (c * k) = size := by
      rw [blockLength, if_pos (Nat.mul_mod_right c k)]
    have ht : t = k * size := by
      rcases hended (c * k) (List.mem_range.mpr (by omega)) with hend | hstart
      · rw [hhead, hlen] at hend
        rw [blockStart, hk] at hlt
        push_cast at hlt
        linarith
      · rw [← hstart, hhead]
    have hfull : c ≤ (List.range j).countP (fun i => blockStart c size i = k * size) :=
      countP_batch_ge hj
    rw [ht] at hfree
    omega

/-! ### Lanes kept busy -/

/-- The jobs before the last head, without the heads. -/
theorem countP_others (hc : 0 < c) :
    (List.range (c * (c - 1))).countP (fun i => ¬ i % c = 0) = (c - 1) ^ 2 := by
  have hall := List.length_eq_countP_add_countP (fun i => decide (i % c = 0))
    (l := List.range (c * (c - 1)))
  rw [List.length_range, countP_heads hc] at hall
  obtain ⟨k, rfl⟩ : ∃ k, c = k + 1 := ⟨c - 1, by omega⟩
  simp only [Nat.add_sub_cancel, decide_eq_true_eq] at hall ⊢
  have hsq : (k + 1) * k = k + k ^ 2 := by ring
  omega

/-- With one head fewer than lanes ahead of it, a job waits for short jobs only. -/
theorem KeepsBusy.start_le_of_blocks {start : ℕ → ℤ} (hc : 0 < c) (hsize : 1 ≤ size)
    (h : KeepsBusy (fun _ => 0) (blockLength c size) start c (List.range (c * (c - 1) + 1))) :
    ∀ i ∈ List.range (c * (c - 1) + 1), start i ≤ ((c - 1) ^ 2 : ℕ) := by
  intro i hi
  obtain ⟨pre, post, hsplit⟩ := List.append_of_mem hi
  obtain ⟨rfl, hin⟩ := eq_range_of_split hsplit
  have hsub : (List.range i).Sublist (List.range (c * (c - 1))) :=
    List.range_sublist.mpr (by omega)
  let others := (List.range i).filter (fun j => ¬ j % c = 0)
  have hheads : ((List.range i).filter (fun j => j % c = 0)).length ≤ c - 1 := by
    rw [← List.countP_eq_length_filter]
    exact (hsub.countP_le).trans (countP_heads hc _).le
  have hothers : others.length ≤ (c - 1) ^ 2 := by
    rw [← countP_others hc, ← List.countP_eq_length_filter]
    exact hsub.countP_le
  have hbusy : ∀ t ∈ Finset.Ico 0 (start i), 1 ≤ busy (blockLength c size) start others t := by
    intro t ht
    obtain ⟨hat, hts⟩ := Finset.mem_Ico.mp ht
    have hfull := h (List.range i) i post hsplit t hat hts
    have hpart : busy (blockLength c size) start (List.range i) t =
        busy (blockLength c size) start ((List.range i).filter (fun j => j % c = 0)) t +
          busy (blockLength c size) start others t := by
      have hsplit := List.countP_eq_countP_filter_add (List.range i)
        (fun j => decide (InService (blockLength c size) start j t)) (fun j => decide (j % c = 0))
      simpa only [busy, others, decide_not] using hsplit
    have hle := List.countP_le_length
      (p := fun j => decide (InService (blockLength c size) start j t))
      (l := (List.range i).filter (fun j => j % c = 0))
    rw [busy, busy, busy] at hpart
    rw [busy] at hfull ⊢
    omega
  have hwork : ((∑ t ∈ Finset.Ico 0 (start i), busy (blockLength c size) start others t : ℕ) : ℤ) ≤
      (others.map (blockLength c size)).sum :=
    sum_busy_le (fun j _ => (blockLength_pos hsize j).le) 0 (start i)
  have hlengths : others.map (blockLength c size) = others.map (fun _ => 1) := by
    apply List.map_congr_left
    intro j hj
    exact if_neg (by simpa using (List.mem_filter.mp hj).2)
  have hsteps := Finset.card_nsmul_le_sum _
    (fun t => busy (blockLength c size) start others t) 1 hbusy
  rw [hlengths, List.map_const', List.sum_replicate, nsmul_one] at hwork
  rw [Int.card_Ico, smul_eq_mul, mul_one, sub_zero] at hsteps
  have hself := Int.self_le_toNat (start i)
  omega

end Blocks

end LaneSchedule
