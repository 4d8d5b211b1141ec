import Mathlib.Algebra.BigOperators.Group.List.Basic
import Mathlib.Algebra.BigOperators.Group.Finset.Basic
import Mathlib.Data.List.Dedup
import Mathlib.Data.List.Perm.Subperm
import Mathlib.Data.List.ProdSigma
import Mathlib.Tactic

/-!
# Disjoint groups of items with one key

A packing of a list is a family of pairwise disjoint groups of `size` items, each with one key.
Items of different keys do not compete, so the largest packing fills every key separately:
`exists_packing_iff` says that `n` groups can be packed exactly when `n` is at most `capacity`.
-/

namespace GroupPacking

open List

section Packing

variable {α κ : Type*} [DecidableEq κ] (key : α → κ) (size : ℕ) (xs : List α)

structure IsPacking (groups : List (List α)) : Prop where
  sublist : ∀ group ∈ groups, group.Sublist xs
  length : ∀ group ∈ groups, group.length = size
  same_key : ∀ group ∈ groups, ∃ k, ∀ x ∈ group, key x = k
  disjoint : groups.Pairwise Disjoint

/-- Whole groups of every key that occurs. -/
def capacity : ℕ := ∑ k ∈ (xs.map key).toFinset, xs.countP (key · = k) / size

def chunks : ℕ → List α → List (List α)
  | 0, _ => []
  | n + 1, xs => xs.take size :: chunks n (xs.drop size)

variable {key size xs}

theorem length_chunks (n : ℕ) (xs : List α) : (chunks size n xs).length = n := by
  induction n generalizing xs with
  | zero => rfl
  | succ n ih => exact congrArg (· + 1) (ih (xs.drop size))

theorem sublist_of_mem_chunks {n : ℕ} {group : List α} (h : group ∈ chunks size n xs) :
    group.Sublist xs := by
  induction n generalizing xs with
  | zero => cases h
  | succ n ih =>
      rcases mem_cons.mp h with rfl | h
      · exact take_sublist size xs
      · exact (ih h).trans (drop_sublist size xs)

theorem length_of_mem_chunks {n : ℕ} {group : List α} (hlen : n * size ≤ xs.length)
    (h : group ∈ chunks size n xs) : group.length = size := by
  induction n generalizing xs with
  | zero => cases h
  | succ n ih =>
      rw [Nat.succ_mul] at hlen
      rcases mem_cons.mp h with rfl | h
      · rw [length_take]
        omega
      · refine ih ?_ h
        rw [length_drop]
        omega

theorem pairwise_chunks (n : ℕ) (hnodup : xs.Nodup) :
    (chunks size n xs).Pairwise Disjoint := by
  induction n generalizing xs with
  | zero => exact Pairwise.nil
  | succ n ih =>
      refine pairwise_cons.mpr ⟨fun group hgroup => ?_, ih (hnodup.sublist (drop_sublist size xs))⟩
      have hsplit : (xs.take size ++ xs.drop size).Nodup := by
        rw [take_append_drop]
        exact hnodup
      exact fun x hx hx' =>
        disjoint_of_nodup_append hsplit hx ((sublist_of_mem_chunks hgroup).subset hx')

theorem mem_chunks_filter {n : ℕ} {group : List α} {k : κ} {x : α}
    (h : group ∈ chunks size n (xs.filter (key · = k))) (hx : x ∈ group) :
    x ∈ xs ∧ key x = k := by
  have hmem := mem_filter.mp ((sublist_of_mem_chunks h).subset hx)
  exact ⟨hmem.1, of_decide_eq_true hmem.2⟩

variable (key size xs) in
/-- Every key filled with as many groups as it has items for. -/
def packAll : List (List α) :=
  (xs.map key).dedup.flatMap fun k =>
    chunks size (xs.countP (key · = k) / size) (xs.filter (key · = k))

theorem length_packAll : (packAll key size xs).length = capacity key size xs := by
  unfold packAll capacity
  simp only [length_flatMap, length_chunks]
  rfl

theorem isPacking_packAll (hnodup : xs.Nodup) : IsPacking key size xs (packAll key size xs) := by
  have hgroup {group : List α} (h : group ∈ packAll key size xs) :
      ∃ k, group ∈ chunks size (xs.countP (key · = k) / size) (xs.filter (key · = k)) := by
    obtain ⟨k, -, hk⟩ := mem_flatMap.mp h
    exact ⟨k, hk⟩
  refine ⟨fun group h => ?_, fun group h => ?_, fun group h => ?_, ?_⟩
  · obtain ⟨k, hk⟩ := hgroup h
    exact (sublist_of_mem_chunks hk).trans filter_sublist
  · obtain ⟨k, hk⟩ := hgroup h
    refine length_of_mem_chunks ?_ hk
    rw [← countP_eq_length_filter]
    exact Nat.div_mul_le_self _ _
  · obtain ⟨k, hk⟩ := hgroup h
    exact ⟨k, fun x hx => (mem_chunks_filter hk hx).2⟩
  · refine pairwise_flatMap.mpr ⟨fun k _ => pairwise_chunks _ (hnodup.filter _), ?_⟩
    refine (nodup_dedup _).imp fun {k k'} hne group hk group' hk' x hx hx' => hne ?_
    rw [← (mem_chunks_filter hk hx).2, (mem_chunks_filter hk' hx').2]

/-! ### No packing is larger -/

variable {groups : List (List α)} {k : κ}

/-- A group is counted under the one key of its items. -/
theorem countP_group (h : IsPacking key size xs groups) {group : List α} (hg : group ∈ groups) :
    group.countP (key · = k) = if ∀ x ∈ group, key x = k then size else 0 := by
  obtain ⟨k', hk'⟩ := h.same_key group hg
  split_ifs with hk
  · rw [← h.length group hg, countP_eq_length]
    exact fun x hx => decide_eq_true (hk x hx)
  · refine countP_eq_zero.mpr fun x hx hxk => hk fun y hy => ?_
    rw [hk' y hy, ← hk' x hx]
    exact of_decide_eq_true hxk

omit [DecidableEq κ] in
theorem IsPacking.tail {group : List α} (h : IsPacking key size xs (group :: groups)) :
    IsPacking key size xs groups :=
  ⟨fun g hg => h.sublist g (mem_cons_of_mem _ hg), fun g hg => h.length g (mem_cons_of_mem _ hg),
    fun g hg => h.same_key g (mem_cons_of_mem _ hg), (pairwise_cons.mp h.disjoint).2⟩

theorem countP_flatten (h : IsPacking key size xs groups) :
    groups.flatten.countP (key · = k) = groups.countP (∀ x ∈ ·, key x = k) * size := by
  induction groups with
  | nil => exact (Nat.zero_mul size).symm
  | cons group groups ih =>
      rw [flatten_cons, countP_append, ih h.tail, countP_group h mem_cons_self, countP_cons,
        Nat.add_mul, Nat.add_comm]
      simp only [decide_eq_true_eq, ite_mul, one_mul, zero_mul]

theorem countP_flatten_le (hnodup : xs.Nodup) (h : IsPacking key size xs groups) :
    groups.flatten.countP (key · = k) ≤ xs.countP (key · = k) := by
  have hflat : groups.flatten.Nodup :=
    nodup_flatten.mpr ⟨fun group hg => hnodup.sublist (h.sublist group hg), h.disjoint⟩
  have hsub : groups.flatten ⊆ xs := by
    intro x hx
    obtain ⟨group, hg, hx⟩ := mem_flatten.mp hx
    exact (h.sublist group hg).subset hx
  exact (subperm_of_subset hflat hsub).countP_le _

theorem length_eq_sum (hsize : 0 < size) (h : IsPacking key size xs groups) :
    groups.length = ∑ k ∈ (xs.map key).toFinset, groups.countP (∀ x ∈ ·, key x = k) := by
  induction groups with
  | nil => exact Finset.sum_const_zero.symm
  | cons group groups ih =>
      obtain ⟨k, hk⟩ := h.same_key group mem_cons_self
      obtain ⟨x, hx⟩ := exists_mem_of_length_pos ((h.length group mem_cons_self).symm ▸ hsize)
      have hmem : k ∈ (xs.map key).toFinset := by
        rw [mem_toFinset, ← hk x hx]
        exact mem_map_of_mem ((h.sublist group mem_cons_self).subset hx)
      have hiff (k' : κ) : (∀ x ∈ group, key x = k') ↔ k = k' :=
        ⟨fun h' => (hk x hx).symm.trans (h' x hx), fun heq y hy => (hk y hy).trans heq⟩
      simp only [countP_cons, Finset.sum_add_distrib, decide_eq_true_eq, hiff,
        Finset.sum_ite_eq, if_pos hmem, ← ih h.tail, length_cons]

theorem IsPacking.length_le (hsize : 0 < size) (hnodup : xs.Nodup)
    (h : IsPacking key size xs groups) : groups.length ≤ capacity key size xs := by
  rw [length_eq_sum hsize h]
  refine Finset.sum_le_sum fun k _ => ?_
  rw [Nat.le_div_iff_mul_le hsize, ← countP_flatten h]
  exact countP_flatten_le hnodup h

theorem exists_packing_iff (hsize : 0 < size) (hnodup : xs.Nodup) {n : ℕ} :
    (∃ groups, n ≤ groups.length ∧ IsPacking key size xs groups) ↔ n ≤ capacity key size xs := by
  constructor
  · rintro ⟨groups, hn, h⟩
    exact hn.trans (h.length_le hsize hnodup)
  · intro hn
    rw [← length_packAll] at hn
    exact ⟨packAll key size xs, hn, isPacking_packAll hnodup⟩

/-! ### Bundles of groups -/

theorem flatten_chunks (n : ℕ) (xs : List α) :
    (chunks size n xs).flatten = xs.take (n * size) := by
  induction n generalizing xs with
  | zero => simp [chunks]
  | succ n ih =>
      rw [chunks, flatten_cons, ih, Nat.succ_mul, Nat.add_comm (n * size), take_add]

omit [DecidableEq κ] in
theorem IsPacking.of_sublist {groups' : List (List α)} (hsub : groups'.Sublist groups)
    (h : IsPacking key size xs groups) : IsPacking key size xs groups' :=
  ⟨fun g hg => h.sublist g (hsub.subset hg), fun g hg => h.length g (hsub.subset hg),
    fun g hg => h.same_key g (hsub.subset hg), h.disjoint.sublist hsub⟩

/-- `m` bundles of `n` groups each, all groups disjoint. -/
theorem exists_bundles_iff (hsize : 0 < size) (hnodup : xs.Nodup) {m n : ℕ} :
    (∃ bundles : List (List (List α)), bundles.length = m ∧ (∀ b ∈ bundles, b.length = n) ∧
      IsPacking key size xs bundles.flatten) ↔ m * n ≤ capacity key size xs := by
  constructor
  · rintro ⟨bundles, rfl, hlength, h⟩
    have hle := h.length_le hsize hnodup
    rwa [length_flatten, map_congr_left hlength, map_const', sum_replicate_nat] at hle
  · intro hle
    rw [← length_packAll] at hle
    refine ⟨chunks n m (packAll key size xs), length_chunks _ _,
      fun b hb => length_of_mem_chunks hle hb, ?_⟩
    rw [flatten_chunks]
    exact (isPacking_packAll hnodup).of_sublist (take_sublist _ _)

/-! ### The same number of items for every key -/

theorem countP_product {β : Type*} (keys : List κ) (items : List β) :
    (keys ×ˢ items).countP (fun x => x.1 = k) = keys.count k * items.length := by
  induction keys with
  | nil => simp
  | cons a keys ih =>
      rw [product_cons, countP_append, ih, countP_map, count_cons, Nat.add_mul, Nat.add_comm]
      by_cases hk : a = k
      · simp [hk]
      · simp [hk]

theorem capacity_product {β : Type*} {keys : List κ} {items : List β} (hkeys : keys.Nodup)
    (hitems : items ≠ []) :
    capacity Prod.fst size (keys ×ˢ items) = keys.length * (items.length / size) := by
  have hfst : ((keys ×ˢ items).map Prod.fst).toFinset = keys.toFinset := by
    obtain ⟨item, hitem⟩ := exists_mem_of_ne_nil items hitems
    ext a
    rw [mem_toFinset, mem_toFinset, mem_map]
    constructor
    · rintro ⟨⟨a, b⟩, hmem, rfl⟩
      exact (mem_product.mp hmem).1
    · intro ha
      exact ⟨(a, item), mem_product.mpr ⟨ha, hitem⟩, rfl⟩
  have hcount : ∀ a ∈ keys.toFinset,
      (keys ×ˢ items).countP (fun x => x.1 = a) / size = items.length / size := by
    intro a ha
    rw [countP_product, count_eq_one_of_mem hkeys (mem_toFinset.mp ha), Nat.one_mul]
  rw [capacity, hfst, Finset.sum_congr rfl hcount, Finset.sum_const, smul_eq_mul,
    toFinset_card_of_nodup hkeys]

end Packing

end GroupPacking
