import InferencePlatform.NearestRank
import Mathlib.Algebra.Order.BigOperators.Group.List
import Mathlib.Data.List.Lex
import Mathlib.Data.List.Perm.Subperm
import Mathlib.Data.Prod.Lex

/-!
# Selecting the first elements of a sorted pool

Groups of one size are taken from a pool and compared by their total weight and then by the
sorted list of their names. Sorting the pool by weight and then by name, its first elements are a
group of least cost. The elements of the prefix lie below those of any other group one by one,
which bounds the weights; when the totals are equal, the weights are, and the names lie below
each other as well. `forall₂_take_le` compares the lists and `cost_le_of_forall₂` the groups.
-/

namespace PrefixSelection

open NearestRank

section Domination

variable {α : Type*} [LinearOrder α] {xs ys : List α}

/-- The first entries of a sorted list lie below a sorted list with smaller counts. -/
theorem forall₂_take_le (hxs : xs.Pairwise (· ≤ ·)) (hys : ys.Pairwise (· ≤ ·))
    (hlen : ys.length ≤ xs.length) (hcount : ∀ x, ys.countP (· ≤ x) ≤ xs.countP (· ≤ x)) :
    List.Forall₂ (· ≤ ·) (xs.take ys.length) ys := by
  refine List.forall₂_iff_get.mpr ⟨List.length_take_of_le hlen, fun i _ hi => ?_⟩
  simp only [List.get_eq_getElem, List.getElem_take]
  have hbelow := (getElem_le_iff hys hi ys[i]).mp le_rfl
  exact (getElem_le_iff hxs (hi.trans_le hlen) ys[i]).mpr (hbelow.trans_le (hcount ys[i]))

theorem countP_le_of_forall₂ (h : List.Forall₂ (· ≤ ·) xs ys) (x : α) :
    ys.countP (· ≤ x) ≤ xs.countP (· ≤ x) := by
  induction h with
  | nil => exact le_rfl
  | @cons a b xs ys hab _ ih =>
      by_cases hbx : b ≤ x
      · rw [List.countP_cons_of_pos (by simpa using hbx),
          List.countP_cons_of_pos (by simpa using hab.trans hbx)]
        exact Nat.succ_le_succ ih
      · rw [List.countP_cons_of_neg (by simpa using hbx), List.countP_cons]
        exact ih.trans (Nat.le_add_right _ _)

/-- Sorting keeps lists below each other. -/
theorem forall₂_insertionSort (h : List.Forall₂ (· ≤ ·) xs ys) :
    List.Forall₂ (· ≤ ·) (xs.insertionSort (· ≤ ·)) (ys.insertionSort (· ≤ ·)) := by
  have hlen : (ys.insertionSort (· ≤ ·)).length = (xs.insertionSort (· ≤ ·)).length := by
    rw [List.length_insertionSort, List.length_insertionSort, h.length_eq]
  have hdom := forall₂_take_le (List.pairwise_insertionSort (· ≤ ·) xs)
    (List.pairwise_insertionSort (· ≤ ·) ys) hlen.le fun x => by
      rw [(List.perm_insertionSort _ xs).countP_eq, (List.perm_insertionSort _ ys).countP_eq]
      exact countP_le_of_forall₂ h x
  rwa [hlen, List.take_length] at hdom

theorem le_of_forall₂ (h : List.Forall₂ (· ≤ ·) xs ys) : xs ≤ ys := by
  induction h with
  | nil => exact le_rfl
  | cons hab _ ih =>
      rcases hab.lt_or_eq with hlt | rfl
      · exact le_of_lt (List.Lex.rel hlt)
      · rcases ih.lt_or_eq with hlt | rfl
        · exact le_of_lt (List.Lex.cons hlt)
        · exact le_rfl

/-- Lists below each other with one sum are equal. -/
theorem eq_of_forall₂_of_sum_eq {W : Type*} [AddCommMonoid W] [LinearOrder W]
    [IsOrderedCancelAddMonoid W] {xs ys : List W} (h : List.Forall₂ (· ≤ ·) xs ys)
    (hsum : xs.sum = ys.sum) : xs = ys := by
  induction h with
  | nil => rfl
  | cons hab hrest ih =>
      rw [List.sum_cons, List.sum_cons, add_eq_add_iff_eq_and_eq hab hrest.sum_le_sum] at hsum
      rw [hsum.1, ih hsum.2]

end Domination

section Selection

variable {α W N : Type*} [LinearOrder N] (weight : α → W) (name : α → N)

def key (a : α) : W ×ₗ N := toLex (weight a, name a)

/-- Total weight and sorted names of a group. -/
def cost [AddCommMonoid W] (group : List α) : W ×ₗ List N :=
  toLex ((group.map weight).sum, (group.map name).insertionSort (· ≤ ·))

variable {weight name} {xs ys : List α}

theorem cost_perm [AddCommMonoid W] (h : xs.Perm ys) :
    cost weight name xs = cost weight name ys := by
  have hnames : (xs.map name).insertionSort (· ≤ ·) = (ys.map name).insertionSort (· ≤ ·) :=
    ((List.perm_insertionSort _ _).trans ((h.map name).trans
      (List.perm_insertionSort _ _).symm)).eq_of_pairwise
      (fun _ _ _ _ => le_antisymm) (List.pairwise_insertionSort _ _)
      (List.pairwise_insertionSort _ _)
  rw [cost, cost, (h.map weight).sum_eq, hnames]

theorem forall₂_name [LinearOrder W]
    (h : List.Forall₂ (fun a b => key weight name a ≤ key weight name b) xs ys)
    (hweight : xs.map weight = ys.map weight) :
    List.Forall₂ (· ≤ ·) (xs.map name) (ys.map name) := by
  induction h with
  | nil => exact List.Forall₂.nil
  | cons hab _ ih =>
      obtain ⟨hhead, htail⟩ := List.cons.inj hweight
      exact List.Forall₂.cons ((Prod.Lex.toLex_le_toLex'.mp hab).2 hhead) (ih htail)

variable [AddCommMonoid W] [LinearOrder W] [IsOrderedCancelAddMonoid W]

theorem cost_le_of_forall₂
    (h : List.Forall₂ (fun a b => key weight name a ≤ key weight name b) xs ys) :
    cost weight name xs ≤ cost weight name ys := by
  have hweights : List.Forall₂ (· ≤ ·) (xs.map weight) (ys.map weight) := by
    rw [List.forall₂_map_left_iff, List.forall₂_map_right_iff]
    exact h.imp fun _ _ hab => (Prod.Lex.toLex_le_toLex'.mp hab).1
  refine Prod.Lex.toLex_le_toLex'.mpr ⟨hweights.sum_le_sum, fun hsum => ?_⟩
  have heq := eq_of_forall₂_of_sum_eq hweights hsum
  exact le_of_forall₂ (forall₂_insertionSort (forall₂_name h heq))

/-- The first elements of the sorted pool cost no more than any group of their number. -/
theorem cost_take_le {pool sorted group : List α}
    (hperm : sorted.Perm pool)
    (hsorted : sorted.Pairwise (fun a b => key weight name a ≤ key weight name b))
    (hgroup : group.Subperm pool) :
    cost weight name (sorted.take group.length) ≤ cost weight name group := by
  have : Std.Total (fun a b => key weight name a ≤ key weight name b) :=
    ⟨fun a b => le_total (key weight name a) (key weight name b)⟩
  have : IsTrans α (fun a b => key weight name a ≤ key weight name b) := ⟨fun _ _ _ => le_trans⟩
  let ordered := group.insertionSort (fun a b => key weight name a ≤ key weight name b)
  have hordered : ordered.Perm group := List.perm_insertionSort _ group
  have hsub : ordered.Subperm sorted :=
    hordered.subperm.trans (hgroup.trans hperm.symm.subperm)
  have hdom : List.Forall₂ (· ≤ ·) ((sorted.map (key weight name)).take
      (ordered.map (key weight name)).length) (ordered.map (key weight name)) := by
    apply forall₂_take_le
    · exact List.pairwise_map.mpr hsorted
    · exact List.pairwise_map.mpr (List.pairwise_insertionSort _ group)
    · simpa only [List.length_map] using hsub.length_le
    · intro x
      rw [List.countP_map, List.countP_map]
      exact hsub.countP_le _
  rw [← cost_perm hordered, ← hordered.length_eq]
  apply cost_le_of_forall₂
  rwa [List.length_map, ← List.map_take, List.forall₂_map_left_iff,
    List.forall₂_map_right_iff] at hdom

end Selection

end PrefixSelection
