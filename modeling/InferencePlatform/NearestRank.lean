import Mathlib.Algebra.Order.Field.Rat
import Mathlib.Data.List.Sort
import Mathlib.Data.Rat.Floor
import Mathlib.Tactic.Linarith

/-!
# Nearest-rank percentiles

The nearest rank of a fraction `p` among values is the least value with at least the fraction `p`
of all values at or below it. `IsNearestRank` states this by counting, so that permuting and
pooling values are facts about counts, and `isNearestRank_of_sorted` reads it off a sorted list.
-/

namespace NearestRank

variable {α : Type*} [LinearOrder α]

/-- A bound holds for `v` exactly when it holds for the fraction `p` of the values. -/
def IsNearestRank (p : ℚ) (values : List α) (v : α) : Prop :=
  ∀ x, v ≤ x ↔ p * values.length ≤ values.countP (· ≤ x)

section Rank

variable {p : ℚ} {values values' : List α} {v w x : α}

theorem IsNearestRank.unique (hv : IsNearestRank p values v) (hw : IsNearestRank p values w) :
    v = w :=
  eq_of_forall_ge_iff fun x => (hv x).trans (hw x).symm

theorem IsNearestRank.perm (h : values.Perm values') (hv : IsNearestRank p values v) :
    IsNearestRank p values' v := by
  intro x
  rw [← h.length_eq, ← h.countP_eq]
  exact hv x

/-- A bound on both parts is a bound on the pooled values. -/
theorem IsNearestRank.append_le {u : α} (hv : IsNearestRank p values v)
    (hw : IsNearestRank p values' w) (hu : IsNearestRank p (values ++ values') u) (hvx : v ≤ x)
    (hwx : w ≤ x) : u ≤ x := by
  have hleft := (hv x).mp hvx
  have hright := (hw x).mp hwx
  rw [hu x, List.length_append, List.countP_append]
  push_cast
  linarith

/-- A bound on the pooled values is a bound on one of the parts. -/
theorem IsNearestRank.le_or_le {u : α} (hv : IsNearestRank p values v)
    (hw : IsNearestRank p values' w) (hu : IsNearestRank p (values ++ values') u) (hux : u ≤ x) :
    v ≤ x ∨ w ≤ x := by
  by_contra! hnone
  have hleft := not_le.mp (mt (hv x).mpr hnone.1.not_ge)
  have hright := not_le.mp (mt (hw x).mpr hnone.2.not_ge)
  have hpooled := (hu x).mp hux
  rw [List.length_append, List.countP_append] at hpooled
  push_cast at hpooled
  linarith

theorem IsNearestRank.min_le_append {u : α} (hv : IsNearestRank p values v)
    (hw : IsNearestRank p values' w) (hu : IsNearestRank p (values ++ values') u) :
    min v w ≤ u :=
  min_le_iff.mpr (hv.le_or_le hw hu le_rfl)

theorem IsNearestRank.append_le_max {u : α} (hv : IsNearestRank p values v)
    (hw : IsNearestRank p values' w) (hu : IsNearestRank p (values ++ values') u) :
    u ≤ max v w :=
  hv.append_le hw hu (le_max_left v w) (le_max_right v w)

/-- Values that are matched one by one keep the match at the rank. -/
theorem IsNearestRank.le_of_forall₂ {β : Type*} [LinearOrder β] {others : List β} {u : β}
    {f : β → α} (hf : Monotone f) (h : List.Forall₂ (fun a b => a ≤ f b) values others)
    (hv : IsNearestRank p values v) (hu : IsNearestRank p others u) : v ≤ f u := by
  have hcount : others.countP (· ≤ u) ≤ values.countP (· ≤ f u) := by
    clear hv hu
    induction h with
    | nil => exact le_rfl
    | @cons a b values others hab _ ih =>
        by_cases hb : b ≤ u
        · have ha : a ≤ f u := hab.trans (hf hb)
          rw [List.countP_cons_of_pos (by simpa using hb),
            List.countP_cons_of_pos (by simpa using ha)]
          omega
        · rw [List.countP_cons_of_neg (by simpa using hb)]
          exact ih.trans (List.sublist_cons_self a values).countP_le
  have hrank := (hu u).mp le_rfl
  rw [hv (f u), h.length_eq]
  exact hrank.trans (by exact_mod_cast hcount)

end Rank

/-! ### Reading the rank off a sorted list -/

/-- The entries of a sorted list that meet a bound are those below their number. -/
theorem getElem_le_iff {sorted : List α} (hsorted : sorted.Pairwise (· ≤ ·)) {i : ℕ}
    (hi : i < sorted.length) (x : α) : sorted[i] ≤ x ↔ i < sorted.countP (· ≤ x) := by
  induction sorted generalizing i with
  | nil => exact absurd hi (Nat.not_lt_zero i)
  | cons a sorted ih =>
      obtain ⟨hhead, htail⟩ := List.pairwise_cons.mp hsorted
      by_cases hax : a ≤ x
      · rw [List.countP_cons_of_pos (by simpa using hax)]
        cases i with
        | zero => exact iff_of_true hax (Nat.succ_pos _)
        | succ i => exact (ih htail (Nat.lt_of_succ_lt_succ hi)).trans Nat.succ_lt_succ_iff.symm
      · have hnone : (a :: sorted).countP (· ≤ x) = 0 := by
          rw [List.countP_eq_zero]
          intro b hb
          rcases List.mem_cons.mp hb with rfl | hb
          · simpa using hax
          · simpa using (not_le.mp hax).trans_le (hhead b hb)
        rw [hnone]
        refine iff_of_false (fun hle => hax ?_) (Nat.not_lt_zero i)
        cases i with
        | zero => exact hle
        | succ i => exact (hhead _ (List.getElem_mem _)).trans hle

/-- The index of the nearest rank; ranks start at one. -/
def rankIndex (p : ℚ) (n : ℕ) : ℕ := (max 1 ⌈p * n⌉ - 1).toNat

theorem rankIndex_lt {p : ℚ} (hp : p ≤ 1) {n : ℕ} (hn : 0 < n) : rankIndex p n < n := by
  have hle : ⌈p * n⌉ ≤ (n : ℤ) := by
    rw [Int.ceil_le, Int.cast_natCast]
    exact mul_le_of_le_one_left (Nat.cast_nonneg n) hp
  unfold rankIndex
  omega

theorem rankIndex_lt_iff {p : ℚ} (hp : 0 < p) {n : ℕ} (hn : 0 < n) (count : ℕ) :
    rankIndex p n < count ↔ p * n ≤ count := by
  have hpos : 0 < ⌈p * n⌉ := Int.ceil_pos.mpr (mul_pos hp (by exact_mod_cast hn))
  have hceil : ⌈p * n⌉ ≤ (count : ℤ) ↔ p * n ≤ count := by
    rw [Int.ceil_le, Int.cast_natCast]
  rw [← hceil]
  unfold rankIndex
  omega

theorem isNearestRank_of_sorted {p : ℚ} (hp : 0 < p) {values sorted : List α}
    (hperm : sorted.Perm values) (hsorted : sorted.Pairwise (· ≤ ·)) {v : α}
    (hv : sorted[rankIndex p values.length]? = some v) : IsNearestRank p values v := by
  obtain ⟨hi, rfl⟩ := List.getElem?_eq_some_iff.mp hv
  have hpos : 0 < values.length := hperm.length_eq ▸ Nat.zero_lt_of_lt hi
  intro x
  rw [getElem_le_iff hsorted hi, hperm.countP_eq, rankIndex_lt_iff hp hpos]

end NearestRank
