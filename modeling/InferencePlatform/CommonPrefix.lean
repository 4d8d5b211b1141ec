import Mathlib.Data.List.Basic
import Mathlib.Order.Bounds.Basic
import Mathlib.Order.MinMax

/-!
# The longest common prefix of two lists

`commonLength xs ys` is the length of the longest common prefix. `le_commonLength_iff` says which
lengths are at most it, and the remaining facts are read off from that one: what is agreed on, how
a cut of the first list moves the length, and that nothing behind the first disagreement matters.
-/

namespace CommonPrefix

variable {α : Type*} [DecidableEq α]

def commonLength : List α → List α → ℕ
  | x :: xs, y :: ys => if x = y then commonLength xs ys + 1 else 0
  | [], _ => 0
  | _ :: _, [] => 0

theorem le_commonLength_iff {n : ℕ} {xs ys : List α} :
    n ≤ commonLength xs ys ↔ n ≤ xs.length ∧ n ≤ ys.length ∧ xs.take n = ys.take n := by
  induction xs generalizing n ys with
  | nil =>
      simp only [commonLength, List.length_nil, Nat.le_zero]
      refine ⟨?_, And.left⟩
      rintro rfl
      exact ⟨rfl, Nat.zero_le _, rfl⟩
  | cons x xs ih =>
      cases n with
      | zero => simp
      | succ n =>
          cases ys with
          | nil => simp [commonLength]
          | cons y ys =>
              simp only [commonLength, List.length_cons, Nat.succ_le_succ_iff,
                List.take_succ_cons, List.cons.injEq]
              by_cases hxy : x = y
              · rw [if_pos hxy, Nat.succ_le_succ_iff, ih]
                exact ⟨fun h => ⟨h.1, h.2.1, hxy, h.2.2⟩, fun h => ⟨h.1, h.2.1, h.2.2.2⟩⟩
              · rw [if_neg hxy]
                exact ⟨fun h => absurd h (Nat.not_succ_le_zero n), fun h => absurd h.2.2.1 hxy⟩

theorem commonLength_le_left (xs ys : List α) : commonLength xs ys ≤ xs.length :=
  (le_commonLength_iff.mp le_rfl).1

theorem take_commonLength (xs ys : List α) :
    xs.take (commonLength xs ys) = ys.take (commonLength xs ys) :=
  (le_commonLength_iff.mp le_rfl).2.2

theorem isGreatest_commonLength (xs ys : List α) :
    IsGreatest {n | n ≤ xs.length ∧ n ≤ ys.length ∧ xs.take n = ys.take n}
      (commonLength xs ys) :=
  ⟨le_commonLength_iff.mp le_rfl, fun _ h => le_commonLength_iff.mpr h⟩

theorem commonLength_take (j : ℕ) (xs ys : List α) :
    commonLength (xs.take j) ys = min j (commonLength xs ys) := by
  refine eq_of_forall_le_iff fun n => ?_
  rw [le_min_iff, le_commonLength_iff, le_commonLength_iff, List.length_take, le_min_iff,
    List.take_take]
  constructor
  · rintro ⟨⟨hj, hxs⟩, hys, htake⟩
    exact ⟨hj, hxs, hys, by rwa [min_eq_left hj] at htake⟩
  · rintro ⟨hj, hxs, hys, htake⟩
    exact ⟨⟨hj, hxs⟩, hys, by rwa [min_eq_left hj]⟩

/-- The first list matters up to the first disagreement only. -/
theorem commonLength_congr {xs xs' ys : List α} (hlen : xs'.length = xs.length)
    (htake : xs'.take (commonLength xs ys + 1) = xs.take (commonLength xs ys + 1)) :
    commonLength xs' ys = commonLength xs ys := by
  obtain ⟨hxs, hys, hsame⟩ := le_commonLength_iff.mp (le_refl (commonLength xs ys))
  apply le_antisymm
  · by_contra! hmore
    obtain ⟨hxs', hys', hsame'⟩ := le_commonLength_iff.mp (Nat.succ_le_of_lt hmore)
    have hnot : ¬ commonLength xs ys + 1 ≤ commonLength xs ys := Nat.not_succ_le_self _
    exact hnot (le_commonLength_iff.mpr ⟨hlen ▸ hxs', hys', htake.symm.trans hsame'⟩)
  · refine le_commonLength_iff.mpr ⟨hlen.symm ▸ hxs, hys, ?_⟩
    have hshort := congrArg (List.take (commonLength xs ys)) htake
    rw [List.take_take, List.take_take, min_eq_left (Nat.le_succ _)] at hshort
    exact hshort.trans hsame

end CommonPrefix
