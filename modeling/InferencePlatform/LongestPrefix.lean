import Mathlib.Data.List.Basic
import Mathlib.Data.Set.Basic
import Mathlib.Tactic

/-!
# The longest stored prefix

`IsLongest S xs n` says that `n` is the length of the longest member of `S` that `xs` begins with,
or zero when there is none. Joining two sets takes the larger of the two lengths, and a cut of
`xs` keeps the length as long as it keeps that many elements. `sum_rest_le` bounds what is left to
do over a growing sequence of lists when each of them is stored up to a partial block.
-/

namespace LongestPrefix

variable {α : Type*}

structure IsLongest (S : Set (List α)) (xs : List α) (n : ℕ) : Prop where
  le_length : n ≤ xs.length
  mem : 0 < n → xs.take n ∈ S
  upper : ∀ p ∈ S, p <+: xs → p.length ≤ n

section Laws

variable {S S' : Set (List α)} {xs ys : List α} {m n n' : ℕ}

/-- More members and more to match can only lengthen it. -/
theorem IsLongest.mono (h : IsLongest S xs n) (h' : IsLongest S' ys n') (hS : S ⊆ S')
    (hxs : xs <+: ys) : n ≤ n' := by
  by_cases hn : n = 0
  · omega
  · have hmem := hS (h.mem (by omega))
    have hle := h'.upper _ hmem ((List.take_prefix n xs).trans hxs)
    rwa [List.length_take, min_eq_left h.le_length] at hle

theorem IsLongest.unique (h : IsLongest S xs n) (h' : IsLongest S xs n') : n = n' :=
  le_antisymm (h.mono h' subset_rfl List.prefix_rfl) (h'.mono h subset_rfl List.prefix_rfl)

/-- The length tells the members: they are the lists that reuse all of themselves. -/
theorem IsLongest.eq_length_iff (h : IsLongest S xs n) (hxs : xs ≠ []) :
    n = xs.length ↔ xs ∈ S := by
  constructor
  · rintro rfl
    have hmem := h.mem (List.length_pos_of_ne_nil hxs)
    rwa [List.take_length] at hmem
  · exact fun hmem => le_antisymm h.le_length (h.upper xs hmem List.prefix_rfl)

theorem IsLongest.union (h : IsLongest S xs n) (h' : IsLongest S' xs n') :
    IsLongest (S ∪ S') xs (max n n') where
  le_length := max_le h.le_length h'.le_length
  mem := by
    intro hpos
    rcases max_choice n n' with hmax | hmax
    · rw [hmax] at hpos ⊢
      exact Or.inl (h.mem hpos)
    · rw [hmax] at hpos ⊢
      exact Or.inr (h'.mem hpos)
  upper := by
    intro p hp hpre
    rcases hp with hp | hp
    · exact (h.upper p hp hpre).trans (le_max_left n n')
    · exact (h'.upper p hp hpre).trans (le_max_right n n')

/-- A cut that keeps the longest prefix keeps its length. -/
theorem IsLongest.take (h : IsLongest S xs n) (hn : n ≤ m) : IsLongest S (xs.take m) n where
  le_length := by
    rw [List.length_take]
    exact le_min hn h.le_length
  mem := by
    rw [List.take_take, min_eq_left hn]
    exact h.mem
  upper := fun p hp hpre => h.upper p hp (hpre.trans (List.take_prefix m xs))

/-- The lengths at two cuts of one list, one inside the other. -/
theorem IsLongest.take_iff (h : IsLongest S xs n) (h' : IsLongest S (xs.take m) n') :
    n' ≤ n ∧ (n ≤ m ↔ n' = n) := by
  refine ⟨h'.mono h subset_rfl (List.take_prefix m xs), fun hn => h'.unique (h.take hn), ?_⟩
  rintro rfl
  exact h'.le_length.trans ((List.length_take_le m xs))

end Laws

/-! ### Growing lists -/

/-- Lists that grow, and for each how much of it is reused. From the second one on, all of the
list before is reused but for at most `gap` elements. -/
inductive Reuses (gap : ℕ) : ℕ → List (List α × ℕ) → Prop
  | nil (done : ℕ) : Reuses gap done []
  | cons {done n : ℕ} {xs : List α} {rest : List (List α × ℕ)} (hdone : done ≤ n + gap)
      (hgrows : done ≤ xs.length) (hn : n ≤ xs.length) (hrest : Reuses gap xs.length rest) :
      Reuses gap done ((xs, n) :: rest)

theorem Reuses.sum_le {gap done : ℕ} {steps : List (List α × ℕ)} (h : Reuses gap done steps) :
    done + (steps.map fun s => s.1.length - s.2).sum ≤
      (steps.map fun s => s.1.length).getLast?.getD done + steps.length * gap := by
  induction h with
  | nil => simp
  | cons hdone hgrows hn hrest ih =>
      rw [List.map_cons, List.map_cons, List.getLast?_cons, Option.getD_some, List.sum_cons,
        List.length_cons, Nat.succ_mul]
      dsimp only
      omega

end LongestPrefix
