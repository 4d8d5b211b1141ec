import Mathlib.Algebra.BigOperators.Group.List.Lemmas
import Mathlib.Algebra.Order.BigOperators.Group.List
import Mathlib.Tactic

/-!
# First-fit reservation

Sized items ask one after another for a place in a budget. An item that fits the rest of the
budget takes its size from it, one that does not takes one of a number of waiting slots, and is
refused when there are none. `firstFit` lists who gets what. Sizes are not negative, so whoever
is passed over does not fit the rest at the end either, and no order of the items can leave more
than one item's size of the budget unused by comparison with another.
-/

namespace Reservation

structure Outcome (α : Type*) where
  taken : List α
  waiting : List α
  refused : List α

variable {α : Type*} (size : α → ℤ)

def firstFit : ℤ → ℤ → List α → Outcome α
  | _, _, [] => ⟨[], [], []⟩
  | free, slots, a :: as =>
    if size a ≤ free then
      let rest := firstFit (free - size a) slots as
      { rest with taken := a :: rest.taken }
    else if 0 < slots then
      let rest := firstFit free (slots - 1) as
      { rest with waiting := a :: rest.waiting }
    else
      let rest := firstFit free slots as
      { rest with refused := a :: rest.refused }

variable {size} {free slots : ℤ} {a : α} {as : List α}

theorem firstFit_cons_of_le (h : size a ≤ free) :
    firstFit size free slots (a :: as) =
      { firstFit size (free - size a) slots as with
        taken := a :: (firstFit size (free - size a) slots as).taken } := if_pos h

theorem firstFit_cons_of_slot (h : ¬ size a ≤ free) (hslot : 0 < slots) :
    firstFit size free slots (a :: as) =
      { firstFit size free (slots - 1) as with
        waiting := a :: (firstFit size free (slots - 1) as).waiting } :=
  (if_neg h).trans (if_pos hslot)

theorem firstFit_cons_of_full (h : ¬ size a ≤ free) (hslot : ¬ 0 < slots) :
    firstFit size free slots (a :: as) =
      { firstFit size free slots as with
        refused := a :: (firstFit size free slots as).refused } :=
  (if_neg h).trans (if_neg hslot)

theorem firstFit_perm (size : α → ℤ) (free slots : ℤ) (as : List α) :
    ((firstFit size free slots as).taken ++ ((firstFit size free slots as).waiting ++
      (firstFit size free slots as).refused)).Perm as := by
  induction as generalizing free slots with
  | nil => exact List.Perm.nil
  | cons a as ih =>
      by_cases hfit : size a ≤ free
      · rw [firstFit_cons_of_le hfit]
        exact (ih _ _).cons a
      by_cases hslot : 0 < slots
      · rw [firstFit_cons_of_slot hfit hslot]
        exact List.perm_middle.trans ((ih _ _).cons a)
      · rw [firstFit_cons_of_full hfit hslot]
        rw [← List.append_assoc]
        refine List.perm_middle.trans (List.Perm.cons a ?_)
        rw [List.append_assoc]
        exact ih _ _

theorem sum_taken_le (size : α → ℤ) (slots : ℤ) (as : List α) (hfree : 0 ≤ free) :
    ((firstFit size free slots as).taken.map size).sum ≤ free := by
  induction as generalizing free slots with
  | nil => simpa [firstFit] using hfree
  | cons a as ih =>
      by_cases hfit : size a ≤ free
      · rw [firstFit_cons_of_le hfit, List.map_cons, List.sum_cons]
        have hrest := ih slots (show 0 ≤ free - size a by omega)
        omega
      by_cases hslot : 0 < slots
      · rw [firstFit_cons_of_slot hfit hslot]
        exact ih _ hfree
      · rw [firstFit_cons_of_full hfit hslot]
        exact ih _ hfree

theorem sum_taken_nonneg (free slots : ℤ) (hsize : ∀ a ∈ as, 0 ≤ size a) :
    0 ≤ ((firstFit size free slots as).taken.map size).sum := by
  apply List.sum_nonneg
  intro n hn
  obtain ⟨a, ha, rfl⟩ := List.mem_map.mp hn
  exact hsize a ((firstFit_perm size free slots as).subset (List.mem_append_left _ ha))

/-- Whoever is passed over does not fit what is left at the end. -/
theorem free_lt_of_passed (hsize : ∀ a ∈ as, 0 ≤ size a) {b : α}
    (hb : b ∈ (firstFit size free slots as).waiting ∨
      b ∈ (firstFit size free slots as).refused) :
    free < ((firstFit size free slots as).taken.map size).sum + size b := by
  induction as generalizing free slots with
  | nil => simp [firstFit] at hb
  | cons a as ih =>
      have hrest : ∀ a ∈ as, 0 ≤ size a := fun c hc => hsize c (List.mem_cons_of_mem a hc)
      by_cases hfit : size a ≤ free
      · rw [firstFit_cons_of_le hfit] at hb ⊢
        have := ih hrest hb
        rw [List.map_cons, List.sum_cons]
        omega
      by_cases hslot : 0 < slots
      · rw [firstFit_cons_of_slot hfit hslot] at hb ⊢
        have hsum := sum_taken_nonneg free (slots - 1) hrest
        rcases hb with hb | hb
        · rcases List.mem_cons.mp hb with rfl | hb
          · dsimp only
            omega
          · exact ih hrest (.inl hb)
        · exact ih hrest (.inr hb)
      · rw [firstFit_cons_of_full hfit hslot] at hb ⊢
        have hsum := sum_taken_nonneg free slots hrest
        rcases hb with hb | hb
        · exact ih hrest (.inl hb)
        · rcases List.mem_cons.mp hb with rfl | hb
          · dsimp only
            omega
          · exact ih hrest (.inr hb)

theorem length_waiting (hslots : 0 ≤ slots) :
    ((firstFit size free slots as).waiting.length : ℤ) =
      min slots (as.length - (firstFit size free slots as).taken.length) := by
  induction as generalizing free slots with
  | nil => simp [firstFit, hslots]
  | cons a as ih =>
      by_cases hfit : size a ≤ free
      · rw [firstFit_cons_of_le hfit]
        have hrest := @ih (free - size a) slots hslots
        simp only [List.length_cons]
        omega
      have htaken (slots : ℤ) : (firstFit size free slots as).taken.length ≤ as.length := by
        have hlength := (firstFit_perm size free slots as).length_eq
        rw [List.length_append] at hlength
        omega
      by_cases hslot : 0 < slots
      · rw [firstFit_cons_of_slot hfit hslot]
        have hrest := @ih free (slots - 1) (by omega)
        simp only [List.length_cons]
        omega
      · rw [firstFit_cons_of_full hfit hslot]
        have hrest := @ih free slots hslots
        have hle := htaken slots
        simp only [List.length_cons]
        omega

/-- Everyone gets a place exactly when all of them together fit. -/
theorem taken_eq_iff (hfree : 0 ≤ free) (hsize : ∀ a ∈ as, 0 ≤ size a) :
    (firstFit size free slots as).taken = as ↔ (as.map size).sum ≤ free := by
  constructor
  · intro h
    have hle := sum_taken_le size slots as hfree
    rwa [h] at hle
  · intro h
    induction as generalizing free with
    | nil => rfl
    | cons a as ih =>
        have hrest : ∀ a ∈ as, 0 ≤ size a := fun c hc => hsize c (List.mem_cons_of_mem a hc)
        have hsum : 0 ≤ (as.map size).sum := List.sum_nonneg (List.forall_mem_map.mpr hrest)
        rw [List.map_cons, List.sum_cons] at h
        rw [firstFit_cons_of_le (by omega), ih (by omega) hrest (by omega)]

/-- No selection that fits the budget beats first fit by the largest size or more. -/
theorem sum_lt_of_fits {bound : ℤ} (slots : ℤ) (hsize : ∀ a ∈ as, 0 ≤ size a)
    (hbound : ∀ a ∈ as, size a ≤ bound) (hpos : 0 < bound) {bs : List α} (hbs : bs.Subperm as)
    (hfits : (bs.map size).sum ≤ free) :
    (bs.map size).sum < ((firstFit size free slots as).taken.map size).sum + bound := by
  have hperm := firstFit_perm size free slots as
  cases hpassed : (firstFit size free slots as).waiting ++
      (firstFit size free slots as).refused with
  | nil =>
      rw [hpassed, List.append_nil] at hperm
      obtain ⟨cs, hcs, hsub⟩ := hbs.trans hperm.symm.subperm
      have hle : (cs.map size).sum ≤ ((firstFit size free slots as).taken.map size).sum := by
        apply List.Sublist.sum_le_sum (hsub.map size)
        intro n hn
        obtain ⟨a, ha, rfl⟩ := List.mem_map.mp hn
        exact hsize a (hperm.subset ha)
      rw [(hcs.map size).sum_eq] at hle
      omega
  | cons b rest =>
      have hb : b ∈ (firstFit size free slots as).waiting ++
          (firstFit size free slots as).refused := hpassed ▸ List.mem_cons_self
      have hlt := free_lt_of_passed hsize (List.mem_append.mp hb)
      have hle := hbound b (hperm.subset (List.mem_append_right _ hb))
      omega

end Reservation
