import Mathlib.Data.Rat.Defs
import Mathlib.Tactic

/-!
# Readings

A reading is an exact rational or undefined. Every comparison with an undefined reading is false
and arithmetic with one is undefined, so a comparison that holds is between defined readings, and
the negation of `b < a` says less than `a ≤ b`: `le_iff` names what is missing.
-/

inductive Reading
  | nan
  | real (value : ℚ)
  deriving DecidableEq, Repr

namespace Reading

def lt : Reading → Reading → Prop
  | real a, real b => a < b
  | _, _ => False

def le : Reading → Reading → Prop
  | real a, real b => a ≤ b
  | _, _ => False

def map₂ (f : ℚ → ℚ → ℚ) : Reading → Reading → Reading
  | real a, real b => real (f a b)
  | _, _ => nan

instance : Zero Reading := ⟨real 0⟩
instance : LT Reading := ⟨lt⟩
instance : LE Reading := ⟨le⟩
instance : Sub Reading := ⟨map₂ (· - ·)⟩
instance : Div Reading := ⟨map₂ (· / ·)⟩

instance : DecidableLT Reading
  | real a, real b => inferInstanceAs (Decidable (a < b))
  | nan, nan | nan, real _ | real _, nan => inferInstanceAs (Decidable False)

instance : DecidableLE Reading
  | real a, real b => inferInstanceAs (Decidable (a ≤ b))
  | nan, nan | nan, real _ | real _, nan => inferInstanceAs (Decidable False)

def Defined (x : Reading) : Prop := x ≠ nan

@[simp] theorem defined_real (a : ℚ) : (real a).Defined := fun h => by cases h

@[simp] theorem not_defined_nan : ¬ nan.Defined := fun h => h rfl

@[simp] theorem real_le_real {a b : ℚ} : real a ≤ real b ↔ a ≤ b := Iff.rfl

@[simp] theorem real_lt_real {a b : ℚ} : real a < real b ↔ a < b := Iff.rfl

theorem le_iff {x y : Reading} : x ≤ y ↔ x.Defined ∧ y.Defined ∧ ¬ y < x := by
  cases x with
  | nan => exact iff_of_false (fun h => h) fun h => not_defined_nan h.1
  | real a =>
    cases y with
    | nan => exact iff_of_false (fun h => h) fun h => not_defined_nan h.2.1
    | real b => simp only [real_le_real, real_lt_real, defined_real, true_and, not_lt]

theorem map₂_defined_iff {f : ℚ → ℚ → ℚ} {x y : Reading} :
    (map₂ f x y).Defined ↔ x.Defined ∧ y.Defined := by
  cases x with
  | nan => exact iff_of_false not_defined_nan fun h => not_defined_nan h.1
  | real a =>
    cases y with
    | nan => exact iff_of_false not_defined_nan fun h => not_defined_nan h.2
    | real b => simp only [map₂, defined_real, and_self]

theorem sub_defined_iff {x y : Reading} : (x - y).Defined ↔ x.Defined ∧ y.Defined :=
  map₂_defined_iff

theorem div_defined_iff {x y : Reading} : (x / y).Defined ↔ x.Defined ∧ y.Defined :=
  map₂_defined_iff

end Reading
