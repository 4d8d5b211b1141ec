import Mathlib.Tactic

/-!
# While loops that may raise

`whileLoop cond body fuel` makes at most `fuel` tests of the condition; it yields `none` when
they do not suffice, and otherwise the state at exit or the exception of a pass. The rule for
total correctness asks for an invariant under which no pass raises and a measure that every
pass decreases. It yields one final state that every sufficient fuel reaches.
-/

namespace WhileLoop

variable {σ ε : Type*} (cond : σ → Bool) (body : σ → Except ε σ)

def whileLoop : ℕ → σ → Option (Except ε σ)
  | 0, _ => none
  | fuel + 1, s =>
    if cond s then
      match body s with
      | .ok s' => whileLoop fuel s'
      | .error e => some (.error e)
    else some (.ok s)

theorem whileLoop_of_exit {s : σ} (h : cond s = false) (fuel : ℕ) :
    whileLoop cond body (fuel + 1) s = some (.ok s) := by
  simp only [whileLoop, h, Bool.false_eq_true, if_false]

theorem whileLoop_of_pass {s s' : σ} (h : cond s = true) (hbody : body s = .ok s') (fuel : ℕ) :
    whileLoop cond body (fuel + 1) s = whileLoop cond body fuel s' := by
  simp only [whileLoop, h, if_true, hbody]

/-- More fuel changes nothing once the loop has come to an end. -/
theorem whileLoop_mono {s : σ} {out : Except ε σ} {fuel fuel' : ℕ} (hle : fuel ≤ fuel')
    (h : whileLoop cond body fuel s = some out) : whileLoop cond body fuel' s = some out := by
  induction fuel generalizing s fuel' with
  | zero => cases h
  | succ fuel ih =>
      obtain ⟨more, rfl⟩ : ∃ more, fuel' = more + 1 := ⟨fuel' - 1, by omega⟩
      cases hc : cond s with
      | false =>
          rw [whileLoop_of_exit cond body hc] at h ⊢
          exact h
      | true =>
          cases hbody : body s with
          | ok s' =>
              rw [whileLoop_of_pass cond body hc hbody] at h ⊢
              exact ih (by omega) h
          | error e =>
              simp only [whileLoop, hc, if_true, hbody] at h ⊢
              exact h

/-- Total correctness: an invariant that excludes exceptions and a decreasing measure. -/
theorem whileLoop_total {I : σ → Prop} (μ : σ → ℕ)
    (hpass : ∀ s, I s → cond s = true → ∃ s', body s = .ok s' ∧ I s' ∧ μ s' < μ s)
    (s : σ) (hs : I s) :
    ∃ t, I t ∧ cond t = false ∧ ∀ fuel, μ s < fuel → whileLoop cond body fuel s = some (.ok t) := by
  generalize hn : μ s = n
  induction n using Nat.strongRecOn generalizing s with
  | ind n ih =>
      cases hc : cond s with
      | false =>
          refine ⟨s, hs, hc, ?_⟩
          intro fuel hfuel
          obtain ⟨m, rfl⟩ : ∃ m, fuel = m + 1 := ⟨fuel - 1, by omega⟩
          exact whileLoop_of_exit cond body hc m
      | true =>
          obtain ⟨s', hbody, hs', hμ⟩ := hpass s hs hc
          obtain ⟨t, ht, hexit, hrun⟩ := ih (μ s') (by omega) s' hs' rfl
          refine ⟨t, ht, hexit, ?_⟩
          intro fuel hfuel
          obtain ⟨m, rfl⟩ : ∃ m, fuel = m + 1 := ⟨fuel - 1, by omega⟩
          rw [whileLoop_of_pass cond body hc hbody m]
          exact hrun m (by omega)

end WhileLoop
