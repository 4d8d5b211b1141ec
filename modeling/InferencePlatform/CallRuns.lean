import Mathlib.Data.List.Basic
import Mathlib.Tactic

/-!
# Runs of a component that answers calls

A component is a function `step` from a state and a call to an answer and a next state. A run
feeds it a list of calls: `finalState` is the state reached and `trace` lists every call with
its answer and the state right after it. `finalState_induction` turns one preserved step into
an invariant of every run.

The last two sections concern runs shared by several callers. When a hidden call leaves a
`view` of the state alone and every other call acts on the state only through that view, the
hidden calls may be deleted from a run without anyone else noticing. And when one caller's calls
act on a view that nobody else touches, the run looks to that caller like one of a component of
their own.
-/

namespace CallRuns

structure Entry (σ ι ρ : Type*) where
  call : ι
  answer : ρ
  state : σ

section Runs

variable {σ ι ρ : Type*} (step : σ → ι → ρ × σ)

def finalState : σ → List ι → σ
  | s, [] => s
  | s, i :: is => finalState (step s i).2 is

def trace : σ → List ι → List (Entry σ ι ρ)
  | _, [] => []
  | s, i :: is => ⟨i, (step s i).1, (step s i).2⟩ :: trace (step s i).2 is

@[simp] theorem finalState_nil (s : σ) : finalState step s [] = s := rfl

@[simp] theorem finalState_cons (s : σ) (i : ι) (is : List ι) :
    finalState step s (i :: is) = finalState step (step s i).2 is := rfl

theorem finalState_append (s : σ) (is js : List ι) :
    finalState step s (is ++ js) = finalState step (finalState step s is) js := by
  induction is generalizing s with
  | nil => rfl
  | cons i is ih => exact ih (step s i).2

theorem finalState_concat (s : σ) (is : List ι) (i : ι) :
    finalState step s (is ++ [i]) = (step (finalState step s is) i).2 := by
  rw [finalState_append]
  rfl

theorem trace_append (s : σ) (is js : List ι) :
    trace step s (is ++ js) = trace step s is ++ trace step (finalState step s is) js := by
  induction is generalizing s with
  | nil => rfl
  | cons i is ih => simp only [List.cons_append, trace, finalState_cons, ih]

/-- A property that every step preserves holds at the end of every run. -/
theorem finalState_induction {I : σ → Prop} (hstep : ∀ s i, I s → I (step s i).2)
    (s : σ) (hs : I s) (is : List ι) : I (finalState step s is) := by
  induction is generalizing s with
  | nil => exact hs
  | cons i is ih => exact ih (step s i).2 (hstep s i hs)

/-- What one step does to a good state under a condition on the call holds of every entry of a run
that meets the condition all along. -/
theorem forall_mem_trace {I : σ → Prop} {Q : σ → ι → Prop} {P : Entry σ ι ρ → Prop}
    (hstep : ∀ s i, I s → Q s i → I (step s i).2 ∧ P ⟨i, (step s i).1, (step s i).2⟩)
    (s : σ) (hs : I s) (is : List ι)
    (hQ : ∀ before i after, is = before ++ i :: after → Q (finalState step s before) i) :
    ∀ e ∈ trace step s is, P e := by
  induction is generalizing s with
  | nil => exact fun e he => absurd he List.not_mem_nil
  | cons i is ih =>
      obtain ⟨hI, hP⟩ := hstep s i hs (hQ [] i is rfl)
      intro e he
      rcases List.mem_cons.mp he with rfl | he
      · exact hP
      · refine ih (step s i).2 hI (fun before j after heq => ?_) e he
        exact hQ (i :: before) j after (by rw [heq, List.cons_append])

end Runs

section Hidden

variable {σ ι ρ ω : Type*} (step : σ → ι → ρ × σ) (view : σ → ω) (hidden : ι → Prop)
variable [DecidablePred hidden]

/-- Two states with one view answer the same visible calls alike, whatever hidden calls one
of the two runs contains besides, as long as those answers are `harmless`. -/
theorem trace_filter_hidden (harmless : ρ → Prop)
    (hskip : ∀ s i, hidden i → harmless (step s i).1 → view (step s i).2 = view s)
    (hsync : ∀ s t i, ¬ hidden i → view s = view t →
      (step s i).1 = (step t i).1 ∧ view (step s i).2 = view (step t i).2)
    (is : List ι) (s t : σ) (hview : view s = view t)
    (hrun : ∀ e ∈ trace step s is, hidden e.call → harmless e.answer) :
    ((trace step s is).filter (fun e => ¬ hidden e.call)).map
        (fun e => (e.call, e.answer, view e.state)) =
      (trace step t (is.filter (fun i => ¬ hidden i))).map
        (fun e => (e.call, e.answer, view e.state)) ∧
    view (finalState step s is) =
      view (finalState step t (is.filter (fun i => ¬ hidden i))) := by
  induction is generalizing s t with
  | nil => exact ⟨rfl, hview⟩
  | cons i is ih =>
      have hrest : ∀ e ∈ trace step (step s i).2 is, hidden e.call → harmless e.answer :=
        fun e he => hrun e (List.mem_cons_of_mem _ he)
      by_cases hi : hidden i
      · have hv := hskip s i hi (hrun _ List.mem_cons_self hi)
        simpa only [trace, finalState_cons, List.filter_cons, hi, not_true_eq_false,
          decide_false, Bool.false_eq_true, if_false] using ih _ t (hv.trans hview) hrest
      · obtain ⟨hanswer, hv⟩ := hsync s t i hi hview
        obtain ⟨htrace, hfinal⟩ := ih _ _ hv hrest
        simp only [trace, finalState_cons, List.filter_cons, hi, not_false_eq_true, decide_true,
          if_true, List.map_cons, hanswer, hv, htrace, hfinal, and_self]

/-- Histories that differ only in hidden calls leave the same view. -/
theorem view_finalState_eq_of_filter_eq
    (hskip : ∀ s i, hidden i → view (step s i).2 = view s)
    (hsync : ∀ s t i, ¬ hidden i → view s = view t →
      (step s i).1 = (step t i).1 ∧ view (step s i).2 = view (step t i).2)
    (s : σ) (is js : List ι)
    (hsame : is.filter (fun i => ¬ hidden i) = js.filter (fun i => ¬ hidden i)) :
    view (finalState step s is) = view (finalState step s js) := by
  have h (ks : List ι) := (trace_filter_hidden step view hidden (fun _ => True)
    (fun s i hi _ => hskip s i hi) hsync ks s s rfl (fun _ _ _ => trivial)).2
  rw [h is, h js, hsame]

end Hidden

section Own

variable {σ ι ρ ω : Type*} (step : σ → ι → ρ × σ) (view : σ → ω) (own : ι → Prop)
variable [DecidablePred own] (ownStep : ω → ι → ρ × ω) {I : σ → Prop} {Q : ι → Prop}

/-- When, in good states, one caller's calls act on the view as a component of their own and
everyone else's leave it alone, a shared run shows the caller the run of that component. -/
theorem trace_filter_own (hkeep : ∀ s i, I s → Q i → I (step s i).2)
    (hothers : ∀ s i, ¬ own i → view (step s i).2 = view s)
    (hown : ∀ s i, own i → I s → Q i →
      ((step s i).1, view (step s i).2) = ownStep (view s) i)
    (is : List ι) (hQ : ∀ i ∈ is, Q i) (s : σ) (hs : I s) :
    ((trace step s is).filter (fun e => own e.call)).map
        (fun e => (e.call, e.answer, view e.state)) =
      (trace ownStep (view s) (is.filter (fun i => own i))).map
        (fun e => (e.call, e.answer, e.state)) ∧
    view (finalState step s is) =
      finalState ownStep (view s) (is.filter (fun i => own i)) := by
  induction is generalizing s with
  | nil => exact ⟨rfl, rfl⟩
  | cons i is ih =>
      obtain ⟨hi, hrest⟩ := List.forall_mem_cons.mp hQ
      obtain ⟨htrace, hfinal⟩ := ih hrest (step s i).2 (hkeep s i hs hi)
      by_cases ho : own i
      · obtain ⟨hanswer, hview⟩ := Prod.mk.inj (hown s i ho hs hi)
        simp only [trace, finalState_cons, List.filter_cons, ho, decide_true, if_true,
          List.map_cons, htrace, hfinal, hanswer, hview, and_self]
      · rw [hothers s i ho] at htrace hfinal
        simpa only [trace, finalState_cons, List.filter_cons, ho, decide_false,
          Bool.false_eq_true, if_false] using And.intro htrace hfinal

end Own

end CallRuns
