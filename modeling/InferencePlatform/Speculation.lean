import InferencePlatform.CommonPrefix
import InferencePlatform.PythonBuiltins

/-!
# One round of speculative decoding

`evaluateSpeculation` counts the draft tokens that agree with the target, adds the token of the
next verified position, and compares the cost of the round with decoding the same tokens one by
one. Costs are exact rationals.
-/

namespace Speculation

open PythonBuiltins CommonPrefix

structure SpeculationCosts where
  baselineSecondsPerToken : ℚ
  draftSecondsPerToken : ℚ
  verificationSecondsPerRound : ℚ
  deriving DecidableEq, Repr

structure SpeculationDecision where
  enable : Bool
  acceptedTokens : ℕ
  draftedTokens : ℕ
  emittedTokens : ℕ
  acceptanceRate : ℚ
  estimatedSpeedup : ℚ
  reason : String
  deriving DecidableEq, Repr

/-- The loop over `zip(draft_tokens, target_tokens)` with the counter it has reached. -/
def countAccepted (accepted : ℕ) : List (ℤ × ℤ) → ℕ
  | [] => accepted
  | (draft, target) :: pairs =>
      if draft ≠ target then accepted else countAccepted (accepted + 1) pairs

section Round

variable (draftTokens targetTokens : List ℤ) (costs : SpeculationCosts) (minimumSpeedup : ℚ)

def validate : Except PyError Unit :=
  if draftTokens = [] ∨ targetTokens = [] then
    throw (.valueError "draft and target token sequences are required")
  else if targetTokens.length ≤ draftTokens.length then
    throw (.valueError "target sequence must cover every draft position plus the one after it")
  else if pyMin costs.baselineSecondsPerToken
      [costs.draftSecondsPerToken, costs.verificationSecondsPerRound, minimumSpeedup] ≤ 0 then
    throw (.valueError "costs and minimum_speedup must be positive")
  else pure ()

def evaluateSpeculation (minimumSpeedup : ℚ := 1) : Except PyError SpeculationDecision := do
  validate draftTokens targetTokens costs minimumSpeedup
  let accepted := countAccepted 0 (draftTokens.zip targetTokens)
  let emitted := accepted + 1
  let baselineCost := emitted * costs.baselineSecondsPerToken
  let speculativeCost :=
    draftTokens.length * costs.draftSecondsPerToken + costs.verificationSecondsPerRound
  let speedup := baselineCost / speculativeCost
  let enable := minimumSpeedup ≤ speedup
  let reason :=
    if enable then "measured round clears " ++ fixed2 minimumSpeedup ++ "x speedup gate"
    else "measured round misses " ++ fixed2 minimumSpeedup ++ "x speedup gate"
  pure ⟨enable, accepted, draftTokens.length, emitted, accepted / draftTokens.length, speedup,
    reason⟩

/-- What the validator accepts. -/
structure Accepted : Prop where
  draft_nonempty : draftTokens ≠ []
  covers : draftTokens.length < targetTokens.length
  baseline_pos : 0 < costs.baselineSecondsPerToken
  draft_pos : 0 < costs.draftSecondsPerToken
  verification_pos : 0 < costs.verificationSecondsPerRound
  minimum_pos : 0 < minimumSpeedup

variable {draftTokens targetTokens costs minimumSpeedup}

theorem validate_eq_ok_iff : validate draftTokens targetTokens costs minimumSpeedup = .ok () ↔
    Accepted draftTokens targetTokens costs minimumSpeedup := by
  unfold validate
  simp only [Except.ite_throw_eq_ok_iff, pyMin_le_iff, List.mem_cons, List.not_mem_nil, or_false,
    exists_eq_or_imp, exists_eq_left, not_or, not_le]
  constructor
  · rintro ⟨⟨hdraft, -⟩, hcovers, ⟨hbaseline, hcost, hverify, hminimum⟩, -⟩
    exact ⟨hdraft, hcovers, hbaseline, hcost, hverify, hminimum⟩
  · intro h
    have htarget : targetTokens ≠ [] := List.ne_nil_of_length_pos (Nat.zero_lt_of_lt h.covers)
    exact ⟨⟨h.draft_nonempty, htarget⟩, h.covers,
      ⟨h.baseline_pos, h.draft_pos, h.verification_pos, h.minimum_pos⟩, rfl⟩

/-! ### The accepted prefix -/

theorem countAccepted_zip (accepted : ℕ) (draft target : List ℤ) :
    countAccepted accepted (draft.zip target) = accepted + commonLength draft target := by
  induction draft generalizing accepted target with
  | nil => rfl
  | cons d draft ih =>
      cases target with
      | nil => rfl
      | cons t target =>
          rw [List.zip_cons_cons, countAccepted, commonLength]
          by_cases hdt : d = t
          · rw [if_neg (not_not_intro hdt), if_pos hdt, ih, Nat.add_right_comm, Nat.add_assoc]
          · rw [if_pos hdt, if_neg hdt, Nat.add_zero]

/-- The speedup of a round that drafts `drafted` tokens and accepts `accepted` of them. -/
def roundSpeedup (costs : SpeculationCosts) (accepted drafted : ℕ) : ℚ :=
  ((accepted + 1 : ℕ) : ℚ) * costs.baselineSecondsPerToken /
    (drafted * costs.draftSecondsPerToken + costs.verificationSecondsPerRound)

/-- Everything a decision says is determined by the common prefix and the length of the draft. -/
theorem evaluateSpeculation_spec {decision : SpeculationDecision}
    (h : evaluateSpeculation draftTokens targetTokens costs minimumSpeedup = .ok decision) :
    Accepted draftTokens targetTokens costs minimumSpeedup ∧
      decision.acceptedTokens = commonLength draftTokens targetTokens ∧
      decision.emittedTokens = decision.acceptedTokens + 1 ∧
      decision.draftedTokens = draftTokens.length ∧
      decision.estimatedSpeedup =
        roundSpeedup costs (commonLength draftTokens targetTokens) draftTokens.length ∧
      (decision.enable = true ↔ minimumSpeedup ≤ decision.estimatedSpeedup) := by
  obtain ⟨_, hvalid, h⟩ := Except.bind_eq_ok_iff.mp h
  obtain rfl := Except.ok.inj h
  have hcount : countAccepted 0 (draftTokens.zip targetTokens) =
      commonLength draftTokens targetTokens := by
    rw [countAccepted_zip, Nat.zero_add]
  refine ⟨validate_eq_ok_iff.mp hvalid, hcount, rfl, rfl, ?_, decide_eq_true_iff⟩
  dsimp only
  rw [hcount, roundSpeedup]

theorem exists_evaluateSpeculation (h : Accepted draftTokens targetTokens costs minimumSpeedup) :
    ∃ decision,
      evaluateSpeculation draftTokens targetTokens costs minimumSpeedup = .ok decision := by
  unfold evaluateSpeculation
  rw [validate_eq_ok_iff.mpr h]
  exact ⟨_, rfl⟩

/-- Two drafts of one length with the same accepted prefix get the same decision. -/
theorem evaluateSpeculation_congr {draft' : List ℤ} (hlen : draft'.length = draftTokens.length)
    (hcommon : commonLength draft' targetTokens = commonLength draftTokens targetTokens) :
    evaluateSpeculation draft' targetTokens costs minimumSpeedup =
      evaluateSpeculation draftTokens targetTokens costs minimumSpeedup := by
  have hnil : draft' = [] ↔ draftTokens = [] := by
    rw [← List.length_eq_zero_iff, hlen, List.length_eq_zero_iff]
  have hvalid : validate draft' targetTokens costs minimumSpeedup =
      validate draftTokens targetTokens costs minimumSpeedup := by
    simp only [validate, hnil, hlen]
  have hcount : countAccepted 0 (draft'.zip targetTokens) =
      countAccepted 0 (draftTokens.zip targetTokens) := by
    rw [countAccepted_zip, countAccepted_zip, hcommon]
  simp only [evaluateSpeculation, hvalid, hcount, hlen]

/-- The accepted prefix followed by the token of the next verified position. -/
theorem exists_emitted_token (hcovers : draftTokens.length < targetTokens.length) :
    ∃ token, targetTokens[commonLength draftTokens targetTokens]? = some token ∧
      draftTokens.take (commonLength draftTokens targetTokens) ++ [token] =
        targetTokens.take (commonLength draftTokens targetTokens + 1) := by
  have hlt := (commonLength_le_left draftTokens targetTokens).trans_lt hcovers
  refine ⟨targetTokens[commonLength draftTokens targetTokens], List.getElem?_eq_getElem hlt, ?_⟩
  rw [take_commonLength, List.take_append_getElem hlt]

theorem roundSpeedup_lt_of_shorter (h : Accepted draftTokens targetTokens costs minimumSpeedup)
    (accepted : ℕ) {j k : ℕ} (hjk : j < k) :
    roundSpeedup costs accepted k < roundSpeedup costs accepted j := by
  have hemitted : (0 : ℚ) < ((accepted + 1 : ℕ) : ℚ) := by exact_mod_cast Nat.succ_pos accepted
  have hshort : (0 : ℚ) < j * costs.draftSecondsPerToken + costs.verificationSecondsPerRound :=
    add_pos_of_nonneg_of_pos (mul_nonneg (Nat.cast_nonneg j) h.draft_pos.le) h.verification_pos
  refine div_lt_div_of_pos_left (mul_pos hemitted h.baseline_pos) hshort ?_
  have hcost := mul_lt_mul_of_pos_right (Nat.cast_lt (α := ℚ).mpr hjk) h.draft_pos
  linarith

/-- Cutting drafts that were not accepted keeps the round and makes it strictly cheaper. -/
theorem exists_evaluateSpeculation_take {decision : SpeculationDecision}
    (h : evaluateSpeculation draftTokens targetTokens costs minimumSpeedup = .ok decision) {j : ℕ}
    (hj : max decision.acceptedTokens 1 ≤ j) (hcut : j < draftTokens.length) :
    ∃ shorter,
      evaluateSpeculation (draftTokens.take j) targetTokens costs minimumSpeedup = .ok shorter ∧
        shorter.acceptedTokens = decision.acceptedTokens ∧
        shorter.emittedTokens = decision.emittedTokens ∧
        decision.estimatedSpeedup < shorter.estimatedSpeedup ∧
        (decision.enable = true → shorter.enable = true) := by
  obtain ⟨haccepted, hcount, hemitted, -, hspeedup, henable⟩ := evaluateSpeculation_spec h
  have hlen : (draftTokens.take j).length = j := List.length_take_of_le hcut.le
  have hcommon : commonLength (draftTokens.take j) targetTokens =
      commonLength draftTokens targetTokens := by
    rw [commonLength_take]
    exact min_eq_right (hcount ▸ (le_max_left _ _).trans hj)
  have hshort : Accepted (draftTokens.take j) targetTokens costs minimumSpeedup :=
    { haccepted with
      draft_nonempty := List.ne_nil_of_length_pos (by
        rw [hlen]
        exact (le_max_right _ _).trans hj)
      covers := by
        rw [hlen]
        exact hcut.trans haccepted.covers }
  obtain ⟨shorter, hshorter⟩ := exists_evaluateSpeculation hshort
  obtain ⟨-, hcount', hemitted', -, hspeedup', henable'⟩ := evaluateSpeculation_spec hshorter
  have hsame : shorter.acceptedTokens = decision.acceptedTokens := by
    rw [hcount', hcommon, hcount]
  have hfaster : decision.estimatedSpeedup < shorter.estimatedSpeedup := by
    rw [hspeedup, hspeedup', hcommon, hlen]
    exact roundSpeedup_lt_of_shorter haccepted _ hcut
  exact ⟨shorter, hshorter, hsame, by rw [hemitted', hsame, hemitted], hfaster,
    fun hon => henable'.mpr ((henable.mp hon).trans hfaster.le)⟩

/-- The accounting of one round: what is accepted and emitted, and what does not change it. -/
theorem evaluateSpeculation_accounting {decision : SpeculationDecision}
    (h : evaluateSpeculation draftTokens targetTokens costs minimumSpeedup = .ok decision) :
    IsGreatest {n | n ≤ draftTokens.length ∧ n ≤ targetTokens.length ∧
        draftTokens.take n = targetTokens.take n} decision.acceptedTokens ∧
      (∃ token, targetTokens[decision.acceptedTokens]? = some token ∧
        draftTokens.take decision.acceptedTokens ++ [token] =
          targetTokens.take decision.emittedTokens) ∧
      (1 ≤ decision.emittedTokens ∧ decision.emittedTokens = decision.acceptedTokens + 1 ∧
        decision.emittedTokens ≤ draftTokens.length + 1 ∧
        draftTokens.length + 1 ≤ targetTokens.length) ∧
      (∀ draft' : List ℤ, draft'.length = draftTokens.length →
        draft'.take (decision.acceptedTokens + 1) =
            draftTokens.take (decision.acceptedTokens + 1) →
          evaluateSpeculation draft' targetTokens costs minimumSpeedup = .ok decision) ∧
      (∀ j, max decision.acceptedTokens 1 ≤ j → j < draftTokens.length → ∃ shorter,
        evaluateSpeculation (draftTokens.take j) targetTokens costs minimumSpeedup = .ok shorter ∧
          shorter.acceptedTokens = decision.acceptedTokens ∧
          shorter.emittedTokens = decision.emittedTokens ∧
          decision.estimatedSpeedup < shorter.estimatedSpeedup ∧
          (decision.enable = true → shorter.enable = true)) := by
  obtain ⟨haccepted, hcount, hemitted, -, -, -⟩ := evaluateSpeculation_spec h
  have hle := commonLength_le_left draftTokens targetTokens
  refine ⟨?_, ?_, ⟨?_, hemitted, ?_, haccepted.covers⟩, fun draft' hlen htake => ?_,
    fun j hj hcut => exists_evaluateSpeculation_take h hj hcut⟩
  · rw [hcount]
    exact isGreatest_commonLength draftTokens targetTokens
  · rw [hemitted, hcount]
    exact exists_emitted_token haccepted.covers
  · omega
  · omega
  · rw [hcount] at htake
    exact (evaluateSpeculation_congr hlen (commonLength_congr hlen htake)).trans h

theorem evaluateSpeculation_accounting_first_mismatch :
    ∃ decision, evaluateSpeculation [1, 2, 9, 9] [1, 2, 3, 4, 5] ⟨1, 1 / 10, 1⟩ = .ok decision ∧
      decision.acceptedTokens = 2 ∧ decision.emittedTokens = 3 ∧
      evaluateSpeculation [1, 2, 9, 7] [1, 2, 3, 4, 5] ⟨1, 1 / 10, 1⟩ = .ok decision := by
  have hround : evaluateSpeculation [1, 2, 9, 9] [1, 2, 3, 4, 5] ⟨1, 1 / 10, 1⟩ =
      .ok ⟨true, 2, 4, 3, 1 / 2, 15 / 7, "measured round clears 1.00x speedup gate"⟩ := by
    decide +kernel
  obtain ⟨-, -, -, hreplace, -⟩ := evaluateSpeculation_accounting hround
  exact ⟨_, hround, rfl, rfl, hreplace [1, 2, 9, 7] rfl rfl⟩

/-! ### How long to draft -/

theorem roundSpeedup_le_iff (h : Accepted draftTokens targetTokens costs minimumSpeedup)
    (a j b k : ℕ) : roundSpeedup costs a j ≤ roundSpeedup costs b k ↔
      ((a : ℚ) + 1) * (k * costs.draftSecondsPerToken + costs.verificationSecondsPerRound) ≤
        (b + 1) * (j * costs.draftSecondsPerToken + costs.verificationSecondsPerRound) := by
  have hcost (n : ℕ) :
      (0 : ℚ) < n * costs.draftSecondsPerToken + costs.verificationSecondsPerRound :=
    add_pos_of_nonneg_of_pos (mul_nonneg (Nat.cast_nonneg n) h.draft_pos.le) h.verification_pos
  rw [roundSpeedup, roundSpeedup, div_le_div_iff₀ (hcost j) (hcost k), mul_right_comm,
    mul_right_comm _ _ (_ + _), mul_le_mul_iff_left₀ h.baseline_pos, Nat.cast_succ, Nat.cast_succ]

/-- Drafting on is worth it exactly while a draft token costs no more than a verification. -/
def bestLength (costs : SpeculationCosts) (accepted : ℕ) : ℕ :=
  if costs.draftSecondsPerToken ≤ costs.verificationSecondsPerRound then max accepted 1 else 1

/-- No length beats the best one: up to the accepted length both sides of the comparison grow by
one term a token, and beyond it only the cost does. -/
theorem roundSpeedup_le_best (h : Accepted draftTokens targetTokens costs minimumSpeedup)
    (accepted : ℕ) {j : ℕ} (hj : 1 ≤ j) :
    roundSpeedup costs (min j accepted) j ≤
      roundSpeedup costs (min (bestLength costs accepted) accepted)
        (bestLength costs accepted) := by
  have hshorter {a k l : ℕ} (hkl : k ≤ l) : roundSpeedup costs a l ≤ roundSpeedup costs a k := by
    rcases hkl.eq_or_lt with rfl | hlt
    · exact le_rfl
    · exact (roundSpeedup_lt_of_shorter h a hlt).le
  rcases Nat.eq_zero_or_pos accepted with rfl | hpos
  · have hbest : bestLength costs 0 = 1 := by simp [bestLength]
    rw [hbest, Nat.min_zero, Nat.min_zero]
    exact hshorter hj
  by_cases hcheap : costs.draftSecondsPerToken ≤ costs.verificationSecondsPerRound
  · rw [bestLength, if_pos hcheap, max_eq_left hpos, min_self]
    rcases le_total j accepted with hle | hle
    · rw [min_eq_left hle, roundSpeedup_le_iff h]
      have hgain := mul_le_mul_of_nonneg_left hcheap (sub_nonneg.mpr (Nat.cast_le (α := ℚ).mpr hle))
      linarith
    · rw [min_eq_right hle]
      exact hshorter hle
  · have hone : min 1 accepted = 1 := min_eq_left hpos
    rw [bestLength, if_neg hcheap, hone]
    refine le_trans ?_ ((roundSpeedup_le_iff h j j 1 1).mpr ?_)
    · rw [roundSpeedup_le_iff h]
      have hmin : ((min j accepted : ℕ) : ℚ) ≤ j := Nat.cast_le.mpr (min_le_left _ _)
      have hcost : (0 : ℚ) ≤ j * costs.draftSecondsPerToken + costs.verificationSecondsPerRound :=
        add_nonneg (mul_nonneg (Nat.cast_nonneg j) h.draft_pos.le) h.verification_pos.le
      exact mul_le_mul_of_nonneg_right (by linarith) hcost
    · have hloss := mul_le_mul_of_nonneg_left (not_le.mp hcheap).le
        (sub_nonneg.mpr (Nat.one_le_cast (α := ℚ).mpr hj))
      push_cast
      linarith

/-- Of all the lengths a draft can be cut to, one is best, and it only depends on what is accepted
and on which of a draft token and a verification costs more: no cut clears the gate unless that
one does. -/
theorem evaluateSpeculation_best_length {decision : SpeculationDecision}
    (h : evaluateSpeculation draftTokens targetTokens costs minimumSpeedup = .ok decision) :
    let best := bestLength costs decision.acceptedTokens
    1 ≤ best ∧ best ≤ draftTokens.length ∧ ∃ top,
      evaluateSpeculation (draftTokens.take best) targetTokens costs minimumSpeedup = .ok top ∧
      ∀ j, 1 ≤ j → j ≤ draftTokens.length → ∃ cut,
        evaluateSpeculation (draftTokens.take j) targetTokens costs minimumSpeedup = .ok cut ∧
          cut.acceptedTokens = min j decision.acceptedTokens ∧
          cut.estimatedSpeedup ≤ top.estimatedSpeedup ∧
          (cut.enable = true → top.enable = true) := by
  intro best
  obtain ⟨haccepted, hcount, -, -, -, -⟩ := evaluateSpeculation_spec h
  have hlength : 1 ≤ draftTokens.length := List.length_pos_of_ne_nil haccepted.draft_nonempty
  have hle := commonLength_le_left draftTokens targetTokens
  have hbest : 1 ≤ best ∧ best ≤ draftTokens.length := by
    unfold best bestLength
    split_ifs
    · omega
    · omega
  have hcut (j : ℕ) (hj : 1 ≤ j) (hj' : j ≤ draftTokens.length) : ∃ cut,
      evaluateSpeculation (draftTokens.take j) targetTokens costs minimumSpeedup = .ok cut ∧
        cut.acceptedTokens = min j decision.acceptedTokens ∧
        cut.estimatedSpeedup = roundSpeedup costs (min j decision.acceptedTokens) j ∧
        (cut.enable = true ↔ minimumSpeedup ≤ cut.estimatedSpeedup) := by
    have hlen : (draftTokens.take j).length = j := List.length_take_of_le hj'
    have haccepted' : Accepted (draftTokens.take j) targetTokens costs minimumSpeedup :=
      { haccepted with
        draft_nonempty := List.ne_nil_of_length_pos (by omega)
        covers := by
          rw [hlen]
          exact hj'.trans_lt haccepted.covers }
    obtain ⟨cut, hok⟩ := exists_evaluateSpeculation haccepted'
    obtain ⟨-, hcount', -, -, hspeedup, henable⟩ := evaluateSpeculation_spec hok
    rw [commonLength_take, ← hcount] at hcount' hspeedup
    rw [hlen] at hspeedup
    exact ⟨cut, hok, hcount', hspeedup, henable⟩
  obtain ⟨top, htop, -, htopSpeedup, htopEnable⟩ := hcut best hbest.1 hbest.2
  refine ⟨hbest.1, hbest.2, top, htop, fun j hj hj' => ?_⟩
  obtain ⟨cut, hok, hcount', hspeedup, henable⟩ := hcut j hj hj'
  have hfaster : cut.estimatedSpeedup ≤ top.estimatedSpeedup := by
    rw [hspeedup, htopSpeedup]
    exact roundSpeedup_le_best haccepted _ hj
  exact ⟨cut, hok, hcount', hfaster, fun hon => htopEnable.mpr ((henable.mp hon).trans hfaster)⟩

theorem evaluateSpeculation_best_length_sample : ∃ top,
    evaluateSpeculation [1, 2] [1, 2, 3, 4, 5] ⟨1, 1 / 10, 1⟩ = .ok top ∧
      ∀ j, 1 ≤ j → j ≤ 4 → ∃ cut,
        evaluateSpeculation ([1, 2, 9, 9].take j) [1, 2, 3, 4, 5] ⟨1, 1 / 10, 1⟩ = .ok cut ∧
          cut.acceptedTokens = min j 2 ∧ cut.estimatedSpeedup ≤ top.estimatedSpeedup ∧
          (cut.enable = true → top.enable = true) := by
  have hround : evaluateSpeculation [1, 2, 9, 9] [1, 2, 3, 4, 5] ⟨1, 1 / 10, 1⟩ =
      .ok ⟨true, 2, 4, 3, 1 / 2, 15 / 7, "measured round clears 1.00x speedup gate"⟩ := by
    decide +kernel
  have hbest : bestLength ⟨1, 1 / 10, 1⟩ 2 = 2 := by decide +kernel
  obtain ⟨-, -, top, htop, hcuts⟩ := evaluateSpeculation_best_length hround
  simp only [hbest] at htop
  exact ⟨top, htop, hcuts⟩

end Round

end Speculation
