import InferencePlatform.PrefixCacheMerging

/-!
# Conversations

A conversation sends a token sequence again and again, each time with more tokens behind it. Every
turn is looked up, computed and stored, while other stores, under this scope or another, happen
in between. Each turn then recomputes what is new and at most the partial block before it, so the
work over all turns grows with the last sequence and not with the sum of the sequences.
-/

namespace PrefixCaching

open PythonBuiltins CallRuns LongestPrefix

/-- The stores since the turn before, and the tokens of this one. -/
structure Turn where
  others : List StoreCall
  tokens : List ℤ

def Turn.stores (scope : CacheScope) (turn : Turn) : List StoreCall :=
  turn.others ++ [⟨scope, turn.tokens⟩]

section Converse

variable (sha256 : String → String) (scope : CacheScope)

def converse : PrefixCache → List Turn → List (Except PyError PrefixDecision)
  | _, [] => []
  | self, turn :: turns =>
    lookup (finalState (storeStep sha256) self turn.others) scope turn.tokens ::
      converse (finalState (storeStep sha256) self (turn.stores scope)) turns

variable {sha256} {scope} {cache : PrefixCache}

/-- What a history stored of the turn before is a prefix that the next turn can reuse. -/
theorem reused_of_stored {calls : List StoreCall} {tokens tokens' : List ℤ} {n : ℕ}
    (hscope : scope.Valid) (htokens : ∀ token ∈ tokens, 0 ≤ token) (hgrows : tokens <+: tokens')
    (hmem : ⟨scope, tokens⟩ ∈ calls)
    (hn : IsLongest (stored sha256 cache calls scope) tokens' n) :
    tokens.length ≤ n + (cache.blockSize - 1) := by
  have hmod := Nat.mod_lt tokens.length cache.blockSize_pos
  by_cases hlen : cache.blockSize ≤ tokens.length
  · have hstored : completeTokens cache.blockSize tokens ∈ stored sha256 cache calls scope :=
      ⟨_, storedAs_iff.mpr ⟨⟨scope, tokens⟩, hmem, rfl, ⟨hscope, htokens⟩, hlen, rfl, rfl⟩⟩
    have hle := hn.upper _ hstored ((List.take_prefix _ tokens).trans hgrows)
    rw [length_completeTokens] at hle
    omega
  · omega

/-- The turns of a conversation as growing lists with their reuse. `last` is the turn before,
or no tokens at the start. -/
theorem converse_reuses (hempty : cache.entries = .empty) (hscope : scope.Valid)
    (turns : List Turn) (before : List StoreCall) (last : List ℤ)
    (hlast : last ≠ [] → ⟨scope, last⟩ ∈ before) (hlast_nonneg : ∀ token ∈ last, 0 ≤ token)
    (htokens : ∀ turn ∈ turns, ∀ token ∈ turn.tokens, 0 ≤ token)
    (hgrows : List.IsChain (· <+: ·) (last :: turns.map Turn.tokens))
    (hinj : Set.InjOn sha256
      (hashedTexts sha256 cache (before ++ turns.flatMap (Turn.stores scope)))) :
    ∃ ns : List ℕ, ns.length = turns.length ∧
      Reuses (cache.blockSize - 1) last.length ((turns.map Turn.tokens).zip ns) ∧
      converse sha256 scope (finalState (storeStep sha256) cache before) turns =
        ((turns.map Turn.tokens).zip ns).map fun s =>
          .ok (reuse sha256 cache.blockSize scope s.1 s.2) := by
  induction turns generalizing before last with
  | nil => exact ⟨[], rfl, .nil _, rfl⟩
  | cons turn turns ih =>
      rw [List.map_cons, List.isChain_cons_cons] at hgrows
      have hturn := htokens turn List.mem_cons_self
      have hsplit : before ++ (turn :: turns).flatMap (Turn.stores scope) =
          (before ++ turn.stores scope) ++ turns.flatMap (Turn.stores scope) := by
        rw [List.flatMap_cons, List.append_assoc]
      rw [hsplit] at hinj
      have hnow : Set.InjOn sha256 (hashedTexts sha256 cache (before ++ turn.others)) := by
        have hmore := hinj.mono (hashedTexts_subset sha256 cache _ _)
        rw [Turn.stores, ← List.append_assoc] at hmore
        exact hmore.mono (hashedTexts_subset sha256 cache _ _)
      obtain ⟨n, hn, hlookup⟩ := lookup_stored hempty hnow hscope hturn
      obtain ⟨ns, hlength, hreuses, hrest⟩ := ih (before ++ turn.stores scope) turn.tokens
        (fun _ => by simp [Turn.stores]) hturn
        (fun t ht => htokens t (List.mem_cons_of_mem turn ht)) hgrows.2 hinj
      refine ⟨n :: ns, by simp [hlength], ?_, ?_⟩
      · refine .cons ?_ hgrows.1.length_le hn.le_length hreuses
        by_cases hempty : last = []
        · simp [hempty]
        · exact reused_of_stored hscope hlast_nonneg hgrows.1
            (List.mem_append_left _ (hlast hempty)) hn
      · rw [converse, ← finalState_append, ← finalState_append, hlookup, hrest]
        rfl

end Converse

theorem sum_recompute {steps : List (List ℤ × ℕ)} {gap done : ℕ} (h : Reuses gap done steps)
    (sha256 : String → String) (blockSize : ℕ) (scope : CacheScope) :
    (steps.map fun s => (reuse sha256 blockSize scope s.1 s.2).recomputeTokens).sum =
      ((steps.map fun s => s.1.length - s.2).sum : ℕ) := by
  induction h with
  | nil => rfl
  | cons hdone hgrows hn hrest ih =>
      rw [List.map_cons, List.sum_cons, ih, List.map_cons, List.sum_cons, Nat.cast_add,
        reuse_recomputeTokens, Nat.cast_sub hn]

theorem lengths_zip {xss : List (List ℤ)} {ns : List ℕ} (h : xss.length ≤ ns.length) :
    (xss.zip ns).map (fun s => s.1.length) = xss.map List.length := by
  have hfst := congrArg (List.map List.length) (List.map_fst_zip h)
  rwa [List.map_map] at hfst

theorem getLast?_lengths {turn : Turn} {rest : List Turn} (hne : turn :: rest ≠ []) :
    ((rest.map Turn.tokens).map List.length).getLast?.getD turn.tokens.length =
      ((turn :: rest).getLast hne).tokens.length := by
  have hlast : (turn :: rest).getLast hne = rest.getLast?.getD turn := by
    rw [List.getLast_eq_iff_getLast?_eq_some, List.getLast?_cons]
  rw [hlast, List.getLast?_map, List.getLast?_map, Option.map_map]
  exact Option.getD_map (fun t : Turn => t.tokens.length) turn rest.getLast?

/-- Over a conversation, whatever else is stored in between, all turns together recompute no more
than the last sequence and a partial block for each turn after the first. -/
theorem converse_recompute_le (sha256 : String → String) {blockSize : ℤ} {cache : PrefixCache}
    (hinit : PrefixCache.init blockSize = .ok cache) {scope : CacheScope} (hscope : scope.Valid)
    (before : List StoreCall) (turns : List Turn) (hne : turns ≠ [])
    (htokens : ∀ turn ∈ turns, ∀ token ∈ turn.tokens, 0 ≤ token)
    (hgrows : List.IsChain (· <+: ·) (turns.map Turn.tokens))
    (hinj : Set.InjOn sha256
      (hashedTexts sha256 cache (before ++ turns.flatMap (Turn.stores scope)))) :
    ∃ decisions : List PrefixDecision,
      converse sha256 scope (finalState (storeStep sha256) cache before) turns =
        decisions.map .ok ∧
      (decisions.map (·.recomputeTokens)).sum ≤
        (turns.getLast hne).tokens.length + (turns.length - 1) * (blockSize - 1) := by
  obtain ⟨hblock, hempty⟩ := init_spec hinit
  obtain ⟨turn, rest, rfl⟩ := List.exists_cons_of_ne_nil hne
  obtain ⟨ns, hlength, hreuses, hconverse⟩ := converse_reuses hempty hscope (turn :: rest) before []
    (fun h => absurd rfl h) (by simp) htokens (by simpa using hgrows) hinj
  have hsum := sum_recompute hreuses sha256 cache.blockSize scope
  refine ⟨_, hconverse.trans (List.map_map).symm, ?_⟩
  rw [List.map_map]
  refine hsum.trans_le ?_
  cases ns with
  | nil => cases hlength
  | cons n ns =>
      rw [List.map_cons, List.zip_cons_cons] at hreuses ⊢
      cases hreuses with
      | cons hdone hgrows hn hrest =>
          have hle := hrest.sum_le
          have hns : rest.length = ns.length := by simpa using hlength.symm
          rw [lengths_zip (by simp [hns]), getLast?_lengths hne, List.length_zip, List.length_map,
            hns, min_self] at hle
          have hpred : ((cache.blockSize - 1 : ℕ) : ℤ) = blockSize - 1 := by
            rw [Nat.cast_sub cache.blockSize_pos, hblock, Nat.cast_one]
          rw [List.map_cons, List.sum_cons, List.length_cons, hns, Nat.cast_succ,
            add_sub_cancel_right, ← hpred]
          dsimp only
          norm_cast
          omega

theorem converse_recompute_le_example :
    ∃ decisions : List PrefixDecision,
      converse sampleSha256 ⟨"m", "k", "a", "acme"⟩ ⟨2, .empty, two_pos⟩
        [⟨[], [10, 20, 30]⟩, ⟨[⟨⟨"m", "k", "a", "beta"⟩, [10]⟩], [10, 20, 30, 40, 50]⟩] =
          decisions.map .ok ∧
      (decisions.map (·.recomputeTokens)).sum ≤ 6 := by
  exact converse_recompute_le sampleSha256
    (show PrefixCache.init 2 = .ok ⟨2, .empty, two_pos⟩ from rfl)
    (sampleScope_valid "acme" (by decide)) []
    [⟨[], [10, 20, 30]⟩, ⟨[⟨⟨"m", "k", "a", "beta"⟩, [10]⟩], [10, 20, 30, 40, 50]⟩] (by simp)
    (by decide) (by decide) sampleSha256.injective.injOn

end PrefixCaching
