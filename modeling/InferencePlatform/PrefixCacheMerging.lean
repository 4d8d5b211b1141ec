import InferencePlatform.LongestPrefix
import InferencePlatform.PrefixCacheRuns

/-!
# Lookups as longest stored prefixes

A lookup is settled by one number, the length of the longest stored prefix: the key, the reason
and the remainder follow from it. That holds for any hash function at all, so a collision can lose
an entry and never cause a wrong reuse. Without collisions the stored prefixes are those of the
history, and histories then merge like sets: order and repetition of the stores do not matter and
the better of two lookups wins.
-/

namespace PrefixCaching

open PythonBuiltins CallRuns LongestPrefix

variable (sha256 : String → String)

/-- The decision that reuses `n` tokens. -/
def reuse (blockSize : ℕ) (scope : CacheScope) (tokens : List ℤ) (n : ℕ) : PrefixDecision :=
  if n = 0 then ⟨0, tokens.length, none, "no exact in-scope prefix"⟩
  else ⟨n, tokens.length - n, some (digest sha256 scope (tokens.take n)),
    "reused " ++ toString (n / blockSize) ++ " complete blocks"⟩

@[simp] theorem reuse_reusedTokens (blockSize : ℕ) (scope : CacheScope) (tokens : List ℤ)
    (n : ℕ) : (reuse sha256 blockSize scope tokens n).reusedTokens = n := by
  by_cases hn : n = 0
  · simp [reuse, hn]
  · simp [reuse, hn]

@[simp] theorem reuse_recomputeTokens (blockSize : ℕ) (scope : CacheScope) (tokens : List ℤ)
    (n : ℕ) : (reuse sha256 blockSize scope tokens n).recomputeTokens = tokens.length - n := by
  by_cases hn : n = 0
  · simp [reuse, hn]
  · simp [reuse, hn]

/-- Every entry is kept under its own key and holds complete blocks. -/
structure Keyed (cache : PrefixCache) : Prop where
  key_eq : ∀ scope key p, cache.entries.get? (scope, key) = some p → key = digest sha256 scope p
  complete : ∀ scope key p, cache.entries.get? (scope, key) = some p →
    p ≠ [] ∧ cache.blockSize ∣ p.length

def kept (self : PrefixCache) (scope : CacheScope) : Set (List ℤ) :=
  {p | self.entries.get? (scope, digest sha256 scope p) = some p}

section Keyed

variable {sha256} {self : PrefixCache}

/-- An entry found after a store was there before, or it is what the call stored. -/
theorem get?_storeStep {call : StoreCall} {scope : CacheScope} {key : String} {p : List ℤ}
    (h : (storeStep sha256 self call).2.entries.get? (scope, key) = some p) :
    self.entries.get? (scope, key) = some p ∨
      call.scope = scope ∧ call.Accepted ∧ self.blockSize ≤ call.tokens.length ∧
        completeTokens self.blockSize call.tokens = p ∧ digest sha256 scope p = key := by
  by_cases haccepted : call.Accepted
  · rw [storeStep_of_accepted sha256 self call haccepted] at h
    by_cases hlen : call.tokens.length < self.blockSize
    · rw [if_pos hlen] at h
      exact Or.inl h
    · rw [if_neg hlen] at h
      simp only [PrefixCache.remember, OrderedDict.get?_set] at h
      by_cases hkey : (scope, key) = (call.scope,
          digest sha256 call.scope (completeTokens self.blockSize call.tokens))
      · rw [if_pos hkey] at h
        obtain ⟨rfl, rfl⟩ := Prod.mk.inj hkey
        obtain rfl := Option.some.inj h
        exact Or.inr ⟨rfl, haccepted, not_lt.mp hlen, rfl, rfl⟩
      · rw [if_neg hkey] at h
        exact Or.inl h
  · obtain ⟨e, he⟩ := storeStep_of_rejected sha256 call haccepted
    rw [he self] at h
    exact Or.inl h

theorem keyed_of_empty (h : self.entries = .empty) : Keyed sha256 self := by
  constructor
  · intro scope key p hget
    rw [h, OrderedDict.get?_empty] at hget
    cases hget
  · intro scope key p hget
    rw [h, OrderedDict.get?_empty] at hget
    cases hget

theorem storeStep_keyed (h : Keyed sha256 self) (call : StoreCall) :
    Keyed sha256 (storeStep sha256 self call).2 := by
  constructor
  · intro scope key p hget
    rcases get?_storeStep hget with hold | ⟨-, -, -, -, hkey⟩
    · exact h.key_eq scope key p hold
    · exact hkey.symm
  · intro scope key p hget
    rw [storeStep_blockSize]
    rcases get?_storeStep hget with hold | ⟨-, -, hlen, rfl, -⟩
    · exact h.complete scope key p hold
    · exact ⟨completeTokens_ne_nil self.blockSize_pos hlen, dvd_length_completeTokens _ _⟩

theorem finalState_keyed (h : Keyed sha256 self) (calls : List StoreCall) :
    Keyed sha256 (finalState (storeStep sha256) self calls) :=
  finalState_induction (storeStep sha256) (I := Keyed sha256)
    (fun _ call hs => storeStep_keyed hs call) self h calls

/-- A lookup is the decision for the longest prefix kept. -/
theorem lookup_eq_reuse (h : Keyed sha256 self) {scope : CacheScope} {tokens : List ℤ}
    (hscope : scope.Valid) (htokens : ∀ token ∈ tokens, 0 ≤ token) :
    ∃ n, IsLongest (kept sha256 self scope) tokens n ∧
      lookup self scope tokens = .ok (reuse sha256 self.blockSize scope tokens n) := by
  rw [lookup_of_accepted self hscope htokens]
  cases hmax : (candidates self scope tokens).argmax (fun candidate => candidate.2.length) with
  | none =>
      rw [List.argmax_eq_none] at hmax
      refine ⟨0, ⟨Nat.zero_le _, fun hpos => absurd hpos (lt_irrefl 0), ?_⟩, rfl⟩
      intro p hp hpre
      have hcandidate := mem_candidates.mpr ⟨hp, hpre⟩
      rw [hmax] at hcandidate
      cases hcandidate
  | some candidate =>
      obtain ⟨key, cached⟩ := candidate
      obtain ⟨hget, hpre⟩ := mem_candidates.mp (List.argmax_mem hmax)
      have hkey := h.key_eq scope key cached hget
      have hpos : cached.length ≠ 0 := by simpa using (h.complete scope key cached hget).1
      have htake : tokens.take cached.length = cached := (List.prefix_iff_eq_take.mp hpre).symm
      refine ⟨cached.length, ⟨hpre.length_le, fun _ => ?_, fun p hp hp' => ?_⟩, ?_⟩
      · rw [htake, kept, Set.mem_ofPred_eq, ← hkey, hget]
      · exact List.le_of_mem_argmax (f := fun candidate : String × List ℤ => candidate.2.length)
          (mem_candidates.mpr ⟨hp, hp'⟩) hmax
      · rw [reuse, if_neg hpos, htake, ← hkey, decisionOf]

end Keyed

/-! ### What a history stores -/

section Histories

variable {sha256} {cache : PrefixCache} {calls calls' : List StoreCall} {scope : CacheScope}
  {tokens p : List ℤ} {key : String}

/-- The calls of a history answer for what it stored, wherever they stand in it. -/
theorem storedAs_iff : StoredAs sha256 cache calls scope p key ↔
    ∃ call ∈ calls, call.scope = scope ∧ call.Accepted ∧ cache.blockSize ≤ call.tokens.length ∧
      completeTokens cache.blockSize call.tokens = p ∧ digest sha256 scope p = key := by
  induction calls using List.reverseRecOn with
  | nil =>
      refine iff_of_false (storedAs_nil sha256 cache scope p key) ?_
      simp
  | append_singleton calls call ih =>
      rw [storedAs_concat, ih]
      simp only [List.mem_append, List.mem_singleton, or_and_right, exists_or, exists_eq_left]

/-- Whatever is found was stored, whether or not the hash collides. -/
theorem storedAs_of_get? (hempty : cache.entries = .empty)
    (h : (finalState (storeStep sha256) cache calls).entries.get? (scope, key) = some p) :
    StoredAs sha256 cache calls scope p key := by
  induction calls using List.reverseRecOn with
  | nil =>
      rw [finalState_nil, hempty, OrderedDict.get?_empty] at h
      cases h
  | append_singleton calls call ih =>
      rw [finalState_concat] at h
      apply (storedAs_concat sha256).mpr
      rcases get?_storeStep h with hold | hnew
      · exact Or.inl (ih hold)
      · rw [finalState_blockSize] at hnew
        exact Or.inr hnew

variable (sha256 cache calls scope) in
def stored : Set (List ℤ) := {p | ∃ key, StoredAs sha256 cache calls scope p key}

theorem kept_subset_stored (hempty : cache.entries = .empty) :
    kept sha256 (finalState (storeStep sha256) cache calls) scope ⊆
      stored sha256 cache calls scope :=
  fun _ hp => ⟨_, storedAs_of_get? hempty hp⟩

theorem kept_eq_stored (hempty : cache.entries = .empty)
    (hinj : Set.InjOn sha256 (hashedTexts sha256 cache calls)) :
    kept sha256 (finalState (storeStep sha256) cache calls) scope =
      stored sha256 cache calls scope := by
  apply Set.Subset.antisymm (kept_subset_stored hempty)
  rintro p ⟨key, hp⟩
  have hkey := hp.spec.2.2.2
  subst hkey
  exact (entries_get?_iff sha256 hempty calls hinj scope p _).mpr hp

theorem stored_append : stored sha256 cache (calls ++ calls') scope =
    stored sha256 cache calls scope ∪ stored sha256 cache calls' scope := by
  ext p
  simp only [stored, Set.mem_union, Set.mem_ofPred_eq, storedAs_iff, List.mem_append,
    or_and_right, exists_or]

theorem stored_congr (hsame : ∀ call, call ∈ calls ↔ call ∈ calls') :
    stored sha256 cache calls = stored sha256 cache calls' := by
  funext scope
  ext p
  simp only [stored, Set.mem_ofPred_eq, storedAs_iff, hsame]

theorem hashedTexts_congr (hsame : ∀ call, call ∈ calls ↔ call ∈ calls') :
    hashedTexts sha256 cache calls = hashedTexts sha256 cache calls' := by
  ext text
  simp only [hashedTexts, Set.mem_ofPred_eq, storedAs_iff, hsame]

theorem hashedTexts_append_right : hashedTexts sha256 cache calls' ⊆
    hashedTexts sha256 cache (calls ++ calls') := by
  rintro text ⟨scope, p, key, h, rfl⟩
  obtain ⟨call, hcall, hrest⟩ := storedAs_iff.mp h
  exact ⟨scope, p, key, storedAs_iff.mpr ⟨call, List.mem_append_right _ hcall, hrest⟩, rfl⟩

/-- Without collisions a lookup after a history is the decision for the longest prefix stored. -/
theorem lookup_stored (hempty : cache.entries = .empty)
    (hinj : Set.InjOn sha256 (hashedTexts sha256 cache calls)) (hscope : scope.Valid)
    (htokens : ∀ token ∈ tokens, 0 ≤ token) :
    ∃ n, IsLongest (stored sha256 cache calls scope) tokens n ∧
      lookup (finalState (storeStep sha256) cache calls) scope tokens =
        .ok (reuse sha256 cache.blockSize scope tokens n) := by
  have hkeyed : Keyed sha256 cache := keyed_of_empty hempty
  have h := lookup_eq_reuse (finalState_keyed hkeyed calls) hscope htokens
  rwa [kept_eq_stored hempty hinj, finalState_blockSize] at h

end Histories

/-- A refused lookup is refused by every cache. -/
theorem lookup_of_rejected {scope : CacheScope} {tokens : List ℤ}
    (h : ¬ (scope.Valid ∧ ∀ token ∈ tokens, 0 ≤ token)) :
    ∃ e, ∀ self : PrefixCache, lookup self scope tokens = .error e := by
  unfold lookup validateScope
  by_cases hscope : scope.Valid
  · have hneg : ¬ ∀ token ∈ tokens, 0 ≤ token := fun htokens => h ⟨hscope, htokens⟩
    rw [if_neg (by rw [CacheScope.any_isBlank_iff]; exact not_not_intro hscope)]
    refine ⟨.valueError "token ids may not be negative", fun self => ?_⟩
    exact if_pos ((any_negative_iff _).mpr hneg)
  · rw [if_pos ((CacheScope.any_isBlank_iff _).mpr hscope)]
    exact ⟨.valueError "every cache scope field is required", fun _ => rfl⟩

/-- Without collisions lookups depend on the set of stored prefixes only. -/
theorem lookup_eq_of_stored_eq {sha256 : String → String} {cache : PrefixCache}
    {calls calls' : List StoreCall} {scope : CacheScope} (hempty : cache.entries = .empty)
    (hinj : Set.InjOn sha256 (hashedTexts sha256 cache calls))
    (hinj' : Set.InjOn sha256 (hashedTexts sha256 cache calls'))
    (hsame : stored sha256 cache calls scope = stored sha256 cache calls' scope)
    (tokens : List ℤ) :
    lookup (finalState (storeStep sha256) cache calls) scope tokens =
      lookup (finalState (storeStep sha256) cache calls') scope tokens := by
  by_cases h : scope.Valid ∧ ∀ token ∈ tokens, 0 ≤ token
  · obtain ⟨n, hn, hlookup⟩ := lookup_stored hempty hinj h.1 h.2
    obtain ⟨n', hn', hlookup'⟩ := lookup_stored hempty hinj' h.1 h.2
    rw [← hsame] at hn'
    rw [hlookup, hlookup', hn.unique hn']
  · obtain ⟨e, he⟩ := lookup_of_rejected h
    rw [he, he]

/-- Whatever the hash function does, a lookup is settled by one length: the reused tokens are
whole blocks, they were stored under exactly this scope, the key is theirs, and the answers to the
request cut anywhere agree with it as far as the cut allows. -/
theorem lookup_sound {blockSize : ℤ} {cache : PrefixCache}
    (hinit : PrefixCache.init blockSize = .ok cache) (calls : List StoreCall) {scope : CacheScope}
    {tokens : List ℤ} (hscope : scope.Valid) (htokens : ∀ token ∈ tokens, 0 ≤ token) :
    let now := finalState (storeStep sha256) cache calls
    ∃ n, lookup now scope tokens = .ok (reuse sha256 cache.blockSize scope tokens n) ∧
      n ≤ tokens.length ∧ blockSize ∣ n ∧
      (0 < n → StoredAs sha256 cache calls scope (tokens.take n)
        (digest sha256 scope (tokens.take n))) ∧
      ∀ m, ∃ n', lookup now scope (tokens.take m) =
          .ok (reuse sha256 cache.blockSize scope (tokens.take m) n') ∧
        n' ≤ n ∧ (n ≤ m ↔ n' = n) := by
  intro now
  obtain ⟨hblock, hempty⟩ := init_spec hinit
  have hkeyed : Keyed sha256 now := finalState_keyed (keyed_of_empty hempty) calls
  have hsize : now.blockSize = cache.blockSize := finalState_blockSize sha256 cache calls
  obtain ⟨n, hn, hlookup⟩ := lookup_eq_reuse hkeyed hscope htokens
  rw [hsize] at hlookup
  have hstored (hpos : 0 < n) : StoredAs sha256 cache calls scope (tokens.take n)
      (digest sha256 scope (tokens.take n)) := storedAs_of_get? hempty (hn.mem hpos)
  refine ⟨n, hlookup, hn.le_length, ?_, hstored, fun m => ?_⟩
  · by_cases hzero : n = 0
    · simp [hzero]
    · have hdvd := (hstored (by omega)).spec.2.2.1
      rw [List.length_take, min_eq_left hn.le_length] at hdvd
      rw [← hblock]
      exact_mod_cast hdvd
  · obtain ⟨n', hn', hlookup'⟩ := lookup_eq_reuse hkeyed hscope
      (fun token htoken => htokens token (List.mem_of_mem_take htoken) : ∀ token ∈ tokens.take m, _)
    rw [hsize] at hlookup'
    exact ⟨n', hlookup', hn.take_iff hn'⟩

theorem sampleScope_valid (tenant : String) (h : isBlank tenant = false) :
    (⟨"m", "k", "a", tenant⟩ : CacheScope).Valid := by
  simp only [CacheScope.Valid, CacheScope.fields, List.forall_mem_cons, List.not_mem_nil,
    false_imp_iff, implies_true, and_true]
  exact ⟨by decide, by decide, by decide, h⟩

theorem lookup_sound_colliding :
    let now := finalState (storeStep fun _ => "same") ⟨2, .empty, two_pos⟩
      [⟨⟨"m", "k", "a", "acme"⟩, [10, 20, 30]⟩, ⟨⟨"m", "k", "a", "acme"⟩, [40, 50]⟩]
    ∃ n, lookup now ⟨"m", "k", "a", "acme"⟩ [10, 20, 30] =
      .ok (reuse (fun _ => "same") 2 ⟨"m", "k", "a", "acme"⟩ [10, 20, 30] n) ∧ (2 : ℤ) ∣ n := by
  obtain ⟨n, hlookup, -, hdvd, -⟩ := lookup_sound (fun _ => "same")
    (show PrefixCache.init 2 = .ok ⟨2, .empty, two_pos⟩ from rfl)
    [⟨⟨"m", "k", "a", "acme"⟩, [10, 20, 30]⟩, ⟨⟨"m", "k", "a", "acme"⟩, [40, 50]⟩]
    (sampleScope_valid "acme" (by decide)) (show ∀ token ∈ [(10 : ℤ), 20, 30], 0 ≤ token by decide)
  exact ⟨n, hlookup, hdvd⟩

/-- Histories of stores merge like sets of calls: one after the other, each lookup is the better
of the two, and neither the order nor the repetition of the calls can be told from any lookup. -/
theorem lookup_merge {blockSize : ℤ} {cache : PrefixCache}
    (hinit : PrefixCache.init blockSize = .ok cache) (calls calls' : List StoreCall)
    (hinj : Set.InjOn sha256 (hashedTexts sha256 cache (calls ++ calls'))) :
    (∀ (scope : CacheScope) (tokens : List ℤ), scope.Valid → (∀ token ∈ tokens, 0 ≤ token) →
      ∃ n n',
        lookup (finalState (storeStep sha256) cache calls) scope tokens =
          .ok (reuse sha256 cache.blockSize scope tokens n) ∧
        lookup (finalState (storeStep sha256) cache calls') scope tokens =
          .ok (reuse sha256 cache.blockSize scope tokens n') ∧
        lookup (finalState (storeStep sha256) cache (calls ++ calls')) scope tokens =
          .ok (reuse sha256 cache.blockSize scope tokens (max n n'))) ∧
    ∀ merged : List StoreCall, (∀ call, call ∈ merged ↔ call ∈ calls ∨ call ∈ calls') →
      ∀ (scope : CacheScope) (tokens : List ℤ),
        lookup (finalState (storeStep sha256) cache merged) scope tokens =
          lookup (finalState (storeStep sha256) cache (calls ++ calls')) scope tokens := by
  obtain ⟨-, hempty⟩ := init_spec hinit
  have hinj₁ := hinj.mono (hashedTexts_subset sha256 cache calls calls')
  have hinj₂ := hinj.mono (@hashedTexts_append_right sha256 cache calls calls')
  constructor
  · intro scope tokens hscope htokens
    obtain ⟨n, hn, hlookup⟩ := lookup_stored hempty hinj₁ hscope htokens
    obtain ⟨n', hn', hlookup'⟩ := lookup_stored hempty hinj₂ hscope htokens
    obtain ⟨m, hm, hmerged⟩ := lookup_stored hempty hinj hscope htokens
    rw [stored_append] at hm
    rw [hm.unique (hn.union hn')] at hmerged
    exact ⟨n, n', hlookup, hlookup', hmerged⟩
  · intro merged hmem scope tokens
    have hsame : ∀ call, call ∈ merged ↔ call ∈ calls ++ calls' := by simpa using hmem
    have hinj₃ : Set.InjOn sha256 (hashedTexts sha256 cache merged) := by
      rwa [hashedTexts_congr hsame]
    exact lookup_eq_of_stored_eq hempty hinj₃ hinj (by rw [stored_congr hsame]) tokens

theorem lookup_merge_swapped :
    let chat : StoreCall := ⟨⟨"m", "k", "a", "acme"⟩, [10, 20, 30]⟩
    let draft : StoreCall := ⟨⟨"m", "k", "a", "acme"⟩, [10, 20, 30, 40]⟩
    lookup (finalState (storeStep sampleSha256) ⟨2, .empty, two_pos⟩ [draft, chat, draft])
        ⟨"m", "k", "a", "acme"⟩ [10, 20, 30, 40, 50] =
      lookup (finalState (storeStep sampleSha256) ⟨2, .empty, two_pos⟩ ([chat] ++ [draft]))
        ⟨"m", "k", "a", "acme"⟩ [10, 20, 30, 40, 50] :=
  (lookup_merge sampleSha256 (show PrefixCache.init 2 = .ok ⟨2, .empty, two_pos⟩ from rfl)
    [⟨⟨"m", "k", "a", "acme"⟩, [10, 20, 30]⟩] [⟨⟨"m", "k", "a", "acme"⟩, [10, 20, 30, 40]⟩]
    sampleSha256.injective.injOn).2 _ (by simp [or_comm]) _ _

end PrefixCaching
