import InferencePlatform.PrefixCacheKeys

/-!
# The prefix cache after a history of stores

For one scope the cache is its block size with the entries of that scope. Stores under another
scope leave this view alone, which gives isolation with no assumption on the hash. When the hash
has no collisions on the texts of a history, the entries of a scope are exactly the complete
blocks stored under it, and `lookup` returns the longest one that the tokens begin with.
-/

namespace PrefixCaching

open PythonBuiltins CallRuns

variable (sha256 : String → String)

/-! ### Isolation of the scopes -/

def scopeView (scope : CacheScope) (self : PrefixCache) :
    ℕ × OrderedDict (CacheScope × String) (List ℤ) :=
  (self.blockSize, self.entries.restrict (fun k => k.1 = scope))

theorem candidates_eq_restrict (self : PrefixCache) (scope : CacheScope) (tokens : List ℤ) :
    candidates self scope tokens =
      ((self.entries.restrict (fun k => k.1 = scope)).items.filter fun e =>
        e.1.1 = scope ∧ e.2.length ≤ tokens.length ∧ tokens.take e.2.length = e.2).map
          fun e => (e.1.2, e.2) := by
  rw [candidates, OrderedDict.restrict, List.filter_filter]
  congr 1
  apply List.filter_congr
  intro e _
  rw [Bool.eq_iff_iff]
  simp only [Bool.and_eq_true, decide_eq_true_eq]
  tauto

theorem lookup_eq_of_view_eq {scope : CacheScope} {self self' : PrefixCache}
    (h : scopeView scope self = scopeView scope self') (tokens : List ℤ) :
    lookup self scope tokens = lookup self' scope tokens := by
  have hentries := congrArg Prod.snd h
  have hblock := congrArg Prod.fst h
  dsimp only [scopeView] at hentries hblock
  have hcandidates : candidates self scope tokens = candidates self' scope tokens := by
    rw [candidates_eq_restrict, candidates_eq_restrict, hentries]
  rw [lookup, lookup, hcandidates, hblock]

theorem scopeView_remember_of_ne {scope scope' : CacheScope} (h : scope' ≠ scope)
    (self : PrefixCache) (key : String) (complete : List ℤ) :
    scopeView scope (self.remember scope' key complete) = scopeView scope self :=
  congrArg (Prod.mk self.blockSize)
    (OrderedDict.restrict_set_of_not (fun k : CacheScope × String => k.1 = scope) h _ _)

theorem scopeView_remember {scope : CacheScope} {self self' : PrefixCache}
    (h : scopeView scope self = scopeView scope self') (key : String) (complete : List ℤ) :
    scopeView scope (self.remember scope key complete) =
      scopeView scope (self'.remember scope key complete) := by
  have hblock : self.blockSize = self'.blockSize := congrArg Prod.fst h
  have hrestrict : self.entries.restrict (fun k : CacheScope × String => k.1 = scope) =
    self'.entries.restrict (fun k : CacheScope × String => k.1 = scope) := congrArg Prod.snd h
  have hset (s : PrefixCache) : (s.remember scope key complete).entries.restrict
      (fun k : CacheScope × String => k.1 = scope) =
        (s.entries.restrict (fun k => k.1 = scope)).set (scope, key) complete :=
    OrderedDict.restrict_set (fun k : CacheScope × String => k.1 = scope) rfl _ _
  rw [scopeView, scopeView, hset, hset, hrestrict]
  exact congrArg (fun b => (b, _)) hblock

theorem storeStep_view_of_ne {scope : CacheScope} {self : PrefixCache} {call : StoreCall}
    (h : call.scope ≠ scope) :
    scopeView scope (storeStep sha256 self call).2 = scopeView scope self := by
  by_cases haccepted : call.Accepted
  · rw [storeStep_of_accepted sha256 self call haccepted]
    split_ifs
    · rfl
    · exact scopeView_remember_of_ne h self _ _
  · obtain ⟨e, he⟩ := storeStep_of_rejected sha256 call haccepted
    rw [he self]

theorem storeStep_view {self self' : PrefixCache} {call : StoreCall}
    (h : scopeView call.scope self = scopeView call.scope self') :
    (storeStep sha256 self call).1 = (storeStep sha256 self' call).1 ∧
      scopeView call.scope (storeStep sha256 self call).2 =
        scopeView call.scope (storeStep sha256 self' call).2 := by
  have hblock : self.blockSize = self'.blockSize := congrArg Prod.fst h
  by_cases haccepted : call.Accepted
  · rw [storeStep_of_accepted sha256 self call haccepted,
      storeStep_of_accepted sha256 self' call haccepted, hblock]
    split_ifs
    · exact ⟨rfl, h⟩
    · exact ⟨rfl, scopeView_remember h _ _⟩
  · obtain ⟨e, he⟩ := storeStep_of_rejected sha256 call haccepted
    rw [he self, he self']
    exact ⟨rfl, h⟩

/-- Lookups under a scope depend on the stores under that scope alone. -/
theorem lookup_isolated (self : PrefixCache) (scope : CacheScope) (tokens : List ℤ)
    (calls calls' : List StoreCall)
    (h : calls.filter (fun call => call.scope = scope) =
      calls'.filter (fun call => call.scope = scope)) :
    lookup (finalState (storeStep sha256) self calls) scope tokens =
      lookup (finalState (storeStep sha256) self calls') scope tokens := by
  refine lookup_eq_of_view_eq ?_ tokens
  apply view_finalState_eq_of_filter_eq (storeStep sha256) (scopeView scope)
    (fun call => call.scope ≠ scope)
  · exact fun s call hcall => storeStep_view_of_ne sha256 hcall
  · intro s t call hcall hview
    obtain rfl := not_not.mp hcall
    exact storeStep_view sha256 hview
  · simpa only [ne_eq, not_not] using h

/-- A permutation of all texts that sends these three to their SHA-256 digests. -/
def sampleSha256 : Equiv.Perm String :=
  Equiv.swap "m\x1fk\x1fa\x1facme\x1f10,20"
      "3bba9fc221c8b8fb96e32574c41ae5671e6d92f2a1610b60b1dc8e15b4acb7d8" *
    (Equiv.swap "m\x1fk\x1fa\x1fbeta\x1f10,20"
        "27fc2dd4e28eb659f09c410d8b363004bedb64e8ee0d69dcedfb52bcbe6568b2" *
      Equiv.swap "m\x1fk\x1fa\x1facme\x1f10,20,30,40"
        "fcaeafbcacecb28fa7b8654a62dcc9fc0cbf25b9d668c243f1160d1e34258c2d")

example : [[10, 20], [10, 20, 30, 40]].map (digest sampleSha256 ⟨"m", "k", "a", "acme"⟩) =
    ["3bba9fc221c8b8fb96e32574c41ae5671e6d92f2a1610b60b1dc8e15b4acb7d8",
      "fcaeafbcacecb28fa7b8654a62dcc9fc0cbf25b9d668c243f1160d1e34258c2d"] := by decide +kernel

theorem lookup_isolated_example :
    lookup (finalState (storeStep sampleSha256) ⟨2, .empty, two_pos⟩
        [⟨⟨"m", "k", "a", "acme"⟩, [10, 20, 30]⟩, ⟨⟨"m", "k", "a", "beta"⟩, [10, 20]⟩])
      ⟨"m", "k", "a", "beta"⟩ [10, 20, 30] =
    lookup (finalState (storeStep sampleSha256) ⟨2, .empty, two_pos⟩
        [⟨⟨"m", "k", "a", "beta"⟩, [10, 20]⟩]) ⟨"m", "k", "a", "beta"⟩ [10, 20, 30] :=
  lookup_isolated sampleSha256 _ _ _ _ _ (by decide)

/-! ### The entries after a history -/

/-- Under exactly this scope, a store of the history returned the key for these blocks. -/
def StoredAs (self : PrefixCache) (calls : List StoreCall) (scope : CacheScope) (p : List ℤ)
    (key : String) : Prop :=
  ∃ e ∈ trace (storeStep sha256) self calls, e.call.scope = scope ∧
    self.blockSize ≤ e.call.tokens.length ∧ completeTokens self.blockSize e.call.tokens = p ∧
    e.answer = .ok (some key)

/-- The texts hashed by the stores of a history. -/
def hashedTexts (self : PrefixCache) (calls : List StoreCall) : Set String :=
  {text | ∃ scope p key, StoredAs sha256 self calls scope p key ∧ text = material scope p}

theorem storeStep_blockSize (self : PrefixCache) (call : StoreCall) :
    (storeStep sha256 self call).2.blockSize = self.blockSize := by
  by_cases h : call.Accepted
  · rw [storeStep_of_accepted sha256 self call h]
    split_ifs <;> rfl
  · obtain ⟨e, he⟩ := storeStep_of_rejected sha256 call h
    rw [he self]

theorem finalState_blockSize (self : PrefixCache) (calls : List StoreCall) :
    (finalState (storeStep sha256) self calls).blockSize = self.blockSize :=
  finalState_induction (storeStep sha256) (I := fun s => s.blockSize = self.blockSize)
    (fun s call hs => (storeStep_blockSize sha256 s call).trans hs) self rfl calls

theorem storedAs_nil (self : PrefixCache) (scope : CacheScope) (p : List ℤ) (key : String) :
    ¬ StoredAs sha256 self [] scope p key := by
  rintro ⟨e, he, _⟩
  cases he

theorem storedAs_concat {self : PrefixCache} {calls : List StoreCall} {call : StoreCall}
    {scope : CacheScope} {p : List ℤ} {key : String} :
    StoredAs sha256 self (calls ++ [call]) scope p key ↔
      StoredAs sha256 self calls scope p key ∨ call.scope = scope ∧ call.Accepted ∧
        self.blockSize ≤ call.tokens.length ∧ completeTokens self.blockSize call.tokens = p ∧
        digest sha256 scope p = key := by
  have hblock := finalState_blockSize sha256 self calls
  unfold StoredAs
  rw [trace_append]
  simp only [List.mem_append, or_and_right, exists_or, trace, List.mem_singleton,
    exists_eq_left, storeStep_fst_eq_some, hblock]
  apply or_congr_right
  constructor
  · rintro ⟨rfl, hlen, rfl, haccepted, -, hkey⟩
    exact ⟨rfl, haccepted, hlen, rfl, hkey⟩
  · rintro ⟨rfl, haccepted, hlen, rfl, hkey⟩
    exact ⟨rfl, hlen, rfl, haccepted, hlen, hkey⟩

theorem StoredAs.append {self : PrefixCache} {calls : List StoreCall} {scope : CacheScope}
    {p : List ℤ} {key : String} (h : StoredAs sha256 self calls scope p key)
    (later : List StoreCall) : StoredAs sha256 self (calls ++ later) scope p key := by
  obtain ⟨e, he, hrest⟩ := h
  refine ⟨e, ?_, hrest⟩
  rw [trace_append]
  exact List.mem_append_left _ he

theorem hashedTexts_subset (self : PrefixCache) (calls later : List StoreCall) :
    hashedTexts sha256 self calls ⊆ hashedTexts sha256 self (calls ++ later) := by
  rintro _ ⟨scope, p, key, h, rfl⟩
  exact ⟨scope, p, key, h.append sha256 later, rfl⟩

/-- What every stored prefix is: non-empty complete blocks of non-negative tokens. -/
theorem StoredAs.spec {self : PrefixCache} {calls : List StoreCall} {scope : CacheScope}
    {p : List ℤ} {key : String} (h : StoredAs sha256 self calls scope p key) :
    p ≠ [] ∧ (∀ token ∈ p, 0 ≤ token) ∧ self.blockSize ∣ p.length ∧
      digest sha256 scope p = key := by
  induction calls using List.reverseRecOn with
  | nil => exact absurd h (storedAs_nil sha256 self scope p key)
  | append_singleton calls call ih =>
      rcases (storedAs_concat sha256).mp h with h | ⟨rfl, haccepted, hlen, rfl, hkey⟩
      · exact ih h
      · exact ⟨completeTokens_ne_nil self.blockSize_pos hlen,
          completeTokens_nonneg haccepted.2, dvd_length_completeTokens _ _, hkey⟩

/-- One successful store keeps the correspondence of entries and stored prefixes. -/
theorem get?_remember_iff {self now : PrefixCache} {calls : List StoreCall} {call : StoreCall}
    {scope : CacheScope} {p : List ℤ} {key : String} (haccepted : call.Accepted)
    (hlen : self.blockSize ≤ call.tokens.length)
    (hinj : Set.InjOn sha256 (hashedTexts sha256 self (calls ++ [call])))
    (hnow : now.entries.get? (scope, key) = some p ↔ StoredAs sha256 self calls scope p key) :
    (now.remember call.scope
        (digest sha256 call.scope (completeTokens self.blockSize call.tokens))
        (completeTokens self.blockSize call.tokens)).entries.get? (scope, key) = some p ↔
      StoredAs sha256 self calls scope p key ∨ call.scope = scope ∧ call.Accepted ∧
        self.blockSize ≤ call.tokens.length ∧ completeTokens self.blockSize call.tokens = p ∧
        digest sha256 scope p = key := by
  rw [PrefixCache.remember, OrderedDict.get?_set]
  by_cases hkey : (scope, key) = (call.scope,
      digest sha256 call.scope (completeTokens self.blockSize call.tokens))
  · rw [if_pos hkey, Option.some_inj]
    obtain ⟨rfl, rfl⟩ := Prod.mk.inj hkey
    constructor
    · rintro rfl
      exact Or.inr ⟨rfl, haccepted, hlen, rfl, rfl⟩
    · rintro (hold | ⟨-, -, -, hp, -⟩)
      · obtain ⟨hne, hpos, -, hdigest⟩ := hold.spec
        have hlast : StoredAs sha256 self (calls ++ [call]) call.scope
            (completeTokens self.blockSize call.tokens) _ :=
          (storedAs_concat sha256).mpr (Or.inr ⟨rfl, haccepted, hlen, rfl, rfl⟩)
        have htext := hinj ⟨_, _, _, hold.append sha256 [call], rfl⟩ ⟨_, _, _, hlast, rfl⟩ hdigest
        exact (material_inj hne (completeTokens_ne_nil self.blockSize_pos hlen) hpos
          (completeTokens_nonneg haccepted.2) htext).2.symm
      · exact hp
  · rw [if_neg hkey, hnow]
    refine (or_iff_left ?_).symm
    rintro ⟨rfl, -, -, rfl, rfl⟩
    exact hkey rfl

/-- Without collisions the entries of a scope are the prefixes stored under it. -/
theorem entries_get?_iff {self : PrefixCache} (hempty : self.entries = .empty)
    (calls : List StoreCall) (hinj : Set.InjOn sha256 (hashedTexts sha256 self calls))
    (scope : CacheScope) (p : List ℤ) (key : String) :
    (finalState (storeStep sha256) self calls).entries.get? (scope, key) = some p ↔
      StoredAs sha256 self calls scope p key := by
  induction calls using List.reverseRecOn generalizing scope p key with
  | nil =>
      rw [finalState_nil, hempty, OrderedDict.get?_empty]
      exact iff_of_false (by simp) (storedAs_nil sha256 self scope p key)
  | append_singleton calls call ih =>
      have ih' := ih (hinj.mono (hashedTexts_subset sha256 self calls [call]))
      have hblock := finalState_blockSize sha256 self calls
      rw [finalState_concat, storedAs_concat]
      by_cases haccepted : call.Accepted
      · rw [storeStep_of_accepted sha256 _ call haccepted, hblock]
        by_cases hlen : call.tokens.length < self.blockSize
        · rw [if_pos hlen, ih']
          exact (or_iff_left fun h => absurd h.2.2.1 (not_le.mpr hlen)).symm
        · rw [if_neg hlen]
          exact get?_remember_iff sha256 haccepted (not_lt.mp hlen) hinj (ih' scope p key)
      · obtain ⟨e, he⟩ := storeStep_of_rejected sha256 call haccepted
        rw [he, ih']
        exact (or_iff_left fun h => haccepted h.2.1).symm

/-! ### The longest stored prefix -/

theorem mem_candidates {self : PrefixCache} {scope : CacheScope} {tokens p : List ℤ}
    {key : String} : (key, p) ∈ candidates self scope tokens ↔
      self.entries.get? (scope, key) = some p ∧ p <+: tokens := by
  rw [candidates, List.mem_map, OrderedDict.get?_eq_some_iff]
  constructor
  · rintro ⟨⟨⟨entryScope, key'⟩, cached⟩, he, heq⟩
    obtain ⟨hmem, hentry⟩ := List.mem_filter.mp he
    obtain ⟨rfl, hle, htake⟩ := of_decide_eq_true hentry
    obtain ⟨rfl, rfl⟩ := Prod.mk.inj heq
    exact ⟨hmem, List.prefix_iff_eq_take.mpr htake.symm⟩
  · rintro ⟨hmem, hpre⟩
    refine ⟨((scope, key), p), List.mem_filter.mpr ⟨hmem, ?_⟩, rfl⟩
    exact decide_eq_true ⟨rfl, hpre.length_le, (List.prefix_iff_eq_take.mp hpre).symm⟩

def decisionOf (self : PrefixCache) (tokens : List ℤ) :
    Option (String × List ℤ) → PrefixDecision
  | none => ⟨0, tokens.length, none, "no exact in-scope prefix"⟩
  | some (key, cached) => ⟨cached.length, tokens.length - cached.length, some key,
      "reused " ++ toString (cached.length / self.blockSize) ++ " complete blocks"⟩

theorem lookup_of_accepted (self : PrefixCache) {scope : CacheScope} {tokens : List ℤ}
    (hscope : scope.Valid) (htokens : ∀ token ∈ tokens, 0 ≤ token) :
    lookup self scope tokens = .ok (decisionOf self tokens
      ((candidates self scope tokens).argmax (fun candidate => candidate.2.length))) := by
  unfold lookup validateScope
  rw [if_neg (by rw [CacheScope.any_isBlank_iff]; exact not_not_intro hscope),
    if_neg (by rw [any_negative_iff]; exact not_not_intro htokens)]
  cases (candidates self scope tokens).argmax (fun candidate => candidate.2.length) <;> rfl

/-- A lookup reports the longest entry of the scope that the tokens begin with. -/
theorem lookup_longest {self : PrefixCache} {scope : CacheScope} {tokens : List ℤ}
    (hscope : scope.Valid) (htokens : ∀ token ∈ tokens, 0 ≤ token)
    {stored : List ℤ → String → Prop}
    (hstored : ∀ p key, self.entries.get? (scope, key) = some p ↔ stored p key) :
    ∃ d, lookup self scope tokens = .ok d ∧
      ((∀ p key, stored p key → ¬ p <+: tokens) → d.reusedTokens = 0 ∧ d.cacheKey = none) ∧
      ((∃ p key, stored p key ∧ p <+: tokens) →
        IsGreatest {n | ∃ p key, stored p key ∧ p <+: tokens ∧ p.length = n} d.reusedTokens ∧
        ∃ key, d.cacheKey = some key ∧ stored (tokens.take d.reusedTokens) key) ∧
      d.reusedTokens + d.recomputeTokens = tokens.length := by
  have hmem (p : List ℤ) (key : String) :
      (key, p) ∈ candidates self scope tokens ↔ stored p key ∧ p <+: tokens := by
    rw [mem_candidates, hstored]
  refine ⟨_, lookup_of_accepted self hscope htokens, ?_⟩
  cases hmax : (candidates self scope tokens).argmax (fun candidate => candidate.2.length) with
  | none =>
      rw [List.argmax_eq_none] at hmax
      refine ⟨fun _ => ⟨rfl, rfl⟩, ?_, by simp [decisionOf]⟩
      rintro ⟨p, key, h⟩
      have hcandidate := (hmem p key).mpr h
      rw [hmax] at hcandidate
      cases hcandidate
  | some candidate =>
      obtain ⟨key, cached⟩ := candidate
      have hcached := (hmem cached key).mp (List.argmax_mem hmax)
      refine ⟨fun hnone => absurd hcached.2 (hnone cached key hcached.1), fun _ => ?_, ?_⟩
      · refine ⟨⟨⟨cached, key, hcached.1, hcached.2, rfl⟩, ?_⟩, key, rfl, ?_⟩
        · rintro _ ⟨p, key', hp, hpre, rfl⟩
          exact List.le_of_mem_argmax (f := fun candidate : String × List ℤ => candidate.2.length)
            ((hmem p key').mpr ⟨hp, hpre⟩) hmax
        · change stored (tokens.take cached.length) key
          rw [← List.prefix_iff_eq_take.mp hcached.2]
          exact hcached.1
      · change (cached.length : ℤ) + (tokens.length - cached.length) = tokens.length
        omega

theorem init_spec {blockSize : ℤ} {cache : PrefixCache}
    (h : PrefixCache.init blockSize = .ok cache) :
    (cache.blockSize : ℤ) = blockSize ∧ cache.entries = .empty := by
  unfold PrefixCache.init at h
  split_ifs at h with hpos
  obtain rfl := Except.ok.inj h
  exact ⟨Int.toNat_of_nonneg (not_le.mp hpos).le, rfl⟩

/-- Without collisions a lookup reuses the longest prefix stored under the scope, under the key
that its store returned, and later stores never shorten it. -/
theorem lookup_exact {blockSize : ℤ} {cache : PrefixCache}
    (hinit : PrefixCache.init blockSize = .ok cache) (calls later : List StoreCall)
    {scope : CacheScope} {tokens : List ℤ} (hscope : scope.Valid)
    (htokens : ∀ token ∈ tokens, 0 ≤ token)
    (hinj : Set.InjOn sha256 (hashedTexts sha256 cache (calls ++ later))) :
    ∃ d d',
      lookup (finalState (storeStep sha256) cache calls) scope tokens = .ok d ∧
      lookup (finalState (storeStep sha256) cache (calls ++ later)) scope tokens = .ok d' ∧
      ((∀ p key, StoredAs sha256 cache calls scope p key → ¬ p <+: tokens) →
        d.reusedTokens = 0 ∧ d.cacheKey = none) ∧
      ((∃ p key, StoredAs sha256 cache calls scope p key ∧ p <+: tokens) →
        IsGreatest {n | ∃ p key, StoredAs sha256 cache calls scope p key ∧ p <+: tokens ∧
          p.length = n} d.reusedTokens) ∧
      blockSize ∣ d.reusedTokens ∧
      d.reusedTokens + d.recomputeTokens = tokens.length ∧
      (0 < d.reusedTokens → ∃ key, d.cacheKey = some key ∧ ∀ key',
        StoredAs sha256 cache calls scope (tokens.take d.reusedTokens) key' ↔ key' = key) ∧
      d.reusedTokens ≤ d'.reusedTokens ∧
      ∀ p key, StoredAs sha256 cache calls scope p key →
        (finalState (storeStep sha256) cache (calls ++ later)).entries.get? (scope, key) =
          some p := by
  obtain ⟨hblock, hempty⟩ := init_spec hinit
  have hinj' := hinj.mono (hashedTexts_subset sha256 cache calls later)
  have hentries := entries_get?_iff sha256 hempty calls hinj' scope
  have hentries' := entries_get?_iff sha256 hempty (calls ++ later) hinj scope
  have hkept : ∀ p key, StoredAs sha256 cache calls scope p key →
      (finalState (storeStep sha256) cache (calls ++ later)).entries.get? (scope, key) = some p :=
    fun p key h => (hentries' p key).mpr (h.append sha256 later)
  obtain ⟨d, hd, hnone, hsome, hsum⟩ := lookup_longest hscope htokens hentries
  obtain ⟨d', hd', -, hsome', -⟩ := lookup_longest hscope htokens hentries'
  by_cases hstored : ∃ p key, StoredAs sha256 cache calls scope p key ∧ p <+: tokens
  · obtain ⟨hgreatest, key, hkey, hkeyed⟩ := hsome hstored
    obtain ⟨p, key', hp, hpre, hlen⟩ := hgreatest.1
    refine ⟨d, d', hd, hd', hnone, fun _ => hgreatest, ?_, hsum, fun _ => ⟨key, hkey, ?_⟩, ?_,
      hkept⟩
    · rw [← hblock, ← hlen]
      exact_mod_cast hp.spec.2.2.1
    · intro key''
      constructor
      · intro h
        rw [← hkeyed.spec.2.2.2, ← h.spec.2.2.2]
      · rintro rfl
        exact hkeyed
    · have hp' := hp.append sha256 later
      exact (hsome' ⟨p, key', hp', hpre⟩).1.2 ⟨p, key', hp', hpre, hlen⟩
  · have hzero : d.reusedTokens = 0 :=
      (hnone fun p key hp hpre => hstored ⟨p, key, hp, hpre⟩).1
    refine ⟨d, d', hd, hd', hnone, fun h => absurd h hstored, ?_, hsum, ?_, ?_, hkept⟩
    · rw [hzero]
      exact dvd_zero blockSize
    · exact fun hpos => absurd hzero hpos.ne'
    · rw [hzero]
      exact Nat.zero_le _

theorem lookup_exact_example :
    ∃ d d',
      lookup (finalState (storeStep sampleSha256) ⟨2, .empty, two_pos⟩
        [⟨⟨"m", "k", "a", "acme"⟩, [10, 20, 30]⟩]) ⟨"m", "k", "a", "acme"⟩ [10, 20, 40] = .ok d ∧
      lookup (finalState (storeStep sampleSha256) ⟨2, .empty, two_pos⟩
        [⟨⟨"m", "k", "a", "acme"⟩, [10, 20, 30]⟩, ⟨⟨"m", "k", "a", "acme"⟩, [-1]⟩,
          ⟨⟨"m", "k", "a", "beta"⟩, [10, 20]⟩]) ⟨"m", "k", "a", "acme"⟩ [10, 20, 40] = .ok d' ∧
      d.reusedTokens ≤ d'.reusedTokens := by
  have hinit : PrefixCache.init 2 = .ok ⟨2, .empty, two_pos⟩ := rfl
  have hscope : (⟨"m", "k", "a", "acme"⟩ : CacheScope).Valid := by
    unfold CacheScope.Valid
    decide
  have htokens : ∀ token ∈ [(10 : ℤ), 20, 40], 0 ≤ token := by decide
  obtain ⟨d, d', hd, hd', _, _, _, _, _, hle, _⟩ :=
    lookup_exact sampleSha256 hinit [⟨⟨"m", "k", "a", "acme"⟩, [10, 20, 30]⟩]
      [⟨⟨"m", "k", "a", "acme"⟩, [-1]⟩, ⟨⟨"m", "k", "a", "beta"⟩, [10, 20]⟩] hscope htokens
      sampleSha256.injective.injOn
  exact ⟨d, d', hd, hd', hle⟩

end PrefixCaching
