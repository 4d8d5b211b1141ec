import InferencePlatform.PrefixCacheMerging

/-!
# What the cache holds

Without collisions the cache is the list of the distinct complete prefixes stored, in the order in
which they were first stored: nothing is held twice and nothing is evicted. Nothing in it is idle
either, since lookups can tell any two caches with different contents apart.
-/

namespace PrefixCaching

open PythonBuiltins CallRuns LongestPrefix

variable (sha256 : String → String)

instance (call : StoreCall) : Decidable call.Accepted :=
  inferInstanceAs (Decidable ((∀ field ∈ call.scope.fields, isBlank field = false) ∧
    ∀ token ∈ call.tokens, 0 ≤ token))

/-- The prefix a call stores, when it does not raise and has a complete block. -/
def StoreCall.entry? (blockSize : ℕ) (call : StoreCall) : Option (CacheScope × List ℤ) :=
  if call.Accepted ∧ blockSize ≤ call.tokens.length then
    some (call.scope, completeTokens blockSize call.tokens)
  else none

def PrefixCache.contents (self : PrefixCache) : List (CacheScope × List ℤ) :=
  self.entries.items.map fun e => (e.1.1, e.2)

section Contents

variable {sha256} {cache self : PrefixCache} {calls calls' : List StoreCall} {scope : CacheScope}
  {p : List ℤ}

theorem mem_entries_iff : (scope, p) ∈ calls.filterMap (StoreCall.entry? cache.blockSize) ↔
    p ∈ stored sha256 cache calls scope := by
  simp only [List.mem_filterMap, StoreCall.entry?, Option.ite_none_right_eq_some,
    Option.some.injEq, Prod.mk.injEq, stored, Set.mem_ofPred_eq, storedAs_iff]
  constructor
  · rintro ⟨call, hcall, ⟨haccepted, hlen⟩, hscope, hp⟩
    exact ⟨_, call, hcall, hscope, haccepted, hlen, hp, rfl⟩
  · rintro ⟨key, call, hcall, hscope, haccepted, hlen, hp, -⟩
    exact ⟨call, hcall, ⟨haccepted, hlen⟩, hscope, hp⟩

theorem mem_contents_iff : (scope, p) ∈ self.contents ↔
    ∃ key, self.entries.get? (scope, key) = some p := by
  simp only [PrefixCache.contents, List.mem_map, Prod.exists, Prod.mk.injEq,
    OrderedDict.get?_eq_some_iff]
  constructor
  · rintro ⟨_, key, _, hmem, rfl, rfl⟩
    exact ⟨key, hmem⟩
  · rintro ⟨key, hmem⟩
    exact ⟨scope, key, p, hmem, rfl, rfl⟩

/-- A store of something new appends it, and a store of something held changes nothing. -/
theorem contents_remember (hkeyed : Keyed sha256 self)
    (hsame : ∀ q, self.entries.get? (scope, digest sha256 scope p) = some q → q = p) :
    (self.remember scope (digest sha256 scope p) p).contents =
      if (scope, p) ∈ self.contents then self.contents else self.contents ++ [(scope, p)] := by
  cases hget : self.entries.get? (scope, digest sha256 scope p) with
  | some q =>
      obtain rfl := hsame q hget
      rw [if_pos (mem_contents_iff.mpr ⟨_, hget⟩), PrefixCache.remember,
        OrderedDict.set_of_get? hget]
  | none =>
      have hnew : (scope, p) ∉ self.contents := by
        intro hmem
        obtain ⟨key, hkey⟩ := mem_contents_iff.mp hmem
        rw [hkeyed.key_eq scope key p hkey, hget] at hkey
        cases hkey
      rw [if_neg hnew, PrefixCache.contents, PrefixCache.remember,
        OrderedDict.items_set_of_not_mem _ (OrderedDict.get?_eq_none_iff.mp hget), List.map_append]
      rfl

section EraseDups

variable {α : Type} [BEq α] [LawfulBEq α]

theorem eraseDups_concat (xs : List α) (x : α) :
    (xs ++ [x]).eraseDups =
      if x ∈ xs.eraseDups then xs.eraseDups else xs.eraseDups ++ [x] := by
  rw [List.eraseDups_append, List.removeAll]
  by_cases hx : x ∈ xs
  · simp [hx]
  · simp [hx, List.eraseDups_cons]

theorem nodup_eraseDups (xs : List α) : xs.eraseDups.Nodup := by
  induction xs using List.reverseRecOn with
  | nil => exact List.nodup_nil
  | append_singleton xs x ih =>
      rw [eraseDups_concat]
      split_ifs with hx
      · exact ih
      · rw [← List.concat_eq_append]
        exact ih.concat hx

end EraseDups

/-- The contents are the distinct entries stored, in the order of their first stores: what a key
was stored for stays stored, so storing under it again changes nothing. -/
theorem contents_eq (hempty : cache.entries = .empty)
    (hinj : Set.InjOn sha256 (hashedTexts sha256 cache calls)) :
    (finalState (storeStep sha256) cache calls).contents =
      (calls.filterMap (StoreCall.entry? cache.blockSize)).eraseDups := by
  induction calls using List.reverseRecOn with
  | nil =>
      rw [finalState_nil, PrefixCache.contents, hempty]
      rfl
  | append_singleton calls call ih =>
      have hbefore := ih (hinj.mono (hashedTexts_subset sha256 cache calls [call]))
      rw [finalState_concat, List.filterMap_append]
      by_cases hstores : call.Accepted ∧ cache.blockSize ≤ call.tokens.length
      · have hentry : call.entry? cache.blockSize =
            some (call.scope, completeTokens cache.blockSize call.tokens) := if_pos hstores
        have hlast : StoredAs sha256 cache (calls ++ [call]) call.scope
            (completeTokens cache.blockSize call.tokens) _ :=
          (storedAs_concat sha256).mpr (Or.inr ⟨rfl, hstores.1, hstores.2, rfl, rfl⟩)
        have hafter := (entries_get?_iff sha256 hempty _ hinj _ _ _).mpr hlast
        have hkeyed : Keyed sha256 _ := finalState_keyed (keyed_of_empty hempty) calls
        rw [List.filterMap_cons_some hentry, List.filterMap_nil, eraseDups_concat, ← hbefore,
          storeStep_of_accepted sha256 _ call hstores.1,
          finalState_blockSize, if_neg (not_lt.mpr hstores.2)]
        refine contents_remember hkeyed fun q hq => ?_
        have hold := (storedAs_of_get? hempty hq).append sha256 [call]
        have hold' := (entries_get?_iff sha256 hempty _ hinj _ _ _).mpr hold
        exact Option.some.inj (hold'.symm.trans hafter)
      · have hentry : call.entry? cache.blockSize = none := if_neg hstores
        rw [List.filterMap_cons_none hentry, List.filterMap_nil, List.append_nil, ← hbefore]
        by_cases haccepted : call.Accepted
        · have hshort : call.tokens.length < cache.blockSize :=
            not_le.mp fun hlen => hstores ⟨haccepted, hlen⟩
          rw [storeStep_of_accepted sha256 _ call haccepted, finalState_blockSize, if_pos hshort]
        · obtain ⟨e, he⟩ := storeStep_of_rejected sha256 call haccepted
          rw [he]

theorem mem_contents_finalState_iff (hempty : cache.entries = .empty)
    (hinj : Set.InjOn sha256 (hashedTexts sha256 cache calls)) :
    (scope, p) ∈ (finalState (storeStep sha256) cache calls).contents ↔
      p ∈ stored sha256 cache calls scope := by
  rw [contents_eq hempty hinj, List.mem_eraseDups, mem_entries_iff]

theorem nodup_contents (hempty : cache.entries = .empty)
    (hinj : Set.InjOn sha256 (hashedTexts sha256 cache calls)) :
    (finalState (storeStep sha256) cache calls).contents.Nodup := by
  rw [contents_eq hempty hinj]
  exact nodup_eraseDups _

/-- If two histories answer alike, what one of them stored was stored by the other. -/
theorem stored_subset_of_lookup_eq (hempty : cache.entries = .empty)
    (hinj : Set.InjOn sha256 (hashedTexts sha256 cache calls))
    (hinj' : Set.InjOn sha256 (hashedTexts sha256 cache calls'))
    (hsame : ∀ tokens, lookup (finalState (storeStep sha256) cache calls) scope tokens =
      lookup (finalState (storeStep sha256) cache calls') scope tokens) :
    stored sha256 cache calls scope ⊆ stored sha256 cache calls' scope := by
  rintro p hp
  obtain ⟨key, hstored⟩ := hp
  obtain ⟨hne, hnonneg, -, -⟩ := hstored.spec
  obtain ⟨call, -, rfl, haccepted, -, -, -⟩ := storedAs_iff.mp hstored
  obtain ⟨n, hn, hlookup⟩ := lookup_stored hempty hinj haccepted.1 hnonneg
  obtain ⟨n', hn', hlookup'⟩ := lookup_stored hempty hinj' haccepted.1 hnonneg
  have hreuse := Except.ok.inj (hlookup.symm.trans ((hsame p).trans hlookup'))
  have hlength : n = n' := by simpa using congrArg PrefixDecision.reusedTokens hreuse
  rw [← hn'.eq_length_iff hne, ← hlength, hn.eq_length_iff hne]
  exact ⟨key, hstored⟩

end Contents

/-- A cache holds every distinct prefix ever stored, once and in the order of the first stores, and
two histories answer every lookup alike exactly when they hold the same prefixes, so no cache
with fewer entries can stand in for another. -/
theorem contents_exact {blockSize : ℤ} {cache : PrefixCache}
    (hinit : PrefixCache.init blockSize = .ok cache) (calls calls' : List StoreCall)
    (hinj : Set.InjOn sha256 (hashedTexts sha256 cache calls))
    (hinj' : Set.InjOn sha256 (hashedTexts sha256 cache calls')) :
    let now := finalState (storeStep sha256) cache calls
    let now' := finalState (storeStep sha256) cache calls'
    now.contents = (calls.filterMap (StoreCall.entry? cache.blockSize)).eraseDups ∧
    ((∀ scope tokens, lookup now scope tokens = lookup now' scope tokens) ↔
      now.contents.Perm now'.contents) := by
  intro now now'
  obtain ⟨-, hempty⟩ := init_spec hinit
  have hmem (scope : CacheScope) (p : List ℤ) : (scope, p) ∈ now.contents ↔
      p ∈ stored sha256 cache calls scope := mem_contents_finalState_iff hempty hinj
  have hmem' (scope : CacheScope) (p : List ℤ) : (scope, p) ∈ now'.contents ↔
      p ∈ stored sha256 cache calls' scope := mem_contents_finalState_iff hempty hinj'
  refine ⟨contents_eq hempty hinj, ?_⟩
  rw [List.perm_ext_iff_of_nodup (nodup_contents hempty hinj) (nodup_contents hempty hinj')]
  constructor
  · rintro hsame ⟨scope, p⟩
    rw [hmem, hmem']
    exact ⟨fun hp => stored_subset_of_lookup_eq hempty hinj hinj' (hsame scope) hp,
      fun hp => stored_subset_of_lookup_eq hempty hinj' hinj (fun t => (hsame scope t).symm) hp⟩
  · intro hsame scope tokens
    refine lookup_eq_of_stored_eq hempty hinj hinj' ?_ tokens
    ext p
    rw [← hmem, ← hmem', hsame]

theorem contents_exact_nested :
    let chat : StoreCall := ⟨⟨"m", "k", "a", "acme"⟩, [10, 20, 30]⟩
    let draft : StoreCall := ⟨⟨"m", "k", "a", "acme"⟩, [10, 20, 30, 40]⟩
    (finalState (storeStep sampleSha256) ⟨2, .empty, two_pos⟩ [draft, chat, draft]).contents =
      [(draft.scope, [10, 20, 30, 40]), (draft.scope, [10, 20])] ∧
    ¬ ∀ scope tokens,
      lookup (finalState (storeStep sampleSha256) ⟨2, .empty, two_pos⟩ [draft, chat, draft])
          scope tokens =
        lookup (finalState (storeStep sampleSha256) ⟨2, .empty, two_pos⟩ [draft])
          scope tokens := by
  intro chat draft
  obtain ⟨hcontents, hiff⟩ := contents_exact sampleSha256
    (show PrefixCache.init 2 = .ok ⟨2, .empty, two_pos⟩ from rfl) [draft, chat, draft] [draft]
    sampleSha256.injective.injOn sampleSha256.injective.injOn
  refine ⟨hcontents.trans (by decide +kernel), fun hsame => ?_⟩
  exact absurd (hiff.mp hsame).length_eq (by decide +kernel)

end PrefixCaching
