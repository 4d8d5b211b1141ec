import InferencePlatform.PrefixCache
import InferencePlatform.SeparatedText

/-!
# What a cache key identifies

The hashed text ends with the tokens, which contain no unit separator, so tokens and scope text
can be told apart. Inside the scope text a unit separator in a field can shift the boundary to
the next field. Since it counts as white space, it is harmless where the neighbouring piece
would be blank: before the model revision and after the tenant.
-/

namespace PrefixCaching

open PythonBuiltins SeparatedText

/-! ### The text of the tokens -/

def tokenText (tokens : List ℤ) : List Char :=
  [','].intercalate (tokens.map fun token => (toString token).toList)

def scopeText (scope : CacheScope) : List Char :=
  ['\x1f'].intercalate (scope.fields.map String.toList)

theorem toList_material (scope : CacheScope) (tokens : List ℤ) :
    (material scope tokens).toList = scopeText scope ++ '\x1f' :: tokenText tokens := by
  simp only [material, CacheScope.fields, List.cons_append, List.nil_append,
    String.toList_intercalate, List.map_cons, List.map_nil, List.map_map, scopeText, tokenText]
  rw [show "\x1f".toList = ['\x1f'] from rfl, show ",".toList = [','] from rfl]
  simp [List.intercalate_cons_cons, Function.comp_def]

theorem toString_token {token : ℤ} (h : 0 ≤ token) : toString token = token.toNat.repr := by
  obtain ⟨n, rfl⟩ := Int.eq_ofNat_of_zero_le h
  rfl

theorem isDigit_of_mem_token {token : ℤ} (h : 0 ≤ token) {c : Char}
    (hc : c ∈ (toString token).toList) : c.isDigit = true := by
  rw [toString_token h, Nat.toList_repr] at hc
  exact Nat.isDigit_of_mem_toDigits (by decide) (by decide) hc

theorem token_inj {token token' : ℤ} (h : 0 ≤ token) (h' : 0 ≤ token')
    (heq : (toString token).toList = (toString token').toList) : token = token' := by
  rw [toString_token h, toString_token h', Nat.toList_repr, Nat.toList_repr] at heq
  have hnat := congrArg (fun digits => Nat.ofDigitChars 10 digits 0) heq
  simp only [Nat.ofDigitChars_ten_toDigits] at hnat
  omega

theorem unitSeparator_not_mem_tokenText {tokens : List ℤ} (h : ∀ token ∈ tokens, 0 ≤ token) :
    '\x1f' ∉ tokenText tokens := by
  intro hmem
  rcases mem_intercalate hmem with hcomma | ⟨text, htext, hc⟩
  · exact absurd hcomma (by decide)
  · obtain ⟨token, htoken, rfl⟩ := List.mem_map.mp htext
    exact absurd (isDigit_of_mem_token (h token htoken) hc) (by decide)

theorem tokenText_inj {tokens tokens' : List ℤ} (hne : tokens ≠ []) (hne' : tokens' ≠ [])
    (h : ∀ token ∈ tokens, 0 ≤ token) (h' : ∀ token ∈ tokens', 0 ≤ token)
    (heq : tokenText tokens = tokenText tokens') : tokens = tokens' := by
  have hfree (l : List ℤ) (hl : ∀ token ∈ l, 0 ≤ token) :
      ∀ text ∈ l.map (fun token => (toString token).toList), ',' ∉ text := by
    intro text htext hc
    obtain ⟨token, htoken, rfl⟩ := List.mem_map.mp htext
    exact absurd (isDigit_of_mem_token (hl token htoken) hc) (by decide)
  have hsplit := congrArg (List.splitOn ',') heq
  rw [tokenText, tokenText, List.splitOn_intercalate ',' (hfree tokens h) (by simpa using hne),
    List.splitOn_intercalate ',' (hfree tokens' h') (by simpa using hne')] at hsplit
  clear heq hne hne'
  induction tokens generalizing tokens' with
  | nil => exact (List.map_eq_nil_iff.mp hsplit.symm).symm
  | cons token tokens ih =>
      cases tokens' with
      | nil => cases hsplit
      | cons token' tokens' =>
          obtain ⟨hhead, htail⟩ := List.cons.inj hsplit
          rw [token_inj (h token List.mem_cons_self) (h' token' List.mem_cons_self) hhead,
            ih (fun t ht => h t (List.mem_cons_of_mem _ ht))
              (fun t ht => h' t (List.mem_cons_of_mem _ ht)) htail]

/-- The hashed text determines the text of the scope and the tokens. -/
theorem material_inj {scope scope' : CacheScope} {tokens tokens' : List ℤ} (hne : tokens ≠ [])
    (hne' : tokens' ≠ []) (h : ∀ token ∈ tokens, 0 ≤ token) (h' : ∀ token ∈ tokens', 0 ≤ token)
    (heq : material scope tokens = material scope' tokens') :
    scopeText scope = scopeText scope' ∧ tokens = tokens' := by
  have htext := congrArg String.toList heq
  rw [toList_material, toList_material] at htext
  obtain ⟨hscope, htokens⟩ := append_sep_inj (unitSeparator_not_mem_tokenText h)
    (unitSeparator_not_mem_tokenText h') htext
  exact ⟨hscope, tokenText_inj hne hne' h h' htokens⟩

/-! ### The boundaries of the scope fields -/

/-- No unit separator where it could be read as the boundary of two fields. -/
def CacheScope.Unambiguous (scope : CacheScope) : Prop :=
  '\x1f' ∉ lstripChars scope.modelRevision.toList ∧ '\x1f' ∉ scope.tokenizerRevision.toList ∧
    '\x1f' ∉ scope.adapterRevision.toList ∧ '\x1f' ∉ rstripChars scope.tenant.toList

def NonBlank (chars : List Char) : Prop := ∃ c ∈ chars, isSpace c = false

theorem CacheScope.valid_iff (scope : CacheScope) :
    scope.Valid ↔ NonBlank scope.modelRevision.toList ∧ NonBlank scope.tokenizerRevision.toList ∧
      NonBlank scope.adapterRevision.toList ∧ NonBlank scope.tenant.toList := by
  simp only [Valid, fields, List.forall_mem_cons, List.not_mem_nil, false_implies, implies_true,
    and_true, isBlank_eq_false_iff, NonBlank]

theorem scope_eq_of_scopeText_eq {scope scope' : CacheScope} (h : scope.Valid)
    (h' : scope'.Valid) (hfree : scope.Unambiguous) (heq : scopeText scope = scopeText scope') :
    scope = scope' := by
  obtain ⟨hmodel, _, _, htenant⟩ := scope.valid_iff.mp h
  obtain ⟨hmodel', _, _, htenant'⟩ := scope'.valid_iff.mp h'
  obtain ⟨hfree₁, hfree₂, hfree₃, hfree₄⟩ := hfree
  have hmidfree : ∀ m ∈ [scope.tokenizerRevision.toList, scope.adapterRevision.toList],
      '\x1f' ∉ m := by
    simp [hfree₂, hfree₃]
  have hlen : [scope.tokenizerRevision.toList, scope.adapterRevision.toList].length =
      [scope'.tokenizerRevision.toList, scope'.adapterRevision.toList].length := rfl
  obtain ⟨hx, hmid, hz⟩ := eq_of_intercalate_eq hlen hmodel htenant hmodel' htenant'
    ⟨hfree₁, hmidfree, hfree₄⟩ heq
  simp only [List.cons.injEq, String.toList_inj, and_true] at hmid
  cases scope
  cases scope'
  simp only [CacheScope.mk.injEq]
  exact ⟨String.toList_inj.mp hx, hmid.1, hmid.2, String.toList_inj.mp hz⟩

/-- Other pieces with the same text make another scope. -/
theorem exists_scope_of_pieces {scope : CacheScope} {m k a n : List Char} (hm : NonBlank m)
    (hk : NonBlank k) (ha : NonBlank a) (hn : NonBlank n)
    (htext : ['\x1f'].intercalate [m, k, a, n] = scopeText scope)
    (hne : ¬ (m = scope.modelRevision.toList ∧ k = scope.tokenizerRevision.toList ∧
      a = scope.adapterRevision.toList ∧ n = scope.tenant.toList)) :
    ∃ scope' : CacheScope, scope'.Valid ∧ scope' ≠ scope ∧ scopeText scope' = scopeText scope := by
  have hfields : (CacheScope.mk (String.ofList m) (String.ofList k) (String.ofList a)
      (String.ofList n)).fields.map String.toList = [m, k, a, n] := by
    simp [CacheScope.fields]
  refine ⟨⟨String.ofList m, String.ofList k, String.ofList a, String.ofList n⟩, ?_, ?_, ?_⟩
  · rw [CacheScope.valid_iff]
    simp only [String.toList_ofList]
    exact ⟨hm, hk, ha, hn⟩
  · rintro rfl
    exact hne (by simp)
  · rw [scopeText, hfields, htext]

theorem NonBlank.append_left {u : List Char} (h : NonBlank u) (v : List Char) :
    NonBlank (u ++ v) := h.imp fun _ hc => ⟨List.mem_append_left _ hc.1, hc.2⟩

theorem NonBlank.append_right {v : List Char} (h : NonBlank v) (u : List Char) :
    NonBlank (u ++ v) := h.imp fun _ hc => ⟨List.mem_append_right _ hc.1, hc.2⟩

theorem NonBlank.of_append_sep {u v : List Char} (h : NonBlank (u ++ '\x1f' :: v)) :
    NonBlank u ∨ NonBlank v := by
  obtain ⟨c, hc, hspace⟩ := h
  rcases List.mem_append.mp hc with hc | hc
  · exact Or.inl ⟨c, hc, hspace⟩
  · rcases List.mem_cons.mp hc with rfl | hc
    · exact absurd hspace (by decide)
    · exact Or.inr ⟨c, hc, hspace⟩

theorem split_lstripChars {x : List Char} (h : '\x1f' ∈ lstripChars x) :
    ∃ u v, x = u ++ '\x1f' :: v ∧ NonBlank u := by
  obtain ⟨u, v, huv⟩ := List.append_of_mem h
  refine ⟨x.takeWhile isSpace ++ u, v, ?_, ?_⟩
  · rw [List.append_assoc, ← huv, lstripChars, List.takeWhile_append_dropWhile]
  · exact NonBlank.append_right (exists_of_dropWhile_eq (by decide) huv) _

theorem split_rstripChars {x : List Char} (h : '\x1f' ∈ rstripChars x) :
    ∃ u v, x = u ++ '\x1f' :: v ∧ NonBlank v := by
  obtain ⟨u, v, huv⟩ := List.append_of_mem h
  refine ⟨u, v ++ x.rtakeWhile isSpace, ?_, ?_⟩
  · rw [← List.cons_append, ← List.append_assoc, ← huv, rstripChars,
      List.rdropWhile_append_rtakeWhile]
  · exact NonBlank.append_left (exists_of_rdropWhile_eq (by decide) huv) _

/-- Where the condition fails, a field boundary can be moved to an inner separator. -/
theorem exists_other_scope {scope : CacheScope} (h : scope.Valid) (hamb : ¬ scope.Unambiguous) :
    ∃ scope' : CacheScope, scope'.Valid ∧ scope' ≠ scope ∧ scopeText scope' = scopeText scope := by
  obtain ⟨hm, hk, ha, hn⟩ := scope.valid_iff.mp h
  have htext : scopeText scope = ['\x1f'].intercalate [scope.modelRevision.toList,
    scope.tokenizerRevision.toList, scope.adapterRevision.toList, scope.tenant.toList] := rfl
  have hshort (u v : List Char) : u ≠ u ++ '\x1f' :: v := by simp
  have hshort' (u v : List Char) : v ≠ u ++ '\x1f' :: v := by
    intro hv
    have hlen := congrArg List.length hv
    rw [List.length_append, List.length_cons] at hlen
    omega
  have hcases : '\x1f' ∈ lstripChars scope.modelRevision.toList ∨
      '\x1f' ∈ scope.tokenizerRevision.toList ∨ '\x1f' ∈ scope.adapterRevision.toList ∨
      '\x1f' ∈ rstripChars scope.tenant.toList := by
    by_contra! hnone
    exact hamb hnone
  rcases hcases with hmem | hmem | hmem | hmem
  · obtain ⟨u, v, hsplit, hu⟩ := split_lstripChars hmem
    refine exists_scope_of_pieces hu (hk.append_right (v ++ ['\x1f'])) ha hn ?_ ?_
    · rw [htext, hsplit]
      simp [List.intercalate_cons_cons]
    · exact fun heq => hshort u v (heq.1.trans hsplit)
  · obtain ⟨u, v, hsplit⟩ := List.append_of_mem hmem
    rcases (hsplit ▸ hk).of_append_sep with hu | hv
    · refine exists_scope_of_pieces hm hu (ha.append_right (v ++ ['\x1f'])) hn ?_ ?_
      · rw [htext, hsplit]
        simp [List.intercalate_cons_cons]
      · exact fun heq => hshort u v (heq.2.1.trans hsplit)
    · refine exists_scope_of_pieces (hm.append_left ('\x1f' :: u)) hv ha hn ?_ ?_
      · rw [htext, hsplit]
        simp [List.intercalate_cons_cons]
      · exact fun heq => hshort' u v (heq.2.1.trans hsplit)
  · obtain ⟨u, v, hsplit⟩ := List.append_of_mem hmem
    rcases (hsplit ▸ ha).of_append_sep with hu | hv
    · refine exists_scope_of_pieces hm hk hu (hn.append_right (v ++ ['\x1f'])) ?_ ?_
      · rw [htext, hsplit]
        simp [List.intercalate_cons_cons]
      · exact fun heq => hshort u v (heq.2.2.1.trans hsplit)
    · refine exists_scope_of_pieces hm (hk.append_left ('\x1f' :: u)) hv hn ?_ ?_
      · rw [htext, hsplit]
        simp [List.intercalate_cons_cons]
      · exact fun heq => hshort' u v (heq.2.2.1.trans hsplit)
  · obtain ⟨u, v, hsplit, hv⟩ := split_rstripChars hmem
    refine exists_scope_of_pieces hm hk (ha.append_left ('\x1f' :: u)) hv ?_ ?_
    · rw [htext, hsplit]
      simp [List.intercalate_cons_cons]
    · exact fun heq => hshort' u v (heq.2.2.2.trans hsplit)

/-! ### What the text and the key identify -/

/-- Only this scope with these tokens is hashed from the same text. -/
def TextIdentifies (scope : CacheScope) (tokens : List ℤ) : Prop :=
  ∀ (scope' : CacheScope) (tokens' : List ℤ), scope'.Valid → tokens' ≠ [] →
    (∀ token ∈ tokens', 0 ≤ token) → material scope tokens = material scope' tokens' →
    scope = scope' ∧ tokens = tokens'

/-- Stores that return a key of this scope have this scope and the same complete blocks, as long
as the hash does not collide on the two texts. -/
def KeyIdentifies (sha256 : String → String) (scope : CacheScope) : Prop :=
  ∀ (self self' : PrefixCache) (tokens tokens' : List ℤ) (scope' : CacheScope) (key : String),
    let complete := completeTokens self.blockSize tokens
    let complete' := completeTokens self'.blockSize tokens'
    (sha256 (material scope complete) = sha256 (material scope' complete') →
      material scope complete = material scope' complete') →
    (storeStep sha256 self ⟨scope, tokens⟩).1 = .ok (some key) →
    (storeStep sha256 self' ⟨scope', tokens'⟩).1 = .ok (some key) →
    scope = scope' ∧ complete = complete'

theorem material_eq_of_scopeText_eq {scope scope' : CacheScope}
    (h : scopeText scope = scopeText scope') (tokens : List ℤ) :
    material scope tokens = material scope' tokens := by
  rw [← String.toList_inj, toList_material, toList_material, h]

theorem unambiguous_of_keyIdentifies {sha256 : String → String} {scope : CacheScope}
    (hscope : scope.Valid) (h : KeyIdentifies sha256 scope) : scope.Unambiguous := by
  by_contra hamb
  obtain ⟨scope', hscope', hne, htext⟩ := exists_other_scope hscope hamb
  let self : PrefixCache := ⟨1, .empty, one_pos⟩
  have hblock : completeTokens 1 [0] = [0] := by decide
  have hkey (s : CacheScope) (hs : s.Valid) :
      (storeStep sha256 self ⟨s, [0]⟩).1 = .ok (some (digest sha256 s [0])) :=
    (storeStep_fst_eq_some sha256 self ⟨s, [0]⟩).mpr
      ⟨⟨hs, by simp⟩, le_rfl, congrArg (digest sha256 s) hblock⟩
  have hkey' := hkey scope' hscope'
  rw [digest, material_eq_of_scopeText_eq htext] at hkey'
  have hsame := material_eq_of_scopeText_eq htext.symm (completeTokens self.blockSize [0])
  exact hne (h self self [0] [0] scope' _ (fun _ => hsame) (hkey scope hscope) hkey').1.symm

theorem keyIdentifies_of_unambiguous {sha256 : String → String} {scope : CacheScope}
    (hscope : scope.Valid) (h : scope.Unambiguous) : KeyIdentifies sha256 scope := by
  intro self self' tokens tokens' scope' key _ _ hinj hkey hkey'
  obtain ⟨⟨-, htokens⟩, hlen, rfl⟩ := (storeStep_fst_eq_some _ _ _).mp hkey
  obtain ⟨⟨hscope', htokens'⟩, hlen', heq⟩ := (storeStep_fst_eq_some _ _ _).mp hkey'
  obtain ⟨htext, hcomplete⟩ := material_inj
    (completeTokens_ne_nil self.blockSize_pos hlen)
    (completeTokens_ne_nil self'.blockSize_pos hlen')
    (completeTokens_nonneg htokens) (completeTokens_nonneg htokens') (hinj heq.symm)
  exact ⟨scope_eq_of_scopeText_eq hscope hscope' h htext, hcomplete⟩

/-- Text and key identify scope and tokens exactly when no field of the scope has a unit
separator that can be read as a field boundary. -/
theorem identifies_iff {scope : CacheScope} {tokens : List ℤ} (hscope : scope.Valid)
    (hne : tokens ≠ []) (htokens : ∀ token ∈ tokens, 0 ≤ token) :
    (TextIdentifies scope tokens ↔ scope.Unambiguous) ∧
      ∀ sha256 : String → String, KeyIdentifies sha256 scope ↔ scope.Unambiguous := by
  refine ⟨⟨fun h => ?_, fun h => ?_⟩, fun sha256 =>
    ⟨unambiguous_of_keyIdentifies hscope, keyIdentifies_of_unambiguous hscope⟩⟩
  · by_contra hamb
    obtain ⟨scope', hscope', hother, htext⟩ := exists_other_scope hscope hamb
    have heq := material_eq_of_scopeText_eq htext.symm tokens
    exact hother (h scope' tokens hscope' hne htokens heq).1.symm
  · intro scope' tokens' hscope' hne' htokens' heq
    obtain ⟨htext, rfl⟩ := material_inj hne hne' htokens htokens' heq
    exact ⟨scope_eq_of_scopeText_eq hscope hscope' h htext, rfl⟩

theorem identifies_iff_plain :
    TextIdentifies ⟨"model@abc", "tokenizer@1", "adapter:none", "acme"⟩ [10, 20] ↔
      CacheScope.Unambiguous ⟨"model@abc", "tokenizer@1", "adapter:none", "acme"⟩ :=
  (identifies_iff (by unfold CacheScope.Valid; decide) (by decide) (by decide)).1

/-- A unit separator moves from the adapter to the tenant without a change of the text. -/
theorem identifies_fails :
    ¬ ∀ (scope scope' : CacheScope) (tokens tokens' : List ℤ), scope.Valid → scope'.Valid →
      tokens ≠ [] → tokens' ≠ [] → (∀ token ∈ tokens, 0 ≤ token) →
      (∀ token ∈ tokens', 0 ≤ token) → material scope tokens = material scope' tokens' →
      scope = scope' ∧ tokens = tokens' := by
  intro h
  have heq := h ⟨"m", "k", "a\x1fb", "c"⟩ ⟨"m", "k", "a", "b\x1fc"⟩ [1] [1]
    (by unfold CacheScope.Valid; decide) (by unfold CacheScope.Valid; decide)
    (by decide) (by decide) (by decide) (by decide) (by decide)
  exact absurd heq.1 (by decide)

end PrefixCaching
