import InferencePlatform.CallRuns
import InferencePlatform.PythonBuiltins

/-!
# The prefix cache

`store` keeps the complete blocks of a token sequence under its scope and key, and `lookup`
answers from the entries of one scope. SHA-256 of the UTF-8 bytes in hexadecimal is a parameter
`sha256`. A history is a list of `StoreCall`s; calls that raise stay in it.
-/

namespace PrefixCaching

open PythonBuiltins

structure CacheScope where
  modelRevision : String
  tokenizerRevision : String
  adapterRevision : String
  tenant : String
  deriving DecidableEq, Repr

structure PrefixDecision where
  reusedTokens : ℕ
  recomputeTokens : ℤ
  cacheKey : Option String
  reason : String
  deriving DecidableEq, Repr

structure PrefixCache where
  blockSize : ℕ
  entries : OrderedDict (CacheScope × String) (List ℤ)
  blockSize_pos : 0 < blockSize

def PrefixCache.init (blockSize : ℤ) : Except PyError PrefixCache :=
  if h : blockSize ≤ 0 then throw (.valueError "block_size must be positive")
  else pure ⟨blockSize.toNat, .empty, by omega⟩

def CacheScope.fields (scope : CacheScope) : List String :=
  [scope.modelRevision, scope.tokenizerRevision, scope.adapterRevision, scope.tenant]

def validateScope {m : Type → Type} [Monad m] [MonadExcept PyError m] (scope : CacheScope) :
    m Unit :=
  if scope.fields.any isBlank then throw (.valueError "every cache scope field is required")
  else pure ()

/-- The text that is hashed for a scope and a token sequence. -/
def material (scope : CacheScope) (tokens : List ℤ) : String :=
  "\x1f".intercalate (scope.fields ++ [",".intercalate (tokens.map toString)])

section Calls

variable (sha256 : String → String)

def digest (scope : CacheScope) (tokens : List ℤ) : String := sha256 (material scope tokens)

def completeTokens (blockSize : ℕ) (tokens : List ℤ) : List ℤ :=
  tokens.take (tokens.length - tokens.length % blockSize)

def store (scope : CacheScope) (tokens : List ℤ) : Call PrefixCache (Option String) := do
  validateScope scope
  if tokens.any (· < 0) then
    throw (.valueError "token ids may not be negative")
  else
    let self ← get
    let complete := completeTokens self.blockSize tokens
    if tokens.length - tokens.length % self.blockSize = 0 then
      return none
    else
      let key := digest sha256 scope complete
      set { self with entries := self.entries.set (scope, key) complete }
      return some key

end Calls

/-- The entries of a scope that the tokens begin with, in the order of insertion. -/
def candidates (self : PrefixCache) (scope : CacheScope) (tokens : List ℤ) :
    List (String × List ℤ) :=
  (self.entries.items.filter fun ((entryScope, _), cached) =>
    entryScope = scope ∧ cached.length ≤ tokens.length ∧ tokens.take cached.length = cached).map
      fun ((_, key), cached) => (key, cached)

/-- `argmax` is `None` on no candidates and else the first of the longest ones, as `max` is. -/
def lookup (self : PrefixCache) (scope : CacheScope) (tokens : List ℤ) :
    Except PyError PrefixDecision := do
  validateScope scope
  if tokens.any (· < 0) then
    throw (.valueError "token ids may not be negative")
  else
    match (candidates self scope tokens).argmax (fun candidate => candidate.2.length) with
    | none => pure ⟨0, tokens.length, none, "no exact in-scope prefix"⟩
    | some (key, cached) =>
      pure ⟨cached.length, tokens.length - cached.length, some key,
        "reused " ++ toString (cached.length / self.blockSize) ++ " complete blocks"⟩

/-! ### Histories of stores -/

structure StoreCall where
  scope : CacheScope
  tokens : List ℤ
  deriving DecidableEq, Repr

def storeStep (sha256 : String → String) (self : PrefixCache) (call : StoreCall) :
    Except PyError (Option String) × PrefixCache :=
  (store sha256 call.scope call.tokens).run self

/-- The scopes that `validateScope` accepts. -/
def CacheScope.Valid (scope : CacheScope) : Prop := ∀ field ∈ scope.fields, isBlank field = false

/-- The calls that do not raise. -/
def StoreCall.Accepted (call : StoreCall) : Prop :=
  call.scope.Valid ∧ ∀ token ∈ call.tokens, 0 ≤ token

/-- The cache after `self._entries[(scope, key)] = complete`. -/
def PrefixCache.remember (self : PrefixCache) (scope : CacheScope) (key : String)
    (complete : List ℤ) : PrefixCache :=
  { self with entries := self.entries.set (scope, key) complete }

theorem CacheScope.any_isBlank_iff (scope : CacheScope) :
    scope.fields.any isBlank = true ↔ ¬ scope.Valid := by
  simp [Valid]

theorem any_negative_iff (tokens : List ℤ) :
    tokens.any (· < 0) = true ↔ ¬ ∀ token ∈ tokens, 0 ≤ token := by
  simp

section Steps

variable (sha256 : String → String) (self : PrefixCache) (call : StoreCall)

omit self in
theorem storeStep_of_rejected (h : ¬ call.Accepted) :
    ∃ e, ∀ self, storeStep sha256 self call = (.error e, self) := by
  unfold storeStep store validateScope
  by_cases hscope : call.scope.Valid
  · have hneg : ¬ ∀ token ∈ call.tokens, 0 ≤ token := fun htokens => h ⟨hscope, htokens⟩
    rw [if_neg (by rw [CacheScope.any_isBlank_iff]; exact not_not_intro hscope),
      if_pos ((any_negative_iff _).mpr hneg)]
    exact ⟨_, fun _ => rfl⟩
  · rw [if_pos ((CacheScope.any_isBlank_iff _).mpr hscope)]
    exact ⟨_, fun _ => rfl⟩

theorem storeStep_of_accepted (h : call.Accepted) :
    storeStep sha256 self call =
      if call.tokens.length < self.blockSize then (.ok none, self)
      else
        let complete := completeTokens self.blockSize call.tokens
        let key := digest sha256 call.scope complete
        (.ok (some key), self.remember call.scope key complete) := by
  have hshort : call.tokens.length - call.tokens.length % self.blockSize = 0 ↔
      call.tokens.length < self.blockSize := by
    constructor
    · intro hzero
      have hlt := Nat.mod_lt call.tokens.length self.blockSize_pos
      have hle := Nat.mod_le call.tokens.length self.blockSize
      omega
    · intro hlt
      rw [Nat.mod_eq_of_lt hlt, Nat.sub_self]
  unfold storeStep store validateScope
  rw [if_neg (by rw [CacheScope.any_isBlank_iff]; exact not_not_intro h.1),
    if_neg (by rw [any_negative_iff]; exact not_not_intro h.2)]
  refine (Call.run_ite _ _ _ _).trans ?_
  exact if_congr hshort rfl rfl

/-- A call returns a key when it does not raise and has a complete block. -/
theorem storeStep_fst_eq_some {key : String} :
    (storeStep sha256 self call).1 = .ok (some key) ↔
      call.Accepted ∧ self.blockSize ≤ call.tokens.length ∧
        digest sha256 call.scope (completeTokens self.blockSize call.tokens) = key := by
  by_cases h : call.Accepted
  · rw [storeStep_of_accepted sha256 self call h]
    by_cases hlen : call.tokens.length < self.blockSize
    · rw [if_pos hlen]
      simp [hlen]
    · rw [if_neg hlen]
      simp [h, not_lt.mp hlen]
  · obtain ⟨e, he⟩ := storeStep_of_rejected sha256 call h
    rw [he self]
    simp [h]

end Steps

theorem length_completeTokens (blockSize : ℕ) (tokens : List ℤ) :
    (completeTokens blockSize tokens).length = tokens.length - tokens.length % blockSize := by
  rw [completeTokens, List.length_take, min_eq_left (Nat.sub_le _ _)]

theorem dvd_length_completeTokens (blockSize : ℕ) (tokens : List ℤ) :
    blockSize ∣ (completeTokens blockSize tokens).length := by
  rw [length_completeTokens]
  exact Nat.dvd_sub_mod tokens.length

theorem completeTokens_ne_nil {blockSize : ℕ} (hpos : 0 < blockSize) {tokens : List ℤ}
    (h : blockSize ≤ tokens.length) : completeTokens blockSize tokens ≠ [] := by
  intro hnil
  have hlen := length_completeTokens blockSize tokens
  have hlt := Nat.mod_lt tokens.length hpos
  rw [hnil, List.length_nil] at hlen
  omega

theorem completeTokens_nonneg {blockSize : ℕ} {tokens : List ℤ}
    (h : ∀ token ∈ tokens, 0 ≤ token) : ∀ token ∈ completeTokens blockSize tokens, 0 ≤ token :=
  fun token htoken => h token (List.mem_of_mem_take htoken)

end PrefixCaching
