import InferencePlatform.OrderedDict
import Mathlib.Data.List.DropRight
import Mathlib.Data.List.MinMax
import Mathlib.Data.List.Sort
import Mathlib.Data.Rat.Floor
import Mathlib.Data.String.Basic
import Mathlib.Tactic

/-!
# Python built-ins

The exceptions, string methods and numeric functions that a Python program uses without
importing anything. A `Call` is a method call on an object of type `σ`: it returns or raises,
and either way it leaves the object in some state, so that a half-done update before an
exception would stay visible.
-/

/-- Raised exceptions. `valueErrorQuoting` is a message whose middle part is shown with `!r`. -/
inductive PyError
  | valueError (message : String)
  | valueErrorQuoting (before quoted after : String)
  | keyError (key : String)
  | indexError
  deriving DecidableEq, Repr

abbrev Call (σ α : Type) := ExceptT PyError (StateM σ) α

theorem Call.run_get_bind {σ α : Type} (f : σ → Call σ α) (s : σ) :
    (get >>= f : Call σ α).run s = (f s).run s := rfl

theorem Call.run_ite {σ α : Type} (p : Prop) [Decidable p] (m n : Call σ α) (s : σ) :
    (if p then m else n : Call σ α).run s = if p then m.run s else n.run s :=
  apply_ite (fun k : Call σ α => k.run s) p m n

theorem Except.bind_eq_ok_iff {ε α β : Type} {x : Except ε α} {f : α → Except ε β} {b : β} :
    (x >>= f) = .ok b ↔ ∃ a, x = .ok a ∧ f a = .ok b := by
  cases x with
  | ok a => exact ⟨fun h => ⟨a, rfl, h⟩, fun ⟨a', ha, h⟩ => Except.ok.inj ha ▸ h⟩
  | error e =>
      constructor
      · intro h
        cases h
      · rintro ⟨_, h, _⟩
        cases h

theorem Except.ite_throw_eq_ok_iff {ε α : Type} {p : Prop} [Decidable p] {e : ε}
    {x : Except ε α} {a : α} : (if p then throw e else x) = .ok a ↔ ¬ p ∧ x = .ok a := by
  by_cases h : p
  · rw [if_pos h]
    refine ⟨fun h' => ?_, fun h' => absurd h h'.1⟩
    cases h'
  · rw [if_neg h]
    exact ⟨fun h' => ⟨h, h'⟩, And.right⟩

namespace PythonBuiltins

/-- `d[k]` on a dictionary with string keys. -/
def getItem {ν : Type*} (d : OrderedDict String ν) (k : String) : Except PyError ν :=
  match d.get? k with
  | some v => pure v
  | none => throw (.keyError k)

theorem getItem_of_get? {ν : Type*} {d : OrderedDict String ν} {k : String} {v : ν}
    (h : d.get? k = some v) : getItem d k = .ok v := by
  rw [getItem, h]
  rfl

/-! ### Strings -/

/-- `str.isspace` on one character: the code points that `str.strip` removes. -/
def isSpace (c : Char) : Bool :=
  (9 ≤ c.toNat && c.toNat ≤ 13) || (28 ≤ c.toNat && c.toNat ≤ 32) || c.toNat == 0x85 ||
    c.toNat == 0xA0 || c.toNat == 0x1680 || (0x2000 ≤ c.toNat && c.toNat ≤ 0x200A) ||
    c.toNat == 0x2028 || c.toNat == 0x2029 || c.toNat == 0x202F || c.toNat == 0x205F ||
    c.toNat == 0x3000

def lstripChars (s : List Char) : List Char := s.dropWhile isSpace

def rstripChars (s : List Char) : List Char := s.rdropWhile isSpace

def strip (s : String) : String := String.ofList (rstripChars (lstripChars s.toList))

/-- `not s.strip()`. -/
def isBlank (s : String) : Bool := strip s = ""

theorem isBlank_iff (s : String) : isBlank s = true ↔ ∀ c ∈ s.toList, isSpace c = true := by
  have hempty (l : List Char) : String.ofList l = "" ↔ l = [] := by
    rw [← String.toList_inj, String.toList_ofList]
    rfl
  rw [isBlank, decide_eq_true_eq, strip, hempty, rstripChars, List.rdropWhile_eq_nil_iff,
    lstripChars]
  constructor
  · intro h c hc
    rw [← List.takeWhile_append_dropWhile (p := isSpace) (l := s.toList), List.mem_append] at hc
    rcases hc with hc | hc
    · exact List.mem_takeWhile_imp hc
    · exact h c hc
  · intro h c hc
    exact h c ((List.dropWhile_suffix isSpace).subset hc)

theorem isBlank_eq_false_iff (s : String) :
    isBlank s = false ↔ ∃ c ∈ s.toList, isSpace c = false := by
  rw [← Bool.not_eq_true, isBlank_iff]
  push Not
  simp only [ne_eq, Bool.not_eq_true]

/-! ### Names of growing length -/

/-- The names `"a"`, `"aa"`, `"aaa"`, … in the order of their lengths. -/
def repeatName (i : ℕ) : String := String.ofList (List.replicate (i + 1) 'a')

theorem repeatName_injective : Function.Injective repeatName := by
  intro i j h
  have hlen := congrArg (fun x : String => x.toList.length) h
  simpa [repeatName] using hlen

theorem isBlank_repeatName (i : ℕ) : isBlank (repeatName i) = false := by
  refine (isBlank_eq_false_iff _).mpr ⟨'a', ?_, by decide⟩
  simp [repeatName]

theorem replicate_le {m n : ℕ} (h : m ≤ n) : List.replicate m 'a' ≤ List.replicate n 'a' := by
  induction m generalizing n with
  | zero =>
      cases n with
      | zero => exact le_rfl
      | succ n => exact (List.nil_lt_cons 'a' _).le
  | succ m ih =>
      obtain ⟨k, rfl⟩ : ∃ k, n = k + 1 := ⟨n - 1, by omega⟩
      exact List.cons_le_cons 'a' (ih (by omega))

theorem repeatName_le {i j : ℕ} (h : i ≤ j) : repeatName i ≤ repeatName j := by
  rw [String.le_iff_toList_le]
  simp only [repeatName, String.toList_ofList]
  exact replicate_le (by omega)

/-- `needle in text`. -/
def contains (needle text : String) : Bool := needle.toList <:+: text.toList

/-! ### Numbers -/

/-- `min(x, *xs)`: the current value stays unless a later argument compares strictly less. -/
def pyMin {α : Type*} [LT α] [DecidableLT α] (x : α) (xs : List α) : α :=
  xs.foldl (fun m y => if y < m then y else m) x

theorem pyMin_lt_iff {α : Type*} [LinearOrder α] (x a : α) (xs : List α) :
    pyMin x xs < a ↔ x < a ∨ ∃ y ∈ xs, y < a := by
  unfold pyMin
  induction xs generalizing x with
  | nil => simp
  | cons y ys ih =>
      rw [List.foldl_cons, ih]
      simp only [List.mem_cons, exists_eq_or_imp, ← or_assoc]
      apply or_congr_left
      split_ifs with h
      · exact ⟨Or.inr, fun h' => h'.elim h.trans id⟩
      · exact ⟨Or.inl, fun h' => h'.elim id (not_lt.mp h).trans_lt⟩

theorem pyMin_le_iff {α : Type*} [LinearOrder α] (x a : α) (xs : List α) :
    pyMin x xs ≤ a ↔ x ≤ a ∨ ∃ y ∈ xs, y ≤ a := by
  unfold pyMin
  induction xs generalizing x with
  | nil => simp
  | cons y ys ih =>
      rw [List.foldl_cons, ih]
      simp only [List.mem_cons, exists_eq_or_imp, ← or_assoc]
      apply or_congr_left
      split_ifs with h
      · exact ⟨Or.inr, fun h' => h'.elim h.le.trans id⟩
      · exact ⟨Or.inl, fun h' => h'.elim id (not_lt.mp h).trans⟩

/-- `sorted(xs, key=key)`; insertion from the right keeps equal elements in order. -/
def sortedBy {α β : Type*} [LE β] [DecidableLE β] (key : α → β) (xs : List α) : List α :=
  xs.insertionSort (fun a b => key a ≤ key b)

section Sorted

variable {α β : Type*} [LinearOrder β] (key : α → β)

theorem sortedBy_perm (xs : List α) : (sortedBy key xs).Perm xs :=
  List.perm_insertionSort _ xs

theorem mem_sortedBy {xs : List α} {a : α} : a ∈ sortedBy key xs ↔ a ∈ xs :=
  (sortedBy_perm key xs).mem_iff

theorem pairwise_sortedBy (xs : List α) :
    (sortedBy key xs).Pairwise (fun a b => key a ≤ key b) := by
  have : Std.Total (fun a b => key a ≤ key b) := ⟨fun a b => le_total (key a) (key b)⟩
  have : IsTrans α (fun a b => key a ≤ key b) := ⟨fun _ _ _ => le_trans⟩
  exact List.pairwise_insertionSort _ xs

/-- With distinct keys, the order of the input does not matter. -/
theorem sortedBy_eq_of_perm {xs ys : List α} (h : xs.Perm ys)
    (hkey : ∀ a ∈ xs, ∀ b ∈ xs, key a = key b → a = b) : sortedBy key xs = sortedBy key ys := by
  apply List.Perm.eq_of_pairwise _ (pairwise_sortedBy key xs) (pairwise_sortedBy key ys)
    ((sortedBy_perm key xs).trans (h.trans (sortedBy_perm key ys).symm))
  intro a b ha hb hab hba
  have hb' : b ∈ xs := h.mem_iff.mpr ((mem_sortedBy key).mp hb)
  exact hkey a ((mem_sortedBy key).mp ha) b hb' (le_antisymm hab hba)

/-- With distinct keys, what sorts behind everything else can be sorted on its own. -/
theorem sortedBy_append {xs ys : List α} (h : ∀ a ∈ xs, ∀ b ∈ ys, key a < key b)
    (hkey : ∀ a ∈ xs ++ ys, ∀ b ∈ xs ++ ys, key a = key b → a = b) :
    sortedBy key (xs ++ ys) = sortedBy key xs ++ sortedBy key ys := by
  have hperm : (sortedBy key xs ++ sortedBy key ys).Perm (xs ++ ys) :=
    (sortedBy_perm key xs).append (sortedBy_perm key ys)
  have hsorted : (sortedBy key xs ++ sortedBy key ys).Pairwise (fun a b => key a ≤ key b) := by
    refine List.pairwise_append.mpr ⟨pairwise_sortedBy key xs, pairwise_sortedBy key ys, ?_⟩
    intro a ha b hb
    exact (h a ((mem_sortedBy key).mp ha) b ((mem_sortedBy key).mp hb)).le
  apply List.Perm.eq_of_pairwise _ (pairwise_sortedBy key _) hsorted
    ((sortedBy_perm key _).trans hperm.symm)
  intro a b ha hb hab hba
  exact hkey a ((mem_sortedBy key).mp ha) b (hperm.mem_iff.mp hb) (le_antisymm hab hba)

theorem sortedBy_map {γ : Type*} {key' : γ → β} {f : γ → α} {xs : List γ}
    (h : ∀ a ∈ xs, ∀ b ∈ xs, key' a ≤ key' b ↔ key (f a) ≤ key (f b)) :
    sortedBy key (xs.map f) = (sortedBy key' xs).map f :=
  (List.map_insertionSort _ _ f xs h).symm

end Sorted

/-- `len(set(xs)) == len(xs)`. -/
theorem dedup_length_eq_iff {α : Type*} [DecidableEq α] {xs : List α} :
    xs.dedup.length = xs.length ↔ xs.Nodup := by
  constructor
  · intro hlen
    exact List.dedup_eq_self.mp ((List.dedup_sublist xs).eq_of_length hlen)
  · intro hunique
    rw [hunique.dedup]

/-- `max(xs, key=key)`: the first of the greatest elements. -/
def maxBy {α β : Type*} [LinearOrder β] (key : α → β) (xs : List α) :
    Except PyError α :=
  match xs.argmax key with
  | some a => pure a
  | none => throw (.valueError "max() iterable argument is empty")

theorem maxBy_spec {α β : Type*} [LinearOrder β] {key : α → β} {xs : List α} {a : α}
    (h : maxBy key xs = .ok a) : a ∈ xs ∧ ∀ b ∈ xs, key b ≤ key a := by
  unfold maxBy at h
  split at h
  · rename_i hmax
    obtain rfl := Except.ok.inj h
    exact ⟨List.argmax_mem hmax, fun b hb => List.le_of_mem_argmax hb hmax⟩
  · cases h

theorem exists_maxBy {α β : Type*} [LinearOrder β] (key : α → β) {xs : List α} {a : α}
    (h : a ∈ xs) : ∃ b, maxBy key xs = .ok b := by
  unfold maxBy
  cases hmax : xs.argmax key with
  | some b => exact ⟨b, rfl⟩
  | none => exact absurd (List.argmax_eq_none.mp hmax) (List.ne_nil_of_mem h)

/-- `min(xs, key=key)`, the first of the least elements, where `xs` may be empty. -/
def minBy? {α β : Type*} [LinearOrder β] (key : α → β) (xs : List α) : Option α := xs.argmin key

theorem minBy?_spec {α β : Type*} [LinearOrder β] {key : α → β} {xs : List α} {a : α}
    (h : minBy? key xs = some a) : a ∈ xs ∧ ∀ b ∈ xs, key a ≤ key b :=
  ⟨List.argmin_mem h, fun _ hb => List.le_of_mem_argmin hb h⟩

theorem minBy?_eq_none_iff {α β : Type*} [LinearOrder β] {key : α → β} {xs : List α} :
    minBy? key xs = none ↔ xs = [] := List.argmin_eq_none

/-- With distinct keys, elements that are never the least do not matter. -/
theorem minBy?_congr {α β : Type*} [LinearOrder β] {key : α → β} (hkey : Function.Injective key)
    {xs ys : List α} (hxs : ∀ x ∈ xs, ∃ y ∈ ys, key y ≤ key x)
    (hys : ∀ y ∈ ys, ∃ x ∈ xs, key x ≤ key y) : minBy? key xs = minBy? key ys := by
  cases hx : minBy? key xs with
  | none =>
      symm
      rw [minBy?_eq_none_iff, List.eq_nil_iff_forall_not_mem]
      intro y hy
      obtain ⟨x, hx', -⟩ := hys y hy
      rw [minBy?_eq_none_iff.mp hx] at hx'
      cases hx'
  | some x =>
      obtain ⟨hxmem, hxleast⟩ := minBy?_spec hx
      obtain ⟨y', hy', hle⟩ := hxs x hxmem
      cases hy : minBy? key ys with
      | none =>
          rw [minBy?_eq_none_iff.mp hy] at hy'
          cases hy'
      | some y =>
          obtain ⟨hymem, hyleast⟩ := minBy?_spec hy
          obtain ⟨x', hx', hle'⟩ := hys y hymem
          rw [hkey (le_antisymm ((hxleast x' hx').trans hle') ((hyleast y' hy').trans hle))]

/-- `min(xs, key=key)`, which raises when there is no element. -/
def minBy {α β : Type*} [LinearOrder β] (key : α → β) (xs : List α) : Except PyError α :=
  match minBy? key xs with
  | some a => pure a
  | none => throw (.valueError "min() iterable argument is empty")

theorem minBy_spec {α β : Type*} [LinearOrder β] {key : α → β} {xs : List α} {a : α}
    (h : minBy key xs = .ok a) : a ∈ xs ∧ ∀ b ∈ xs, key a ≤ key b := by
  unfold minBy at h
  split at h
  · rename_i hmin
    obtain rfl := Except.ok.inj h
    exact minBy?_spec hmin
  · cases h

theorem exists_minBy {α β : Type*} [LinearOrder β] (key : α → β) {xs : List α} {a : α}
    (h : a ∈ xs) : ∃ b, minBy key xs = .ok b := by
  unfold minBy
  cases hmin : minBy? key xs with
  | some b => exact ⟨b, rfl⟩
  | none => exact absurd (minBy?_eq_none_iff.mp hmin) (List.ne_nil_of_mem h)

/-- `range(start, stop)`. -/
def pyRange (start stop : ℤ) : List ℤ :=
  (List.range (stop - start).toNat).map (fun i : ℕ => start + (i : ℤ))

theorem mem_pyRange {start stop i : ℤ} : i ∈ pyRange start stop ↔ start ≤ i ∧ i < stop := by
  simp only [pyRange, List.mem_map, List.mem_range]
  constructor
  · rintro ⟨n, hn, rfl⟩
    omega
  · rintro ⟨hstart, hstop⟩
    exact ⟨(i - start).toNat, by omega, by omega⟩

/-- The integer nearest to `q`, and the even one of two that are equally near. -/
def roundHalfEven (q : ℚ) : ℤ :=
  if q - ⌊q⌋ < 1 / 2 then ⌊q⌋
  else if 1 / 2 < q - ⌊q⌋ then ⌊q⌋ + 1
  else if ⌊q⌋ % 2 = 0 then ⌊q⌋ else ⌊q⌋ + 1

/-- `f"{q:.2f}"`. -/
def fixed2 (q : ℚ) : String :=
  let cents := roundHalfEven (|q| * 100)
  (if q < 0 then "-" else "") ++ toString (cents / 100) ++ "." ++
    (if cents % 100 < 10 then "0" else "") ++ toString (cents % 100)

example : fixed2 (5 / 4) = "1.25" ∧ fixed2 (-(1 / 1000)) = "-0.00" := by decide +kernel

end PythonBuiltins
