import Mathlib.Algebra.BigOperators.Group.List.Basic
import Mathlib.Algebra.Order.BigOperators.Group.List
import Mathlib.Data.List.Nodup
import Mathlib.Tactic

/-!
# Dictionaries that keep the order of insertion

A dictionary is a list of items with distinct keys. Writing to a present key replaces the value
where it stands and writing to a new key appends an item, so iteration follows the order in
which keys were first written; an association list that inserts at its head would lose that
order. `get?_eq_some_iff` ties lookups to the items, and `total` adds a weight over the values.
-/

structure OrderedDict (κ ν : Type*) where
  items : List (κ × ν)
  nodup_keys : (items.map Prod.fst).Nodup

namespace OrderedDict

variable {κ ν : Type*}

@[ext] theorem ext {d e : OrderedDict κ ν} (h : d.items = e.items) : d = e := by
  cases d
  cases e
  simp only at h
  subst h
  rfl

def empty : OrderedDict κ ν := ⟨[], List.nodup_nil⟩

def keys (d : OrderedDict κ ν) : List κ := d.items.map Prod.fst

def values (d : OrderedDict κ ν) : List ν := d.items.map Prod.snd

theorem mem_keys_of_mem {d : OrderedDict κ ν} {k : κ} {v : ν} (h : (k, v) ∈ d.items) :
    k ∈ d.keys := List.mem_map_of_mem (f := Prod.fst) h

theorem mem_keys_iff {d : OrderedDict κ ν} {k : κ} : k ∈ d.keys ↔ ∃ v, (k, v) ∈ d.items := by
  simp only [keys, List.mem_map, Prod.exists, exists_and_right, exists_eq_right]

theorem value_unique {d : OrderedDict κ ν} {k : κ} {v w : ν} (hv : (k, v) ∈ d.items)
    (hw : (k, w) ∈ d.items) : v = w := by
  have h := List.inj_on_of_nodup_map d.nodup_keys hv hw rfl
  exact congrArg Prod.snd h

/-- No other item shares the key of an item. -/
theorem ne_of_split {d : OrderedDict κ ν} {pre post : List (κ × ν)} {k : κ} {v : ν}
    (h : d.items = pre ++ (k, v) :: post) : (∀ e ∈ pre, e.1 ≠ k) ∧ ∀ e ∈ post, e.1 ≠ k := by
  have hnd := d.nodup_keys
  rw [h, List.map_append, List.map_cons, List.nodup_append] at hnd
  refine ⟨fun e he => hnd.2.2 e.1 (List.mem_map_of_mem he) k List.mem_cons_self, ?_⟩
  intro e he hk
  have hmem := List.mem_map_of_mem (f := Prod.fst) he
  rw [hk] at hmem
  exact (List.nodup_cons.mp hnd.2.1).1 hmem

variable [DecidableEq κ]

def get? (d : OrderedDict κ ν) (k : κ) : Option ν :=
  (d.items.find? (fun e => e.1 = k)).map Prod.snd

theorem get?_eq_some_iff {d : OrderedDict κ ν} {k : κ} {v : ν} :
    d.get? k = some v ↔ (k, v) ∈ d.items := by
  unfold get?
  constructor
  · intro h
    obtain ⟨e, he, rfl⟩ := Option.map_eq_some_iff.mp h
    have hk : e.1 = k := by simpa using List.find?_some he
    have hmem := List.mem_of_find?_eq_some he
    rwa [← hk]
  · intro h
    cases hf : d.items.find? (fun e => e.1 = k) with
    | none =>
        have := List.find?_eq_none.mp hf (k, v) h
        simp at this
    | some e =>
        have hk : e.1 = k := by simpa using List.find?_some hf
        have hmem : (k, e.2) ∈ d.items := by
          have := List.mem_of_find?_eq_some hf
          rwa [← hk]
        rw [Option.map_some, value_unique hmem h]

theorem get?_eq_none_iff {d : OrderedDict κ ν} {k : κ} : d.get? k = none ↔ k ∉ d.keys := by
  rw [Option.eq_none_iff_forall_ne_some, mem_keys_iff, not_exists]
  exact forall_congr' fun v => not_congr get?_eq_some_iff

theorem get?_isSome_iff {d : OrderedDict κ ν} {k : κ} : (d.get? k).isSome ↔ k ∈ d.keys := by
  rw [← not_iff_not, Bool.not_eq_true, Option.isSome_eq_false_iff, Option.isNone_iff_eq_none,
    get?_eq_none_iff]

@[simp] theorem get?_empty (k : κ) : (empty : OrderedDict κ ν).get? k = none := rfl

/-! ### Writing -/

def replace (d : OrderedDict κ ν) (k : κ) (v : ν) : OrderedDict κ ν where
  items := d.items.map (fun e => if e.1 = k then (k, v) else e)
  nodup_keys := by
    have h : (d.items.map (fun e => if e.1 = k then (k, v) else e)).map Prod.fst =
        d.items.map Prod.fst := by
      rw [List.map_map]
      apply List.map_congr_left
      intro e _
      by_cases he : e.1 = k
      · simp [he]
      · simp [he]
    rw [h]
    exact d.nodup_keys

def append (d : OrderedDict κ ν) (k : κ) (v : ν) (h : k ∉ d.keys) : OrderedDict κ ν where
  items := d.items ++ [(k, v)]
  nodup_keys := by
    rw [List.map_append, List.map_singleton]
    exact List.nodup_append.mpr ⟨d.nodup_keys, List.nodup_singleton _, by
      intro a ha b hb hab
      rw [List.mem_singleton] at hb
      rw [hab, hb] at ha
      exact h ha⟩

def set (d : OrderedDict κ ν) (k : κ) (v : ν) : OrderedDict κ ν :=
  if h : k ∈ d.keys then d.replace k v else d.append k v h

theorem set_of_mem {d : OrderedDict κ ν} {k : κ} (v : ν) (h : k ∈ d.keys) :
    d.set k v = d.replace k v := dif_pos h

theorem items_set_of_not_mem {d : OrderedDict κ ν} {k : κ} (v : ν) (h : k ∉ d.keys) :
    (d.set k v).items = d.items ++ [(k, v)] := by
  rw [set, dif_neg h]
  rfl

theorem mem_items_set {d : OrderedDict κ ν} {k k' : κ} {v v' : ν} :
    (k', v') ∈ (d.set k v).items ↔
      (k' = k ∧ v' = v) ∨ (k' ≠ k ∧ (k', v') ∈ d.items) := by
  by_cases h : k ∈ d.keys
  · rw [set_of_mem v h]
    simp only [replace, List.mem_map]
    constructor
    · rintro ⟨e, he, heq⟩
      by_cases hk : e.1 = k
      · rw [if_pos hk] at heq
        exact Or.inl ⟨(congrArg Prod.fst heq).symm, (congrArg Prod.snd heq).symm⟩
      · rw [if_neg hk] at heq
        subst heq
        exact Or.inr ⟨hk, he⟩
    · rintro (⟨rfl, rfl⟩ | ⟨hk, hmem⟩)
      · obtain ⟨w, hw⟩ := mem_keys_iff.mp h
        exact ⟨(k', w), hw, if_pos rfl⟩
      · exact ⟨(k', v'), hmem, if_neg hk⟩
  · rw [items_set_of_not_mem v h, List.mem_append, List.mem_singleton, Prod.mk.injEq, or_comm]
    refine or_congr_right ⟨fun hmem => ⟨?_, hmem⟩, And.right⟩
    rintro rfl
    exact h (mem_keys_of_mem hmem)

theorem get?_set (d : OrderedDict κ ν) (k k' : κ) (v : ν) :
    (d.set k v).get? k' = if k' = k then some v else d.get? k' := by
  apply Option.ext
  intro w
  rw [get?_eq_some_iff, mem_items_set]
  split_ifs with hk
  · simp [hk, eq_comm]
  · simp [hk, get?_eq_some_iff]

@[simp] theorem get?_set_self (d : OrderedDict κ ν) (k : κ) (v : ν) :
    (d.set k v).get? k = some v := by rw [get?_set, if_pos rfl]

theorem get?_set_of_ne (d : OrderedDict κ ν) {k k' : κ} (v : ν) (h : k' ≠ k) :
    (d.set k v).get? k' = d.get? k' := by rw [get?_set, if_neg h]

/-! ### Deleting -/

def erase (d : OrderedDict κ ν) (k : κ) : OrderedDict κ ν where
  items := d.items.filter (fun e => e.1 ≠ k)
  nodup_keys := d.nodup_keys.sublist (List.filter_sublist.map Prod.fst)

theorem mem_items_erase {d : OrderedDict κ ν} {k : κ} {e : κ × ν} :
    e ∈ (d.erase k).items ↔ e ∈ d.items ∧ e.1 ≠ k := by
  simp only [erase, List.mem_filter, decide_eq_true_eq]

theorem get?_erase (d : OrderedDict κ ν) (k k' : κ) :
    (d.erase k).get? k' = if k' = k then none else d.get? k' := by
  apply Option.ext
  intro w
  rw [get?_eq_some_iff, mem_items_erase]
  split_ifs with hk
  · simp [hk]
  · simp [hk, get?_eq_some_iff]

theorem get?_erase_of_ne (d : OrderedDict κ ν) {k k' : κ} (h : k' ≠ k) :
    (d.erase k).get? k' = d.get? k' := by rw [get?_erase, if_neg h]

/-! ### Loops over the items -/

omit [DecidableEq κ] in
theorem exists_split_of_mem_keys {d : OrderedDict κ ν} {k : κ} (hk : k ∈ d.keys) :
    ∃ w pre post, d.items = pre ++ (k, w) :: post := by
  obtain ⟨w, hw⟩ := mem_keys_iff.mp hk
  exact ⟨w, List.append_of_mem hw⟩

theorem items_set_of_split {d : OrderedDict κ ν} {pre post : List (κ × ν)} {k : κ} {v : ν}
    (h : d.items = pre ++ (k, v) :: post) (w : ν) : (d.set k w).items = pre ++ (k, w) :: post := by
  have hmem : k ∈ d.keys := mem_keys_of_mem (v := v) (by rw [h]; simp)
  have hother (l : List (κ × ν)) (hl : ∀ e ∈ l, e.1 ≠ k) :
      l.map (fun e => if e.1 = k then (k, w) else e) = l := by
    conv_rhs => rw [← List.map_id l]
    exact List.map_congr_left fun e he => if_neg (hl e he)
  obtain ⟨hpre, hpost⟩ := ne_of_split h
  rw [set_of_mem w hmem]
  change d.items.map (fun e => if e.1 = k then (k, w) else e) = _
  rw [h, List.map_append, List.map_cons, if_pos rfl, hother pre hpre, hother post hpost]

theorem set_of_get? {d : OrderedDict κ ν} {k : κ} {v : ν} (h : d.get? k = some v) :
    d.set k v = d := by
  obtain ⟨pre, post, hsplit⟩ := List.append_of_mem (get?_eq_some_iff.mp h)
  exact ext ((items_set_of_split hsplit v).trans hsplit.symm)

/-- Rewriting some of the values while looping over a snapshot of the items. -/
theorem items_foldl_set (p : κ × ν → Prop) [DecidablePred p] (f : κ × ν → ν)
    (d : OrderedDict κ ν) (pre post : List (κ × ν)) (h : d.items = pre ++ post) :
    (post.foldl (fun d e => if p e then d else d.set e.1 (f e)) d).items =
      pre ++ post.map (fun e => if p e then e else (e.1, f e)) := by
  induction post generalizing d pre with
  | nil => simpa using h
  | cons e post ih =>
      rw [List.foldl_cons, List.map_cons]
      by_cases he : p e
      · rw [if_pos he, if_pos he, ih d (pre ++ [e]) (by simpa using h)]
        simp
      · rw [if_neg he, if_neg he, ih (d.set e.1 (f e)) (pre ++ [(e.1, f e)])]
        · simp
        · rw [items_set_of_split h (f e)]
          simp

theorem items_foldl_erase (d : OrderedDict κ ν) (ks : List κ) :
    (ks.foldl erase d).items = d.items.filter (fun e => e.1 ∉ ks) := by
  induction ks generalizing d with
  | nil => simp
  | cons k ks ih =>
      rw [List.foldl_cons, ih, erase, List.filter_filter]
      apply List.filter_congr
      intro e _
      simp [List.mem_cons, Bool.and_comm]

/-! ### The items under some of the keys -/

section Restrict

variable (p : κ → Prop) [DecidablePred p]

def restrict (d : OrderedDict κ ν) : OrderedDict κ ν where
  items := d.items.filter (fun e => p e.1)
  nodup_keys := d.nodup_keys.sublist (List.filter_sublist.map Prod.fst)

omit [DecidableEq κ] in
theorem mem_keys_restrict {d : OrderedDict κ ν} {k : κ} :
    k ∈ (d.restrict p).keys ↔ k ∈ d.keys ∧ p k := by
  simp only [mem_keys_iff, restrict, List.mem_filter, decide_eq_true_eq, exists_and_right]

theorem restrict_set_of_not {k : κ} (h : ¬ p k) (d : OrderedDict κ ν) (v : ν) :
    (d.set k v).restrict p = d.restrict p := by
  apply ext
  change (d.set k v).items.filter _ = d.items.filter _
  by_cases hk : k ∈ d.keys
  · obtain ⟨w, pre, post, hsplit⟩ := exists_split_of_mem_keys hk
    rw [items_set_of_split hsplit, hsplit, List.filter_append, List.filter_append,
      List.filter_cons_of_neg (by simpa using h), List.filter_cons_of_neg (by simpa using h)]
  · rw [items_set_of_not_mem v hk, List.filter_append, List.filter_cons_of_neg (by simpa using h),
      List.filter_nil, List.append_nil]

theorem restrict_set {k : κ} (h : p k) (d : OrderedDict κ ν) (v : ν) :
    (d.set k v).restrict p = (d.restrict p).set k v := by
  apply ext
  change (d.set k v).items.filter _ = _
  by_cases hk : k ∈ d.keys
  · obtain ⟨w, pre, post, hsplit⟩ := exists_split_of_mem_keys hk
    have hrestrict : (d.restrict p).items =
        pre.filter (fun e => p e.1) ++ (k, w) :: post.filter (fun e => p e.1) := by
      change d.items.filter _ = _
      rw [hsplit, List.filter_append, List.filter_cons_of_pos (by simpa using h)]
    rw [items_set_of_split hsplit, items_set_of_split hrestrict, List.filter_append,
      List.filter_cons_of_pos (by simpa using h)]
  · have hk' : k ∉ (d.restrict p).keys := fun hmem => hk ((mem_keys_restrict p).mp hmem).1
    rw [items_set_of_not_mem v hk, items_set_of_not_mem v hk', List.filter_append,
      List.filter_cons_of_pos (by simpa using h), List.filter_nil]
    rfl

end Restrict

/-! ### Adding a weight over the values -/

section Total

variable {M : Type*} [AddCommMonoid M]

def total (f : ν → M) (d : OrderedDict κ ν) : M := (d.values.map f).sum

theorem total_set_of_not_mem (f : ν → M) {d : OrderedDict κ ν} {k : κ} (v : ν)
    (h : k ∉ d.keys) : total f (d.set k v) = total f d + f v := by
  simp only [total, values, items_set_of_not_mem v h, List.map_append, List.map_cons,
    List.map_nil, List.sum_append, List.sum_cons, List.sum_nil, add_zero]

omit [DecidableEq κ] in
/-- A weight on the values with `p` only is a sum over these. -/
theorem total_ite (p : ν → Prop) [DecidablePred p] (f : ν → M) (d : OrderedDict κ ν) :
    total (fun v => if p v then f v else 0) d = ((d.values.filter p).map f).sum := by
  unfold total
  induction d.values with
  | nil => rfl
  | cons v vs ih =>
      rw [List.map_cons, List.sum_cons, ih]
      by_cases h : p v
      · simp [h]
      · simp [h]

theorem total_erase (f : ν → M) {d : OrderedDict κ ν} {k : κ} {v : ν} (h : d.get? k = some v) :
    f v + total f (d.erase k) = total f d := by
  obtain ⟨pre, post, hsplit⟩ := List.append_of_mem (get?_eq_some_iff.mp h)
  obtain ⟨hpre, hpost⟩ := ne_of_split hsplit
  have herase : (d.erase k).items = pre ++ post := by
    simp only [erase, hsplit, List.filter_append, List.filter_cons, ne_eq, not_true_eq_false,
      decide_false, Bool.false_eq_true, if_false]
    rw [List.filter_eq_self.mpr (fun e he => by simpa using hpre e he),
      List.filter_eq_self.mpr (fun e he => by simpa using hpost e he)]
  simp only [total, values, herase, hsplit, List.map_append, List.map_cons, List.sum_append,
    List.sum_cons]
  exact add_left_comm _ _ _

/-- What one more key can weigh when every key has an allowance. -/
theorem add_total_le [Preorder M] [AddLeftMono M] [AddRightMono M] {f : ν → M} {g : κ → M}
    {d : OrderedDict κ ν} {ks : List κ} {k : κ} (hk : k ∈ ks) (hnew : k ∉ d.keys)
    (hd : ∀ k v, d.get? k = some v → k ∈ ks ∧ f v ≤ g k) (hg : ∀ k, 0 ≤ g k) :
    g k + total f d ≤ (ks.map g).sum := by
  have hkeys : d.keys ⊆ ks := by
    intro k' hk'
    obtain ⟨v, hv⟩ := mem_keys_iff.mp hk'
    exact (hd k' v (get?_eq_some_iff.mpr hv)).1
  have hweights : total f d ≤ (d.keys.map g).sum := by
    rw [total, values, keys, List.map_map, List.map_map]
    exact List.sum_le_sum fun e he => (hd e.1 e.2 (get?_eq_some_iff.mpr he)).2
  have hnodup : (k :: d.keys).Nodup := List.nodup_cons.mpr ⟨hnew, d.nodup_keys⟩
  obtain ⟨sub, hperm, hsub⟩ := hnodup.subperm (List.cons_subset.mpr ⟨hk, hkeys⟩)
  calc g k + total f d ≤ ((k :: d.keys).map g).sum := by
        rw [List.map_cons, List.sum_cons]
        exact add_le_add_right hweights (g k)
    _ = (sub.map g).sum := (hperm.map g).sum_eq.symm
    _ ≤ (ks.map g).sum := by
        apply (hsub.map g).sum_le_sum
        intro m hm
        obtain ⟨k', -, rfl⟩ := List.mem_map.mp hm
        exact hg k'

end Total

end OrderedDict
