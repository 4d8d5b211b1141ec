import InferencePlatform.OrderedDict

/-!
# The log of a dictionary

A component that only adds new keys and drops present ones leaves a log of these events.
`Logged d es d'` says that the events `es` lead from `d` to `d'`. Under one key writes and drops
alternate, each drop giving up the very value written before it, and any weight on the values
moves by exactly what the log says.
-/

namespace OrderedDict

inductive Event (κ ν : Type*)
  | wrote (k : κ) (v : ν)
  | dropped (k : κ) (v : ν)
  deriving DecidableEq, Repr

namespace Event

variable {κ ν : Type*}

def key : Event κ ν → κ
  | .wrote k _ => k
  | .dropped k _ => k

/-- The value under the key of the event after it, unless the event does not fit the value
before it. -/
def cell [DecidableEq ν] : Option ν → Event κ ν → Option (Option ν)
  | none, .wrote _ v => some (some v)
  | some w, .dropped _ v => if v = w then some none else none
  | none, .dropped _ _ => none
  | some _, .wrote _ _ => none

def signed {M : Type*} [Neg M] (f : ν → M) : Event κ ν → M
  | .wrote _ v => f v
  | .dropped _ v => -f v

end Event

section Logged

variable {κ ν : Type*} [DecidableEq κ]

inductive Logged : OrderedDict κ ν → List (Event κ ν) → OrderedDict κ ν → Prop
  | nil (d : OrderedDict κ ν) : Logged d [] d
  | wrote {d d' : OrderedDict κ ν} {es : List (Event κ ν)} {k : κ} {v : ν}
      (hnew : d.get? k = none) (hrest : Logged (d.set k v) es d') :
      Logged d (.wrote k v :: es) d'
  | dropped {d d' : OrderedDict κ ν} {es : List (Event κ ν)} {k : κ} {v : ν}
      (hknown : d.get? k = some v) (hrest : Logged (d.erase k) es d') :
      Logged d (.dropped k v :: es) d'

variable {d d' d'' : OrderedDict κ ν} {es fs : List (Event κ ν)}

theorem Logged.append (h : Logged d es d') (h' : Logged d' fs d'') :
    Logged d (es ++ fs) d'' := by
  induction h with
  | nil => exact h'
  | wrote hnew _ ih => exact .wrote hnew (ih h')
  | dropped hknown _ ih => exact .dropped hknown (ih h')

/-- The events under one key carry its value from the first dictionary to the last. -/
theorem Logged.cells [DecidableEq ν] (h : Logged d es d') (k : κ) :
    (es.filter (fun e => e.key = k)).foldlM Event.cell (d.get? k) = some (d'.get? k) := by
  induction h with
  | nil => rfl
  | @wrote d d' es l v hnew _ ih =>
      by_cases hl : l = k
      · subst hl
        rw [List.filter_cons_of_pos (by simp [Event.key]), List.foldlM_cons, hnew]
        simpa only [Event.cell, get?_set_self, Option.bind_eq_bind, Option.bind_some] using ih
      · rw [List.filter_cons_of_neg (by simp [Event.key, hl])]
        rwa [get?_set_of_ne _ _ (Ne.symm hl)] at ih
  | @dropped d d' es l v hknown _ ih =>
      by_cases hl : l = k
      · subst hl
        rw [List.filter_cons_of_pos (by simp [Event.key]), List.foldlM_cons, hknown]
        simpa only [Event.cell, get?_erase, if_true, Option.bind_eq_bind, Option.bind_some] using ih
      · rw [List.filter_cons_of_neg (by simp [Event.key, hl])]
        rwa [get?_erase_of_ne _ (Ne.symm hl)] at ih

theorem Logged.total_eq {M : Type*} [AddCommGroup M] (h : Logged d es d') (f : ν → M) :
    total f d' = total f d + (es.map (Event.signed f)).sum := by
  induction h with
  | nil => simp
  | @wrote d d' es k v hnew _ ih =>
      rw [ih, total_set_of_not_mem f v (get?_eq_none_iff.mp hnew), List.map_cons, List.sum_cons,
        Event.signed, add_assoc]
  | @dropped d d' es k v hknown _ ih =>
      rw [ih, ← total_erase f hknown, List.map_cons, List.sum_cons, Event.signed]
      abel

omit [DecidableEq κ] in
/-- A weight whose drops cost nothing counts the writes only. -/
theorem signed_sum_of_wrote {M : Type*} [AddCommGroup M] {f : ν → M}
    (h : ∀ k v, Event.dropped k v ∈ es → f v = 0) :
    (es.map (Event.signed f)).sum =
      (es.map fun | .wrote _ v => f v | .dropped _ _ => 0).sum := by
  congr 1
  apply List.map_congr_left
  intro e he
  cases e with
  | wrote k v => rfl
  | dropped k v => simp [Event.signed, h k v he]

/-- Dictionaries with the same lookups hold the same items, in some order. -/
theorem items_perm_of_get? (h : ∀ k, d.get? k = d'.get? k) : d.items.Perm d'.items := by
  have hnd (d : OrderedDict κ ν) : d.items.Nodup := List.Nodup.of_map Prod.fst d.nodup_keys
  rw [List.perm_ext_iff_of_nodup (hnd d) (hnd d')]
  intro e
  rw [← get?_eq_some_iff (k := e.1) (v := e.2), ← get?_eq_some_iff (k := e.1) (v := e.2), h]

theorem total_eq_of_get? {M : Type*} [AddCommMonoid M] (f : ν → M)
    (h : ∀ k, d.get? k = d'.get? k) : total f d = total f d' :=
  (((items_perm_of_get? h).map Prod.snd).map f).sum_eq

end Logged

end OrderedDict
