import InferencePlatform.PythonBuiltins
import Mathlib.Data.List.Forall2

/-!
# Timelines

A timeline is a list of items with a `time`, in any order and with ties allowed. `IsLatest` is
the item that a stable sort by time puts last: no item is later, and items listed after it are
strictly earlier. `InForce u` is an item whose time is the greatest one that does not exceed
`u`, so that its reading is the one carried forward to the instant `u`.
-/

namespace Timelines

open PythonBuiltins List

section Latest

variable {α τ : Type*} [LinearOrder τ] (time : α → τ)

def IsLatest (xs : List α) (x : α) : Prop :=
  ∃ before after, xs = before ++ x :: after ∧ (∀ y ∈ before, time y ≤ time x) ∧
    ∀ y ∈ after, time y < time x

variable {time} {xs ys : List α} {x y : α}

theorem IsLatest.mem (h : IsLatest time xs x) : x ∈ xs := by
  obtain ⟨before, after, rfl, -⟩ := h
  exact mem_append_right _ mem_cons_self

theorem IsLatest.time_le (h : IsLatest time xs x) (hy : y ∈ xs) : time y ≤ time x := by
  obtain ⟨before, after, rfl, hbefore, hafter⟩ := h
  rcases mem_append.mp hy with hy | hy
  · exact hbefore y hy
  · rcases mem_cons.mp hy with rfl | hy
    · exact le_rfl
    · exact (hafter y hy).le

theorem isLatest_cons_iff : IsLatest time (y :: xs) x ↔
    (x = y ∧ ∀ z ∈ xs, time z < time y) ∨ (IsLatest time xs x ∧ time y ≤ time x) := by
  constructor
  · rintro ⟨before, after, heq, hbefore, hafter⟩
    cases before with
    | nil =>
      obtain ⟨rfl, rfl⟩ := cons.inj heq
      exact .inl ⟨rfl, hafter⟩
    | cons z before =>
      obtain ⟨rfl, rfl⟩ := cons.inj heq
      obtain ⟨hy, hbefore⟩ := forall_mem_cons.mp hbefore
      exact .inr ⟨⟨before, after, rfl, hbefore, hafter⟩, hy⟩
  · rintro (⟨rfl, hafter⟩ | ⟨⟨before, after, rfl, hbefore, hafter⟩, hy⟩)
    · exact ⟨[], xs, rfl, fun _ hz => absurd hz not_mem_nil, hafter⟩
    · exact ⟨y :: before, after, rfl, forall_mem_cons.mpr ⟨hy, hbefore⟩, hafter⟩

/-- Two latest items are tied, so neither stands strictly after the other. -/
theorem IsLatest.unique (hx : IsLatest time xs x) (hy : IsLatest time xs y) : x = y := by
  have hle := hx.time_le hy.mem
  have hge := hy.time_le hx.mem
  obtain ⟨before, after, rfl, -, hafter⟩ := hx
  obtain ⟨before', after', heq, -, hafter'⟩ := hy
  rcases append_eq_append_iff.mp heq with ⟨gap, -, hgap⟩ | ⟨gap, -, hgap⟩
  · cases gap with
    | nil => exact (cons.inj hgap).1
    | cons z gap =>
      obtain ⟨rfl, rfl⟩ := cons.inj hgap
      exact absurd (hafter y (mem_append_right _ mem_cons_self)) (not_lt.mpr hge)
  · cases gap with
    | nil => exact (cons.inj hgap).1.symm
    | cons z gap =>
      obtain ⟨rfl, rfl⟩ := cons.inj hgap
      exact absurd (hafter' x (mem_append_right _ mem_cons_self)) (not_lt.mpr hle)

/-! ### The last item of a stable sort -/

theorem getLast?_orderedInsert_of_le {z : α} (h : xs.getLast? = some z) (hle : time x ≤ time z) :
    (xs.orderedInsert (fun a b => time a ≤ time b) x).getLast? = some z := by
  induction xs with
  | nil => cases h
  | cons b xs ih =>
    by_cases hb : time x ≤ time b
    · rw [orderedInsert_cons, if_pos hb, getLast?_cons_cons, h]
    · rw [orderedInsert_cons, if_neg hb]
      cases xs with
      | nil =>
        obtain rfl : b = z := Option.some.inj h
        exact absurd hle hb
      | cons c xs =>
        have hne : orderedInsert (fun a b => time a ≤ time b) x (c :: xs) ≠ [] :=
          ne_nil_of_mem ((mem_orderedInsert _).mpr (.inl rfl))
        rw [getLast?_cons_of_ne_nil hne]
        exact ih h

theorem getLast?_orderedInsert_of_lt (h : ∀ y ∈ xs, time y < time x) :
    (xs.orderedInsert (fun a b => time a ≤ time b) x).getLast? = some x := by
  induction xs with
  | nil => rfl
  | cons b xs ih =>
    obtain ⟨hb, hxs⟩ := forall_mem_cons.mp h
    have hne : orderedInsert (fun a b => time a ≤ time b) x xs ≠ [] :=
      ne_nil_of_mem ((mem_orderedInsert _).mpr (.inl rfl))
    rw [orderedInsert_cons, if_neg (not_le.mpr hb), getLast?_cons_of_ne_nil hne]
    exact ih hxs

theorem isLatest_of_getLast?_sortedBy (h : (sortedBy time xs).getLast? = some x) :
    IsLatest time xs x := by
  induction xs generalizing x with
  | nil => cases h
  | cons a xs ih =>
    have hcons : sortedBy time (a :: xs) =
        (sortedBy time xs).orderedInsert (fun a b => time a ≤ time b) a := rfl
    rw [hcons] at h
    cases hlast : (sortedBy time xs).getLast? with
    | none =>
      have hnil : sortedBy time xs = [] := getLast?_eq_none_iff.mp hlast
      obtain rfl : xs = [] := ((sortedBy_perm time xs).symm.trans (.of_eq hnil)).eq_nil
      obtain rfl : a = x := Option.some.inj h
      exact isLatest_cons_iff.mpr (.inl ⟨rfl, fun _ hy => absurd hy not_mem_nil⟩)
    | some z =>
      have hz := ih hlast
      rcases le_or_gt (time a) (time z) with hle | hlt
      · rw [getLast?_orderedInsert_of_le hlast hle] at h
        obtain rfl := Option.some.inj h
        exact isLatest_cons_iff.mpr (.inr ⟨hz, hle⟩)
      · have hall : ∀ y ∈ xs, time y < time a := fun y hy => (hz.time_le hy).trans_lt hlt
        rw [getLast?_orderedInsert_of_lt fun y hy => hall y ((mem_sortedBy time).mp hy)] at h
        obtain rfl := Option.some.inj h
        exact isLatest_cons_iff.mpr (.inl ⟨rfl, hall⟩)

theorem time_head?_sortedBy_le (h : (sortedBy time xs).head? = some x) (hy : y ∈ xs) :
    time x ≤ time y := by
  obtain ⟨rest, hrest⟩ := head?_eq_some_iff.mp h
  have hpairwise := pairwise_sortedBy time xs
  rw [hrest, pairwise_cons] at hpairwise
  rcases mem_cons.mp (hrest ▸ (mem_sortedBy time).mpr hy) with rfl | hy
  · exact le_rfl
  · exact hpairwise.1 y hy

/-! ### Reordered and paired timelines -/

/-- Any item that no other item is later than is the latest one in some order. -/
theorem exists_perm_isLatest (hx : x ∈ xs) (hmax : ∀ y ∈ xs, time y ≤ time x) :
    ∃ ys : List α, ys.Perm xs ∧ IsLatest time ys x := by
  obtain ⟨before, after, rfl⟩ := append_of_mem hx
  refine ⟨before ++ after ++ [x], ?_, before ++ after, [], rfl, fun y hy => hmax y ?_,
    fun y hy => absurd hy not_mem_nil⟩
  · rw [append_assoc]
    exact (perm_append_singleton x after).append_left before
  · exact mem_append.mpr ((mem_append.mp hy).imp_right (mem_cons_of_mem x))

variable {R : α → α → Prop}

theorem exists_mem_of_forall₂ (h : Forall₂ R xs ys) (hx : x ∈ xs) : ∃ y ∈ ys, R x y := by
  induction h with
  | nil => cases hx
  | cons hab _ ih =>
    rcases mem_cons.mp hx with rfl | hx
    · exact ⟨_, mem_cons_self, hab⟩
    · obtain ⟨y, hy, hR⟩ := ih hx
      exact ⟨y, mem_cons_of_mem _ hy, hR⟩

theorem exists_mem_of_forall₂' (h : Forall₂ R xs ys) (hy : y ∈ ys) : ∃ x ∈ xs, R x y :=
  exists_mem_of_forall₂ (R := flip R) h.flip hy

/-- Timelines with the same times position by position have their latest items at one position. -/
theorem IsLatest.exists_of_forall₂ (hR : ∀ a b, R a b → time a = time b) (h : Forall₂ R xs ys)
    (hx : IsLatest time xs x) : ∃ y, IsLatest time ys y ∧ R x y := by
  induction h with
  | nil => exact absurd hx.mem not_mem_nil
  | @cons a b xs ys hab hrest ih =>
    rcases isLatest_cons_iff.mp hx with ⟨rfl, hafter⟩ | ⟨hx, ha⟩
    · refine ⟨b, isLatest_cons_iff.mpr (.inl ⟨rfl, fun y hy => ?_⟩), hab⟩
      obtain ⟨z, hz, hzy⟩ := exists_mem_of_forall₂' hrest hy
      rw [← hR z y hzy, ← hR x b hab]
      exact hafter z hz
    · obtain ⟨y, hy, hxy⟩ := ih hx
      refine ⟨y, isLatest_cons_iff.mpr (.inr ⟨hy, ?_⟩), hxy⟩
      rw [← hR a b hab, ← hR x y hxy]
      exact ha

end Latest

section InForce

variable {α τ : Type*} [LinearOrder τ] (time : α → τ)

structure InForce (xs : List α) (u : τ) (x : α) : Prop where
  mem : x ∈ xs
  time_le : time x ≤ u
  greatest : ∀ y ∈ xs, time y ≤ u → time y ≤ time x

variable {time} {xs : List α} {s u : τ} {x : α}

theorem exists_inForce (hx : x ∈ xs) (hu : time x ≤ u) : ∃ y, InForce time xs u y := by
  obtain ⟨y, ⟨hy, hyu⟩, hmax⟩ := Set.exists_max_image {y | y ∈ xs ∧ time y ≤ u} time
    (xs.finite_toSet.subset fun _ h => h.1) ⟨x, hx, hu⟩
  exact ⟨y, hy, hyu, fun z hz hzu => hmax z ⟨hz, hzu⟩⟩

/-- What is in force at `u` was recorded after the earlier instant `s`, or already held at `s`. -/
theorem InForce.since (h : InForce time xs u x) (hs : s ≤ u) :
    s < time x ∨ InForce time xs s x := by
  rcases lt_or_ge s (time x) with hlt | hge
  · exact .inl hlt
  · exact .inr ⟨h.mem, hge, fun y hy hys => h.greatest y hy (hys.trans hs)⟩

end InForce

/-! ### Spaced times -/

/-- Times that are a gap apart fill the time between them. -/
theorem length_mul_gap_le {gap a b : ℚ} {times : List ℚ} (hab : a ≤ b + gap)
    (hspaced : times.Pairwise (fun t u => t + gap ≤ u)) (hrange : ∀ t ∈ times, a ≤ t ∧ t ≤ b) :
    times.length * gap ≤ b - a + gap := by
  induction times generalizing a with
  | nil =>
      simp only [List.length_nil, Nat.cast_zero, zero_mul]
      linarith
  | cons t times ih =>
      obtain ⟨hfirst, hrest⟩ := List.pairwise_cons.mp hspaced
      obtain ⟨⟨hat, htb⟩, hrange⟩ := List.forall_mem_cons.mp hrange
      have ih' := ih (a := t + gap) (by linarith) hrest
        (fun u hu => ⟨hfirst u hu, (hrange u hu).2⟩)
      rw [List.length_cons, Nat.cast_succ]
      linarith

end Timelines
