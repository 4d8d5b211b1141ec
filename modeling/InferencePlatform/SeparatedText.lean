import Mathlib.Data.List.DropRight
import Mathlib.Tactic

/-!
# Pieces joined by a separator

When can the pieces of `[sep].intercalate pieces` be told from the text alone? A number of
pieces free of `sep` are the only ones of that number with their text. The last section weakens
this for outer pieces that carry spaces, where the separator itself counts as a space: if no
piece may be blank, separators in the leading space of the first piece and in the trailing space
of the last one do no harm.
-/

namespace SeparatedText

variable {α : Type*} {sep : α}

theorem append_sep_inj {xs ys xs' ys' : List α} (hys : sep ∉ ys) (hys' : sep ∉ ys')
    (h : xs ++ sep :: ys = xs' ++ sep :: ys') : xs = xs' ∧ ys = ys' := by
  rcases List.append_eq_append_iff.mp h with ⟨zs, hxs, hzs⟩ | ⟨zs, hxs, hzs⟩
  · rcases List.cons_eq_append_iff.mp hzs with ⟨rfl, hys₁⟩ | ⟨zs', rfl, hys₁⟩
    · exact ⟨by simpa using hxs.symm, by simpa using hys₁.symm⟩
    · exact absurd (hys₁ ▸ List.mem_append_right _ List.mem_cons_self) hys
  · rcases List.cons_eq_append_iff.mp hzs with ⟨rfl, hys₁⟩ | ⟨zs', rfl, hys₁⟩
    · exact ⟨by simpa using hxs, by simpa using hys₁⟩
    · exact absurd (hys₁ ▸ List.mem_append_right _ List.mem_cons_self) hys'

theorem mem_intercalate {c : α} {xss : List (List α)} (h : c ∈ [sep].intercalate xss) :
    c = sep ∨ ∃ xs ∈ xss, c ∈ xs := by
  induction xss with
  | nil => cases h
  | cons xs xss ih =>
      cases xss with
      | nil => exact Or.inr ⟨xs, List.mem_cons_self, by simpa using h⟩
      | cons ys xss =>
          rw [List.intercalate_cons_cons, List.mem_append, List.mem_append,
            List.mem_singleton] at h
          rcases h with (hxs | hsep) | hrest
          · exact Or.inr ⟨xs, List.mem_cons_self, hxs⟩
          · exact Or.inl hsep
          · exact (ih hrest).imp_right fun ⟨zs, hzs, hc⟩ => ⟨zs, List.mem_cons_of_mem _ hzs, hc⟩

theorem count_intercalate [DecidableEq α] (xs : List α) (xss : List (List α)) :
    ([sep].intercalate (xs :: xss)).count sep =
      ((xs :: xss).map (List.count sep)).sum + xss.length := by
  induction xss generalizing xs with
  | nil => simp
  | cons ys xss ih =>
      rw [List.intercalate_cons_cons, List.count_append, List.count_append, ih ys,
        List.count_singleton_self, List.map_cons, List.map_cons, List.map_cons, List.sum_cons,
        List.sum_cons, List.sum_cons, List.length_cons]
      omega

/-- Pieces free of the separator are the only ones of their number with that text. -/
theorem intercalate_inj [DecidableEq α] {xss yss : List (List α)} (hlen : xss.length = yss.length)
    (hfree : ∀ xs ∈ xss, sep ∉ xs) (h : [sep].intercalate xss = [sep].intercalate yss) :
    xss = yss := by
  cases xss with
  | nil => exact (List.length_eq_zero_iff.mp hlen.symm).symm
  | cons xs xss =>
      cases yss with
      | nil => cases hlen
      | cons ys yss =>
          have hcount := congrArg (List.count sep) h
          rw [count_intercalate, count_intercalate] at hcount
          have hzero : ((xs :: xss).map (List.count sep)).sum = 0 := by
            apply List.sum_eq_zero
            intro n hn
            obtain ⟨zs, hzs, rfl⟩ := List.mem_map.mp hn
            exact List.count_eq_zero.mpr (hfree zs hzs)
          have hfree' : ∀ zs ∈ ys :: yss, sep ∉ zs := by
            intro zs hzs
            have hle := List.single_le_sum (fun n _ => Nat.zero_le n) _
              (List.mem_map_of_mem (f := List.count sep) hzs)
            simp only [List.length_cons] at hlen
            exact List.count_eq_zero.mp (by omega)
          rw [← List.splitOn_intercalate sep hfree (List.cons_ne_nil _ _), h,
            List.splitOn_intercalate sep hfree' (List.cons_ne_nil _ _)]

/-! ### Outer pieces with spaces -/

section Spaces

variable {space : α → Bool}

theorem dropWhile_append_of_exists {xs : List α} (h : ∃ c ∈ xs, space c = false) (ys : List α) :
    (xs ++ ys).dropWhile space = xs.dropWhile space ++ ys := by
  rw [List.dropWhile_append, if_neg]
  obtain ⟨c, hc, hspace⟩ := h
  rw [List.isEmpty_iff, List.dropWhile_eq_nil_iff]
  intro hall
  exact Bool.false_ne_true (hspace.symm.trans (hall c hc))

theorem rdropWhile_append_of_exists {ys : List α} (h : ∃ c ∈ ys, space c = false)
    (xs : List α) : (xs ++ ys).rdropWhile space = xs ++ ys.rdropWhile space := by
  have hrev : ∃ c ∈ ys.reverse, space c = false := by simpa using h
  rw [List.rdropWhile, List.reverse_append, dropWhile_append_of_exists hrev, List.reverse_append,
    List.reverse_reverse]
  rfl

theorem takeWhile_append_of_exists {xs : List α} (h : ∃ c ∈ xs, space c = false)
    (ys : List α) : (xs ++ ys).takeWhile space = xs.takeWhile space := by
  have hsplit := List.takeWhile_append_dropWhile (p := space) (l := xs ++ ys)
  rw [dropWhile_append_of_exists h, ← List.append_assoc] at hsplit
  have hxs := List.append_cancel_right hsplit
  exact List.append_cancel_right (hxs.trans List.takeWhile_append_dropWhile.symm)

theorem exists_of_dropWhile_eq {xs u v : List α} (hsep : space sep = true)
    (h : xs.dropWhile space = u ++ sep :: v) : ∃ c ∈ u, space c = false := by
  have hhead := List.head?_dropWhile_not space xs
  rw [h] at hhead
  cases u with
  | nil => exact absurd (hsep.symm.trans hhead) Bool.false_ne_true.symm
  | cons c u => exact ⟨c, List.mem_cons_self, hhead⟩

theorem exists_of_rdropWhile_eq {xs u v : List α} (hsep : space sep = true)
    (h : xs.rdropWhile space = u ++ sep :: v) : ∃ c ∈ v, space c = false := by
  have hrev : xs.reverse.dropWhile space = v.reverse ++ sep :: u.reverse := by
    rw [List.rdropWhile, List.reverse_eq_iff] at h
    rw [h]
    simp
  simpa using exists_of_dropWhile_eq hsep hrev

/-- The text of a first piece, inner pieces and a last piece. -/
theorem intercalate_outer (x z : List α) (mid : List (List α)) :
    [sep].intercalate (x :: (mid ++ [z])) = x ++ [sep].intercalate ([] :: (mid ++ [[]])) ++ z := by
  induction mid generalizing x z with
  | nil => simp
  | cons m mid ih =>
      rw [List.cons_append, List.intercalate_cons_cons, ih m, List.cons_append,
        List.intercalate_cons_cons, ih m []]
      simp

theorem eq_of_intercalate_eq [DecidableEq α] {x z x' z' : List α} {mid mid' : List (List α)}
    (hlen : mid.length = mid'.length)
    (hx : ∃ c ∈ x, space c = false) (hz : ∃ c ∈ z, space c = false)
    (hx' : ∃ c ∈ x', space c = false) (hz' : ∃ c ∈ z', space c = false)
    (hfree : sep ∉ x.dropWhile space ∧ (∀ m ∈ mid, sep ∉ m) ∧ sep ∉ z.rdropWhile space)
    (h : [sep].intercalate (x :: (mid ++ [z])) = [sep].intercalate (x' :: (mid' ++ [z']))) :
    x = x' ∧ mid = mid' ∧ z = z' := by
  have houter := h
  rw [intercalate_outer, intercalate_outer x'] at houter
  have hstrip : [sep].intercalate (x.dropWhile space :: (mid ++ [z.rdropWhile space])) =
      [sep].intercalate (x'.dropWhile space :: (mid' ++ [z'.rdropWhile space])) := by
    have hright := congrArg (List.rdropWhile space) houter
    rw [rdropWhile_append_of_exists hz, rdropWhile_append_of_exists hz', List.append_assoc,
      List.append_assoc] at hright
    have hboth := congrArg (List.dropWhile space) hright
    rw [dropWhile_append_of_exists hx, dropWhile_append_of_exists hx'] at hboth
    rwa [intercalate_outer, intercalate_outer (x'.dropWhile space), List.append_assoc,
      List.append_assoc]
  have hpieces := intercalate_inj (by simp [hlen]) (by
    intro xs hxs
    rcases List.mem_cons.mp hxs with rfl | hxs
    · exact hfree.1
    rcases List.mem_append.mp hxs with hxs | hxs
    · exact hfree.2.1 xs hxs
    · exact List.mem_singleton.mp hxs ▸ hfree.2.2) hstrip
  obtain ⟨hdrop, hrest⟩ := List.cons.inj hpieces
  obtain ⟨hmid, -⟩ := List.append_inj hrest hlen
  have hlead : x.takeWhile space = x'.takeWhile space := by
    have htake := congrArg (List.takeWhile space) houter
    rwa [List.append_assoc, List.append_assoc, takeWhile_append_of_exists hx,
      takeWhile_append_of_exists hx'] at htake
  have hxx : x = x' := by
    rw [← List.takeWhile_append_dropWhile (p := space) (l := x), hlead, hdrop,
      List.takeWhile_append_dropWhile]
  refine ⟨hxx, hmid, ?_⟩
  rw [hxx, hmid] at houter
  exact List.append_cancel_left houter

end Spaces

end SeparatedText
