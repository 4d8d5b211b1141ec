import InferencePlatform.Placement
import Mathlib.Data.List.Perm.Subperm

/-!
# Selections of an inventory

`IsSelection` is a group of distinct GPUs of the inventory in any order. The search enumerates
sublists only; every selection is a permutation of one, and what it is ranked by does not depend
on the order.
-/

namespace Placement

open PythonBuiltins

section Measures

variable (request : PlacementRequest) (group : List GPU)

def residentCopies : ℤ := group.countP (fun gpu => request.modelRevision ∈ gpu.residentModels)

def remainingGib : ℚ := (group.map fun gpu => gpu.freeMemoryGib - request.memoryGibPerGpu).sum

def sortedIdentifiers : List String := sortedBy id (group.map (·.identifier))

theorem groupEntry_eq : groupEntry request group =
    (residentCopies request group, remainingGib request group, sortedIdentifiers group) := rfl

end Measures

section Selecting

variable (request : PlacementRequest) (inventory : List GPU)

/-- Distinct GPUs of the inventory that meet memory, capability and locality constraints. -/
structure IsSelection (group : List GPU) : Prop where
  nodup : group.Nodup
  subset : group ⊆ inventory
  size : (group.length : ℤ) = request.gpusRequired
  eligible : ∀ gpu ∈ group, Eligible request gpu
  same_node : request.requireSameNode = true → ∃ node, ∀ gpu ∈ group, gpu.node = node

/-- More resident copies, then less remaining memory, then smaller sorted identifiers. -/
def Better (other group : List GPU) : Prop :=
  residentCopies request group < residentCopies request other ∨
    residentCopies request other = residentCopies request group ∧
      (remainingGib request other < remainingGib request group ∨
        remainingGib request other = remainingGib request group ∧
          sortedIdentifiers other < sortedIdentifiers group)

/-- What the plan says about the entry it chose. -/
def decisionOf : Option (ℤ × ℚ × List String) → PlacementDecision
  | none => ⟨false, [], "no GPU group satisfies memory, capability, and locality constraints"⟩
  | some (resident, remaining, ids) =>
      let locality := if request.requireSameNode then "same-node" else "cross-node permitted"
      ⟨true, ids, "selected " ++ locality ++ " group with " ++ toString resident ++ "/" ++
        toString request.gpusRequired ++ " resident model copies and " ++ fixed2 remaining ++
        " GiB remaining"⟩

def groupEntries : List (ℤ × ℚ × List String) :=
  (usableGroups request inventory).map (groupEntry request)

variable {request inventory} {group other : List GPU}

theorem rank_injective : Function.Injective rank := by
  rintro ⟨resident, remaining, ids⟩ ⟨resident', remaining', ids'⟩ h
  simp only [rank, toLex_inj, Prod.mk.injEq, neg_inj] at h
  rw [h.1, h.2.1, h.2.2]

theorem better_iff_rank_lt : Better request other group ↔
    rank (groupEntry request other) < rank (groupEntry request group) := by
  simp only [groupEntry_eq, rank, Prod.Lex.toLex_lt_toLex, neg_lt_neg_iff, neg_inj]
  rfl

theorem groupEntry_perm (h : group.Perm other) :
    groupEntry request group = groupEntry request other := by
  have hids : sortedIdentifiers group = sortedIdentifiers other :=
    sortedBy_eq_of_perm id (h.map _) fun _ _ _ _ heq => heq
  rw [groupEntry_eq, groupEntry_eq, hids, residentCopies, residentCopies, h.countP_eq,
    remainingGib, remainingGib, (h.map _).sum_eq]

theorem IsGroup.isSelection (hunique : inventory.Nodup) (h : IsGroup request inventory group) :
    IsSelection request inventory group :=
  ⟨h.sublist.nodup hunique, h.sublist.subset, h.size, h.eligible, h.same_node⟩

/-- Every selection is a group of the search in another order. -/
theorem IsSelection.exists_isGroup (h : IsSelection request inventory group) :
    ∃ sub, sub.Perm group ∧ IsGroup request inventory sub := by
  obtain ⟨sub, hperm, hsub⟩ := h.nodup.subperm h.subset
  refine ⟨sub, hperm, hsub, hperm.length_eq ▸ h.size,
    fun gpu hgpu => h.eligible gpu (hperm.mem_iff.mp hgpu), fun hsame => ?_⟩
  obtain ⟨node, hnode⟩ := h.same_node hsame
  exact ⟨node, fun gpu hgpu => hnode gpu (hperm.mem_iff.mp hgpu)⟩

theorem mem_groupEntries (h : Accepted request inventory) {entry : ℤ × ℚ × List String} :
    entry ∈ groupEntries request inventory ↔
      ∃ group, IsSelection request inventory group ∧ groupEntry request group = entry := by
  simp only [groupEntries, List.mem_map, mem_usableGroups h.gpus_pos]
  constructor
  · rintro ⟨group, hgroup, rfl⟩
    exact ⟨group, hgroup.isSelection h.unique.of_map, rfl⟩
  · rintro ⟨group, hgroup, rfl⟩
    obtain ⟨sub, hperm, hsub⟩ := hgroup.exists_isGroup
    exact ⟨sub, hsub, groupEntry_perm hperm⟩

theorem placeReplica_eq : placeReplica request inventory = (do
    validate request inventory
    pure (decisionOf request (minBy? rank (groupEntries request inventory)))) := by
  unfold placeReplica groupEntries
  dsimp only
  cases minBy? rank ((usableGroups request inventory).map (groupEntry request)) <;> rfl

theorem placeReplica_eq_ok_iff {decision : PlacementDecision} :
    placeReplica request inventory = .ok decision ↔ Accepted request inventory ∧
      decisionOf request (minBy? rank (groupEntries request inventory)) = decision := by
  rw [placeReplica_eq, Except.bind_eq_ok_iff, ← validate_eq_ok_iff]
  constructor
  · rintro ⟨_, hvalid, h⟩
    exact ⟨hvalid, Except.ok.inj h⟩
  · rintro ⟨hvalid, rfl⟩
    exact ⟨(), hvalid, rfl⟩

/-- The decision is to place exactly when there is an entry. -/
theorem decisionOf_placed_iff {best : Option (ℤ × ℚ × List String)} :
    (decisionOf request best).placed = true ↔ best ≠ none := by
  cases best with
  | none => exact iff_of_false Bool.false_ne_true fun h => h rfl
  | some entry => exact iff_of_true rfl (Option.some_ne_none entry)

/-- A placed decision reports the entry of a selection of least rank. -/
theorem exists_least_selection {decision : PlacementDecision}
    (h : placeReplica request inventory = .ok decision) (hplaced : decision.placed = true) :
    ∃ group, IsSelection request inventory group ∧
      decision = decisionOf request (some (groupEntry request group)) ∧
      ∀ other, IsSelection request inventory other →
        rank (groupEntry request group) ≤ rank (groupEntry request other) := by
  obtain ⟨haccepted, rfl⟩ := placeReplica_eq_ok_iff.mp h
  obtain ⟨entry, hentry⟩ := Option.ne_none_iff_exists'.mp (decisionOf_placed_iff.mp hplaced)
  obtain ⟨hmem, hleast⟩ := minBy?_spec hentry
  obtain ⟨group, hgroup, rfl⟩ := (mem_groupEntries haccepted).mp hmem
  exact ⟨group, hgroup, by rw [hentry],
    fun other hother => hleast _ ((mem_groupEntries haccepted).mpr ⟨other, hother, rfl⟩)⟩

theorem exists_isSelection_iff_placed {decision : PlacementDecision}
    (h : placeReplica request inventory = .ok decision) :
    decision.placed = true ↔ ∃ group, IsSelection request inventory group := by
  rw [placeReplica_placed_iff h]
  constructor
  · rintro ⟨group, hgroup⟩
    exact ⟨group, hgroup.isSelection (nodup_of_placeReplica h)⟩
  · rintro ⟨group, hgroup⟩
    obtain ⟨sub, -, hsub⟩ := hgroup.exists_isGroup
    exact ⟨sub, hsub⟩

/-! ### The order of the inventory -/

variable {inventory' : List GPU}

theorem Accepted.perm (hperm : inventory.Perm inventory') (h : Accepted request inventory) :
    Accepted request inventory' :=
  { h with
    unique := (hperm.map _).nodup_iff.mp h.unique
    free_nonneg := fun gpu hgpu => h.free_nonneg gpu (hperm.mem_iff.mpr hgpu) }

theorem IsSelection.perm (hperm : inventory.Perm inventory')
    (h : IsSelection request inventory group) : IsSelection request inventory' group :=
  { h with subset := fun _ hgpu => hperm.mem_iff.mp (h.subset hgpu) }

theorem mem_groupEntries_of_perm (hperm : inventory.Perm inventory')
    (haccepted : Accepted request inventory) {entry : ℤ × ℚ × List String}
    (h : entry ∈ groupEntries request inventory) : entry ∈ groupEntries request inventory' := by
  obtain ⟨group, hgroup, rfl⟩ := (mem_groupEntries haccepted).mp h
  exact (mem_groupEntries (haccepted.perm hperm)).mpr ⟨group, hgroup.perm hperm, rfl⟩

theorem placeReplica_perm (hperm : inventory.Perm inventory') {decision : PlacementDecision}
    (h : placeReplica request inventory = .ok decision) :
    placeReplica request inventory' = .ok decision := by
  obtain ⟨haccepted, rfl⟩ := placeReplica_eq_ok_iff.mp h
  have haccepted' := haccepted.perm hperm
  refine placeReplica_eq_ok_iff.mpr ⟨haccepted', congrArg (decisionOf request) ?_⟩
  exact minBy?_congr rank_injective
    (fun entry hentry => ⟨entry, mem_groupEntries_of_perm hperm.symm haccepted' hentry, le_rfl⟩)
    (fun entry hentry => ⟨entry, mem_groupEntries_of_perm hperm haccepted hentry, le_rfl⟩)

/-- The placement is sound, complete and optimal, in any order of the inventory. -/
theorem placeReplica_optimal {decision : PlacementDecision}
    (h : placeReplica request inventory = .ok decision) :
    (decision.placed = true ↔ ∃ group, IsSelection request inventory group) ∧
      (decision.placed = true → ∃ group, IsSelection request inventory group ∧
        decision.gpuIds = sortedIdentifiers group ∧
        ∀ other, IsSelection request inventory other → ¬ Better request other group) ∧
      (∀ inventory', inventory.Perm inventory' →
        placeReplica request inventory' = .ok decision) := by
  refine ⟨exists_isSelection_iff_placed h, fun hplaced => ?_,
    fun _ hperm => placeReplica_perm hperm h⟩
  obtain ⟨group, hgroup, rfl, hleast⟩ := exists_least_selection h hplaced
  refine ⟨group, hgroup, rfl, fun other hother hbetter => ?_⟩
  exact (hleast other hother).not_gt (better_iff_rank_lt.mp hbetter)

theorem placeReplica_optimal_two_of_three :
    ∃ decision, placeReplica ⟨"r", "m", 2, 20, {"cuda"}, true⟩
        [⟨"c", "n1", 80, {"cuda"}, ∅⟩, ⟨"a", "n1", 24, {"cuda"}, ∅⟩,
          ⟨"b", "n1", 40, {"cuda"}, {"m"}⟩] = .ok decision ∧ decision.gpuIds = ["a", "b"] ∧
      placeReplica ⟨"r", "m", 2, 20, {"cuda"}, true⟩
        [⟨"a", "n1", 24, {"cuda"}, ∅⟩, ⟨"c", "n1", 80, {"cuda"}, ∅⟩,
          ⟨"b", "n1", 40, {"cuda"}, {"m"}⟩] = .ok decision := by
  have hplace : placeReplica ⟨"r", "m", 2, 20, {"cuda"}, true⟩
      [⟨"c", "n1", 80, {"cuda"}, ∅⟩, ⟨"a", "n1", 24, {"cuda"}, ∅⟩,
        ⟨"b", "n1", 40, {"cuda"}, {"m"}⟩] = .ok ⟨true, ["a", "b"],
          "selected same-node group with 1/2 resident model copies and 24.00 GiB remaining"⟩ := by
    decide +kernel
  obtain ⟨-, -, hperm⟩ := placeReplica_optimal hplace
  exact ⟨_, hplace, rfl, hperm _ (List.Perm.swap _ _ _)⟩

end Selecting

end Placement
