import InferencePlatform.PlacementSelection

/-!
# Placement while the inventory changes

Between a plan and its allocation other schedulers take and return devices. A placement does not
depend on devices outside the chosen group: without some of them the same group is chosen again,
and with more of them either the same group or one with a new device in it.
-/

namespace Placement

open PythonBuiltins

variable {request : PlacementRequest} {inventory inventory' : List GPU} {group : List GPU}
  {decision decision' : PlacementDecision}

theorem Accepted.of_subperm (h : Accepted request inventory) (hsub : inventory'.Subperm inventory) :
    Accepted request inventory' := by
  obtain ⟨kept, hperm, hkept⟩ := hsub
  refine Accepted.perm hperm { h with unique := ?_, free_nonneg := ?_ }
  · exact h.unique.sublist (hkept.map _)
  · exact fun gpu hgpu => h.free_nonneg gpu (hkept.subset hgpu)

theorem IsSelection.of_subset (h : IsSelection request inventory group)
    (hsub : group ⊆ inventory') : IsSelection request inventory' group :=
  { h with subset := hsub }

theorem mem_sortedIdentifiers {x : String} :
    x ∈ sortedIdentifiers group ↔ ∃ gpu ∈ group, gpu.identifier = x := by
  rw [sortedIdentifiers, mem_sortedBy, List.mem_map]

/-- What is chosen again when other devices are gone. -/
theorem placeReplica_of_subperm (h : placeReplica request inventory = .ok decision)
    (hsub : inventory'.Subperm inventory)
    (hkept : ∀ gpu ∈ inventory, gpu.identifier ∈ decision.gpuIds → gpu ∈ inventory') :
    placeReplica request inventory' = .ok decision := by
  have haccepted := (placeReplica_eq_ok_iff.mp h).1
  have haccepted' := haccepted.of_subperm hsub
  refine placeReplica_eq_ok_iff.mpr ⟨haccepted', ?_⟩
  rw [← (placeReplica_eq_ok_iff.mp h).2]
  refine congrArg (decisionOf request) (minBy?_congr rank_injective ?_ ?_)
  · intro entry hentry
    obtain ⟨group, hgroup, rfl⟩ := (mem_groupEntries haccepted').mp hentry
    exact ⟨_, (mem_groupEntries haccepted).mpr
      ⟨group, hgroup.of_subset fun _ hgpu => hsub.subset (hgroup.subset hgpu), rfl⟩, le_rfl⟩
  · intro entry hentry
    obtain ⟨other, hother, rfl⟩ := (mem_groupEntries haccepted).mp hentry
    have hplaced : decision.placed = true :=
      (exists_isSelection_iff_placed h).mpr ⟨other, hother⟩
    obtain ⟨group, hgroup, hdecision, hleast⟩ := exists_least_selection h hplaced
    have hids : decision.gpuIds = sortedIdentifiers group := by rw [hdecision]; rfl
    refine ⟨_, (mem_groupEntries haccepted').mpr ⟨group, hgroup.of_subset ?_, rfl⟩,
      hleast other hother⟩
    intro gpu hgpu
    apply hkept gpu (hgroup.subset hgpu)
    rw [hids]
    exact mem_sortedIdentifiers.mpr ⟨gpu, hgpu, rfl⟩

end Placement
