import InferencePlatform.PythonBuiltins
import Mathlib.Data.List.Lex
import Mathlib.Data.Prod.Lex

/-!
# Placement of one replica

`placeReplica` enumerates the combinations of eligible GPUs in the order of the inventory and
takes the first one of least rank. Capabilities and resident models are finite sets, and memory
sizes are exact rationals.
-/

namespace Placement

open PythonBuiltins

structure GPU where
  identifier : String
  node : String
  freeMemoryGib : ℚ
  capabilities : Finset String
  residentModels : Finset String := ∅
  deriving DecidableEq

structure PlacementRequest where
  replica : String
  modelRevision : String
  gpusRequired : ℤ
  memoryGibPerGpu : ℚ
  requiredCapabilities : Finset String
  requireSameNode : Bool := true
  deriving DecidableEq

structure PlacementDecision where
  placed : Bool
  gpuIds : List String
  reason : String
  deriving DecidableEq, Repr

/-- `itertools.combinations`, in its order. -/
def combinations {α : Type*} : ℕ → List α → List (List α)
  | 0, _ => [[]]
  | _ + 1, [] => []
  | r + 1, x :: xs => (combinations r xs).map (x :: ·) ++ combinations (r + 1) xs

theorem mem_combinations {α : Type*} {r : ℕ} {xs group : List α} :
    group ∈ combinations r xs ↔ group.Sublist xs ∧ group.length = r := by
  induction xs generalizing r group with
  | nil =>
      cases r with
      | zero => simp [combinations]
      | succ r =>
          simp only [combinations, List.not_mem_nil, List.sublist_nil, false_iff, not_and]
          rintro rfl
          exact (Nat.succ_ne_zero r).symm
  | cons x xs ih =>
      cases r with
      | zero =>
          simp only [combinations, List.mem_singleton, List.length_eq_zero_iff]
          exact ⟨fun h => ⟨h ▸ List.nil_sublist _, h⟩, And.right⟩
      | succ r =>
          simp only [combinations, List.mem_append, List.mem_map, ih]
          constructor
          · rintro (⟨group, ⟨hsub, rfl⟩, rfl⟩ | ⟨hsub, hlen⟩)
            · exact ⟨hsub.cons_cons x, rfl⟩
            · exact ⟨hsub.cons x, hlen⟩
          · rintro ⟨hsub, hlen⟩
            cases hsub with
            | cons _ hsub => exact Or.inr ⟨hsub, hlen⟩
            | cons_cons _ hsub => exact Or.inl ⟨_, ⟨hsub, Nat.succ.inj hlen⟩, rfl⟩

section Placing

variable (request : PlacementRequest) (inventory : List GPU)

def validate : Except PyError Unit :=
  let identifiers := inventory.map (·.identifier)
  if isBlank request.replica ∨ isBlank request.modelRevision then
    throw (.valueError "replica and model revision are required")
  else if request.gpusRequired ≤ 0 ∨ request.memoryGibPerGpu ≤ 0 then
    throw (.valueError "GPU count and memory requirement must be positive")
  else if identifiers.dedup.length ≠ identifiers.length then
    throw (.valueError "GPU identifiers must be unique")
  else if inventory.any (·.freeMemoryGib < 0) then
    throw (.valueError "free GPU memory may not be negative")
  else pure ()

/-- A GPU with enough free memory and the required capabilities. -/
def Eligible (gpu : GPU) : Prop :=
  request.memoryGibPerGpu ≤ gpu.freeMemoryGib ∧ request.requiredCapabilities ⊆ gpu.capabilities

instance : DecidablePred (Eligible request) := fun _ => inferInstanceAs (Decidable (_ ∧ _))

/-- Resident copies, remaining memory and sorted identifiers of a group. -/
def groupEntry (group : List GPU) : ℤ × ℚ × List String :=
  (group.countP (fun gpu => request.modelRevision ∈ gpu.residentModels),
    (group.map fun gpu => gpu.freeMemoryGib - request.memoryGibPerGpu).sum,
    sortedBy id (group.map (·.identifier)))

def usableGroups : List (List GPU) :=
  (combinations request.gpusRequired.toNat (inventory.filter (Eligible request))).filter
    fun group => ¬ (request.requireSameNode ∧ (group.map (·.node)).dedup.length ≠ 1)

def rank (entry : ℤ × ℚ × List String) : ℤ ×ₗ ℚ ×ₗ List String :=
  toLex (-entry.1, toLex (entry.2.1, entry.2.2))

def placeReplica : Except PyError PlacementDecision := do
  validate request inventory
  let groups := (usableGroups request inventory).map (groupEntry request)
  match minBy? rank groups with
  | none =>
    pure ⟨false, [], "no GPU group satisfies memory, capability, and locality constraints"⟩
  | some (resident, remaining, ids) =>
    let locality := if request.requireSameNode then "same-node" else "cross-node permitted"
    let reason := "selected " ++ locality ++ " group with " ++ toString resident ++ "/" ++
      toString request.gpusRequired ++ " resident model copies and " ++ fixed2 remaining ++
      " GiB remaining"
    pure ⟨true, ids, reason⟩

/-- What the validator accepts. -/
structure Accepted : Prop where
  replica_named : isBlank request.replica = false
  revision_named : isBlank request.modelRevision = false
  gpus_pos : 0 < request.gpusRequired
  memory_pos : 0 < request.memoryGibPerGpu
  unique : (inventory.map (·.identifier)).Nodup
  free_nonneg : ∀ gpu ∈ inventory, 0 ≤ gpu.freeMemoryGib

/-! ### The groups of the search -/

/-- A group of the inventory that meets memory, capability and locality constraints. -/
structure IsGroup (group : List GPU) : Prop where
  sublist : group.Sublist inventory
  size : (group.length : ℤ) = request.gpusRequired
  eligible : ∀ gpu ∈ group, Eligible request gpu
  same_node : request.requireSameNode = true → ∃ node, ∀ gpu ∈ group, gpu.node = node

variable {request inventory}

theorem validate_eq_ok_iff :
    validate request inventory = .ok () ↔ Accepted request inventory := by
  unfold validate
  simp only [Except.ite_throw_eq_ok_iff, not_or, not_le, ne_eq, not_not, dedup_length_eq_iff,
    List.any_eq_true, decide_eq_true_eq, not_exists, not_and, not_lt, Bool.not_eq_true]
  constructor
  · rintro ⟨⟨hreplica, hrevision⟩, ⟨hgpus, hmemory⟩, hunique, hfree, -⟩
    exact ⟨hreplica, hrevision, hgpus, hmemory, hunique, hfree⟩
  · intro h
    exact ⟨⟨h.replica_named, h.revision_named⟩, ⟨h.gpus_pos, h.memory_pos⟩, h.unique,
      h.free_nonneg, rfl⟩

theorem dedup_length_eq_one_iff {names : List String} (hne : names ≠ []) :
    names.dedup.length = 1 ↔ ∃ name, ∀ n ∈ names, n = name := by
  constructor
  · intro h
    obtain ⟨name, hname⟩ := List.length_eq_one_iff.mp h
    refine ⟨name, fun n hn => ?_⟩
    rw [← List.mem_dedup, hname] at hn
    exact List.mem_singleton.mp hn
  · rintro ⟨name, hname⟩
    have hall : ∀ n ∈ names.dedup, n = name := fun n hn => hname n (List.mem_dedup.mp hn)
    have hnd := List.nodup_dedup names
    rw [List.eq_replicate_of_mem hall] at hnd
    have hle := List.nodup_replicate.mp hnd
    obtain ⟨n, hn⟩ := List.exists_mem_of_ne_nil names hne
    have hpos := List.length_pos_of_mem (List.mem_dedup.mpr hn)
    omega

theorem IsGroup.sublist_filter {group : List GPU} (h : IsGroup request inventory group) :
    group.Sublist (inventory.filter (Eligible request)) := by
  rw [← List.filter_eq_self.mpr fun gpu hgpu => decide_eq_true (h.eligible gpu hgpu)]
  exact h.sublist.filter _

theorem mem_usableGroups (hsize : 0 < request.gpusRequired) {group : List GPU} :
    group ∈ usableGroups request inventory ↔ IsGroup request inventory group := by
  rw [usableGroups, List.mem_filter, mem_combinations, decide_eq_true_eq]
  have hnodes (hlen : group.length = request.gpusRequired.toNat) :
      (group.map (·.node)).dedup.length = 1 ↔ ∃ node, ∀ gpu ∈ group, gpu.node = node := by
    have hne : group.map (·.node) ≠ [] := by
      intro hnil
      rw [List.map_eq_nil_iff.mp hnil, List.length_nil] at hlen
      omega
    rw [dedup_length_eq_one_iff hne]
    simp only [List.forall_mem_map]
  constructor
  · rintro ⟨⟨hsub, hlen⟩, hnode⟩
    refine ⟨hsub.trans List.filter_sublist, by omega, fun gpu hgpu => ?_, fun hsame => ?_⟩
    · exact of_decide_eq_true (List.mem_filter.mp (hsub.subset hgpu)).2
    · rw [← hnodes hlen]
      by_contra hone
      exact hnode ⟨hsame, hone⟩
  · intro h
    have hlen : group.length = request.gpusRequired.toNat := by
      have := h.size
      omega
    exact ⟨⟨h.sublist_filter, hlen⟩,
      fun hnode => hnode.2 ((hnodes hlen).mpr (h.same_node hnode.1))⟩

/-- A replica is placed exactly when some group meets every constraint. -/
theorem placeReplica_placed_iff {decision : PlacementDecision}
    (h : placeReplica request inventory = .ok decision) :
    decision.placed = true ↔ ∃ group, IsGroup request inventory group := by
  obtain ⟨_, hvalid, h⟩ := Except.bind_eq_ok_iff.mp h
  have hsize := (validate_eq_ok_iff.mp hvalid).gpus_pos
  dsimp only at h
  cases hbest : minBy? rank ((usableGroups request inventory).map (groupEntry request)) with
  | none =>
      rw [hbest] at h
      obtain rfl := Except.ok.inj h
      rw [minBy?_eq_none_iff, List.map_eq_nil_iff] at hbest
      refine iff_of_false Bool.false_ne_true ?_
      rintro ⟨group, hgroup⟩
      rw [← mem_usableGroups hsize, hbest] at hgroup
      cases hgroup
  | some best =>
      rw [hbest] at h
      obtain rfl := Except.ok.inj h
      obtain ⟨group, hgroup, -⟩ := List.mem_map.mp (minBy?_spec hbest).1
      exact iff_of_true rfl ⟨group, (mem_usableGroups hsize).mp hgroup⟩

theorem nodup_of_placeReplica {decision : PlacementDecision}
    (h : placeReplica request inventory = .ok decision) : inventory.Nodup := by
  obtain ⟨_, hvalid, _⟩ := Except.bind_eq_ok_iff.mp h
  exact (validate_eq_ok_iff.mp hvalid).unique.of_map _

/-- Locality and eligibility make a group one group of a packing by node. -/
theorem isGroup_iff_of_sameNode (hsame : request.requireSameNode = true) {group : List GPU} :
    IsGroup request inventory group ↔ group.Sublist (inventory.filter (Eligible request)) ∧
      (group.length : ℤ) = request.gpusRequired ∧ ∃ node, ∀ gpu ∈ group, gpu.node = node := by
  constructor
  · exact fun h => ⟨h.sublist_filter, h.size, h.same_node hsame⟩
  · rintro ⟨hsub, hsize, hnode⟩
    exact ⟨hsub.trans List.filter_sublist, hsize,
      fun gpu hgpu => of_decide_eq_true (List.mem_filter.mp (hsub.subset hgpu)).2, fun _ => hnode⟩

end Placing

end Placement
