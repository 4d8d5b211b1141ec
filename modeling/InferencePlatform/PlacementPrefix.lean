import InferencePlatform.PlacementSelection
import InferencePlatform.PrefixSelection
import Mathlib.Algebra.Order.Monoid.Prod

/-!
# Placement by sorted prefixes

`placeByNode` groups the eligible GPUs by node, sorts each node once and ranks one prefix per
node. It makes the decisions of the exhaustive search: by the lemmas on sorted prefixes, no group
of a node ranks below the prefix of that node.
-/

namespace Placement

open PythonBuiltins PrefixSelection

section Prefix

variable (request : PlacementRequest) (inventory pool : List GPU)

/-- `(not resident, free_memory_gib, identifier)`. -/
def prefixKey (gpu : GPU) : Bool ×ₗ ℚ ×ₗ String :=
  toLex (decide (request.modelRevision ∉ gpu.residentModels),
    toLex (gpu.freeMemoryGib, gpu.identifier))

/-- The first GPUs of a pool in the order of `prefixKey`. -/
def tightestPrefix : List GPU :=
  (sortedBy (prefixKey request) pool).take request.gpusRequired.toNat

def eligibleGpus : List GPU := inventory.filter (Eligible request)

/-- The eligible GPUs of each node, or all of them where a group may span nodes. -/
def eligiblePools : List (List GPU) :=
  if request.requireSameNode then
    ((eligibleGpus request inventory).map (·.node)).dedup.map
      fun node => (eligibleGpus request inventory).filter (·.node = node)
  else [eligibleGpus request inventory]

def placeByNode : Except PyError PlacementDecision := do
  validate request inventory
  let pools := (eligiblePools request inventory).filter (request.gpusRequired ≤ ·.length)
  let prefixes := pools.map (tightestPrefix request)
  pure (decisionOf request (minBy? rank (prefixes.map (groupEntry request))))

/-- What one GPU adds to the first two components of the rank of its group. -/
def gpuWeight (gpu : GPU) : ℤ ×ₗ ℚ :=
  toLex (if request.modelRevision ∈ gpu.residentModels then -1 else 0,
    gpu.freeMemoryGib - request.memoryGibPerGpu)

variable {request inventory pool} {group : List GPU}

/-! ### The prefix of a pool -/

theorem key_le_iff {a b : GPU} : key (gpuWeight request) (·.identifier) a ≤
    key (gpuWeight request) (·.identifier) b ↔ prefixKey request a ≤ prefixKey request b := by
  by_cases ha : request.modelRevision ∈ a.residentModels <;>
    by_cases hb : request.modelRevision ∈ b.residentModels <;>
    simp [key, gpuWeight, prefixKey, Prod.Lex.toLex_le_toLex, Prod.Lex.toLex_lt_toLex, ha, hb]

theorem sum_gpuWeight (group : List GPU) : (group.map (gpuWeight request)).sum =
    toLex (-residentCopies request group, remainingGib request group) := by
  induction group with
  | nil => rfl
  | cons gpu group ih =>
      rw [List.map_cons, List.sum_cons, ih, gpuWeight, ← toLex_add, Prod.mk_add_mk]
      by_cases hresident : request.modelRevision ∈ gpu.residentModels
      · simp [residentCopies, remainingGib, hresident, add_comm]
      · simp [residentCopies, remainingGib, hresident]

theorem rank_groupEntry (group : List GPU) : rank (groupEntry request group) =
    Prod.Lex.prodLexAssoc ℤ ℚ (List String) (cost (gpuWeight request) (·.identifier) group) := by
  rw [cost, sum_gpuWeight]
  rfl

theorem rank_tightestPrefix_le (hgroup : group.Subperm pool)
    (hsize : (group.length : ℤ) = request.gpusRequired) :
    rank (groupEntry request (tightestPrefix request pool)) ≤ rank (groupEntry request group) := by
  have hlen : request.gpusRequired.toNat = group.length := by omega
  rw [rank_groupEntry, rank_groupEntry, OrderIso.le_iff_le, tightestPrefix, hlen]
  exact cost_take_le (sortedBy_perm _ pool)
    ((pairwise_sortedBy (prefixKey request) pool).imp fun hab => key_le_iff.mpr hab) hgroup

/-! ### The pools of an inventory -/

/-- Eligible GPUs of the inventory, on one node where a group must share one. -/
structure IsPool (request : PlacementRequest) (inventory pool : List GPU) : Prop where
  sublist : pool.Sublist inventory
  eligible : ∀ gpu ∈ pool, Eligible request gpu
  same_node : request.requireSameNode = true → ∃ node, ∀ gpu ∈ pool, gpu.node = node

theorem isPool_filter_node (node : String) :
    IsPool request inventory ((eligibleGpus request inventory).filter (·.node = node)) where
  sublist := List.filter_sublist.trans List.filter_sublist
  eligible gpu hgpu := by
    have heligible := (List.mem_filter.mp hgpu).1
    exact of_decide_eq_true (List.mem_filter.mp heligible).2
  same_node _ := ⟨node, fun _ hgpu => of_decide_eq_true (List.mem_filter.mp hgpu).2⟩

theorem isPool_eligibleGpus (hspan : request.requireSameNode = false) :
    IsPool request inventory (eligibleGpus request inventory) where
  sublist := List.filter_sublist
  eligible _ hgpu := of_decide_eq_true (List.mem_filter.mp hgpu).2
  same_node hsame := absurd (hspan.symm.trans hsame) Bool.false_ne_true

theorem isPool_of_mem (h : pool ∈ eligiblePools request inventory) :
    IsPool request inventory pool := by
  unfold eligiblePools at h
  split_ifs at h with hsame
  · obtain ⟨node, -, rfl⟩ := List.mem_map.mp h
    exact isPool_filter_node node
  · rw [List.mem_singleton.mp h]
    exact isPool_eligibleGpus (Bool.eq_false_of_not_eq_true hsame)

theorem IsPool.isSelection (hunique : inventory.Nodup) (h : IsPool request inventory pool)
    (hgpus : 0 < request.gpusRequired) (hlen : request.gpusRequired ≤ pool.length) :
    IsSelection request inventory (tightestPrefix request pool) := by
  have hperm := sortedBy_perm (prefixKey request) pool
  have hmem {gpu : GPU} (hgpu : gpu ∈ tightestPrefix request pool) : gpu ∈ pool :=
    hperm.mem_iff.mp (List.mem_of_mem_take hgpu)
  refine ⟨?_, fun gpu hgpu => h.sublist.subset (hmem hgpu), ?_,
    fun gpu hgpu => h.eligible gpu (hmem hgpu), fun hsame => ?_⟩
  · exact (hperm.nodup_iff.mpr (h.sublist.nodup hunique)).sublist (List.take_sublist _ _)
  · rw [tightestPrefix, List.length_take, hperm.length_eq]
    omega
  · obtain ⟨node, hnode⟩ := h.same_node hsame
    exact ⟨node, fun gpu hgpu => hnode gpu (hmem hgpu)⟩

theorem IsSelection.mem_eligibleGpus (h : IsSelection request inventory group) {gpu : GPU}
    (hgpu : gpu ∈ group) : gpu ∈ eligibleGpus request inventory :=
  List.mem_filter.mpr ⟨h.subset hgpu, decide_eq_true (h.eligible gpu hgpu)⟩

theorem IsSelection.le_length (h : IsSelection request inventory group)
    (hsub : group.Subperm pool) : request.gpusRequired ≤ pool.length := by
  have := hsub.length_le
  have := h.size
  omega

theorem IsSelection.subperm_filter_node (h : IsSelection request inventory group) {node : String}
    (hnode : ∀ gpu ∈ group, gpu.node = node) :
    group.Subperm ((eligibleGpus request inventory).filter (·.node = node)) :=
  h.nodup.subperm fun gpu hgpu =>
    List.mem_filter.mpr ⟨h.mem_eligibleGpus hgpu, decide_eq_true (hnode gpu hgpu)⟩

theorem IsSelection.exists_mem_eligiblePools (h : IsSelection request inventory group)
    (hgpus : 0 < request.gpusRequired) :
    ∃ pool ∈ eligiblePools request inventory, group.Subperm pool := by
  unfold eligiblePools
  split_ifs with hsame
  · obtain ⟨node, hnode⟩ := h.same_node hsame
    refine ⟨_, List.mem_map_of_mem (List.mem_dedup.mpr ?_), h.subperm_filter_node hnode⟩
    have hpos : 0 < group.length := by
      have := h.size
      omega
    obtain ⟨gpu, hgpu⟩ := List.exists_mem_of_length_pos hpos
    exact List.mem_map.mpr ⟨gpu, h.mem_eligibleGpus hgpu, hnode gpu hgpu⟩
  · exact ⟨_, List.mem_singleton_self _, h.nodup.subperm fun gpu => h.mem_eligibleGpus⟩

/-! ### The two searches -/

/-- The prefixes include a group of least rank and nothing but groups. -/
theorem placeByNode_eq_placeReplica (request : PlacementRequest) (inventory : List GPU) :
    placeByNode request inventory = placeReplica request inventory := by
  unfold placeByNode
  rw [placeReplica_eq]
  cases hvalid : validate request inventory with
  | error e => rfl
  | ok _ =>
      have haccepted := validate_eq_ok_iff.mp hvalid
      have hunique : inventory.Nodup := haccepted.unique.of_map
      refine congrArg (fun best => Except.ok (decisionOf request best))
        (minBy?_congr rank_injective ?_ ?_)
      · intro entry hentry
        obtain ⟨_, hprefix, rfl⟩ := List.mem_map.mp hentry
        obtain ⟨pool, hpool, rfl⟩ := List.mem_map.mp hprefix
        obtain ⟨hmem, hlen⟩ := List.mem_filter.mp hpool
        have hselection := (isPool_of_mem hmem).isSelection hunique haccepted.gpus_pos
          (of_decide_eq_true hlen)
        exact ⟨_, (mem_groupEntries haccepted).mpr ⟨_, hselection, rfl⟩, le_rfl⟩
      · intro entry hentry
        obtain ⟨group, hgroup, rfl⟩ := (mem_groupEntries haccepted).mp hentry
        obtain ⟨pool, hpool, hsub⟩ := hgroup.exists_mem_eligiblePools haccepted.gpus_pos
        have hlong := decide_eq_true (hgroup.le_length hsub)
        refine ⟨_, List.mem_map_of_mem (List.mem_map_of_mem
          (List.mem_filter.mpr ⟨hpool, hlong⟩)), ?_⟩
        exact rank_tightestPrefix_le hsub hgroup.size

/-- The prefix of a pool that holds a group of least rank has the entry of that group. -/
theorem groupEntry_tightestPrefix (hunique : inventory.Nodup) (hgpus : 0 < request.gpusRequired)
    (hgroup : IsSelection request inventory group)
    (hleast : ∀ other, IsSelection request inventory other →
      rank (groupEntry request group) ≤ rank (groupEntry request other))
    (hpool : IsPool request inventory pool) (hsub : group.Subperm pool) :
    groupEntry request group = groupEntry request (tightestPrefix request pool) := by
  have hselection := hpool.isSelection hunique hgpus (hgroup.le_length hsub)
  exact rank_injective (le_antisymm (hleast _ hselection)
    (rank_tightestPrefix_le hsub hgroup.size))

/-- A placed group is the sorted prefix of the eligible GPUs of its node. -/
theorem placeReplica_tightest {decision : PlacementDecision}
    (h : placeReplica request inventory = .ok decision) (hplaced : decision.placed = true) :
    (decision.gpuIds.length : ℤ) = request.gpusRequired ∧
      (request.requireSameNode = true → ∃ node,
        (∀ gpu ∈ inventory, gpu.identifier ∈ decision.gpuIds → gpu.node = node) ∧
          decision.gpuIds = sortedIdentifiers (tightestPrefix request
            ((eligibleGpus request inventory).filter (·.node = node)))) ∧
      (request.requireSameNode = false → decision.gpuIds =
        sortedIdentifiers (tightestPrefix request (eligibleGpus request inventory))) ∧
      placeByNode request inventory = .ok decision := by
  have haccepted := (placeReplica_eq_ok_iff.mp h).1
  have hunique : inventory.Nodup := haccepted.unique.of_map
  obtain ⟨group, hgroup, hdecision, hleast⟩ := exists_least_selection h hplaced
  have hids : decision.gpuIds = sortedIdentifiers group := by
    rw [hdecision]
    rfl
  have hprefix {pool : List GPU} (hpool : IsPool request inventory pool)
      (hsub : group.Subperm pool) :
      sortedIdentifiers group = sortedIdentifiers (tightestPrefix request pool) := by
    have hentry := groupEntry_tightestPrefix hunique haccepted.gpus_pos hgroup hleast hpool hsub
    exact congrArg (fun entry => entry.2.2) hentry
  have hperm := sortedBy_perm id (group.map (·.identifier))
  rw [hids]
  refine ⟨?_, fun hsame => ?_, fun hspan => ?_, (placeByNode_eq_placeReplica _ _).trans h⟩
  · rw [sortedIdentifiers, hperm.length_eq, List.length_map, hgroup.size]
  · obtain ⟨node, hnode⟩ := hgroup.same_node hsame
    refine ⟨node, fun gpu hgpu hid => ?_,
      hprefix (isPool_filter_node node) (hgroup.subperm_filter_node hnode)⟩
    obtain ⟨chosen, hchosen, heq⟩ := List.mem_map.mp (hperm.mem_iff.mp hid)
    rw [← List.inj_on_of_nodup_map haccepted.unique (hgroup.subset hchosen) hgpu heq]
    exact hnode chosen hchosen
  · exact hprefix (isPool_eligibleGpus hspan)
      (hgroup.nodup.subperm fun gpu => hgroup.mem_eligibleGpus)

theorem placeReplica_tightest_two_of_three :
    ∃ decision, placeReplica ⟨"r", "m", 2, 20, {"cuda"}, false⟩
        [⟨"c", "n1", 80, {"cuda"}, ∅⟩, ⟨"a", "n2", 24, {"cuda"}, ∅⟩,
          ⟨"b", "n1", 40, {"cuda"}, {"m"}⟩] = .ok decision ∧ decision.gpuIds = ["a", "b"] ∧
      placeByNode ⟨"r", "m", 2, 20, {"cuda"}, false⟩
        [⟨"c", "n1", 80, {"cuda"}, ∅⟩, ⟨"a", "n2", 24, {"cuda"}, ∅⟩,
          ⟨"b", "n1", 40, {"cuda"}, {"m"}⟩] = .ok decision := by
  have hplace : placeReplica ⟨"r", "m", 2, 20, {"cuda"}, false⟩
      [⟨"c", "n1", 80, {"cuda"}, ∅⟩, ⟨"a", "n2", 24, {"cuda"}, ∅⟩,
        ⟨"b", "n1", 40, {"cuda"}, {"m"}⟩] = .ok ⟨true, ["a", "b"],
      "selected cross-node permitted group with 1/2 resident model copies and 24.00 GiB remaining"⟩
      := by
    decide +kernel
  exact ⟨_, hplace, rfl, (placeReplica_tightest hplace rfl).2.2.2⟩

end Prefix

end Placement
