import InferencePlatform.BatchingRecurrence
import InferencePlatform.LaneBlocks

/-!
# Head-of-line blocking in the batching simulator

The workload of `LaneBlocks` as requests that all arrive at once, queued by identifiers of growing
length. Static batching takes one long service for each of its batches. Continuous batching takes
one for all of them, apart from a delay that does not depend on how long they are.
-/

namespace Batching

open PythonBuiltins LaneSchedule

def blockingRequest (c : ℕ) (size : ℤ) (i : ℕ) : BatchRequest :=
  ⟨repeatName i, 0, blockLength c size i⟩

/-- Batches of `c` requests with a long one at the head, and another long request. -/
def blockingWorkload (c : ℕ) (size : ℤ) : List BatchRequest :=
  (List.range (c * (c - 1) + 1)).map (blockingRequest c size)

section Blocking

variable {c : ℕ} {size : ℤ}

theorem blockingWorkload_accepted (hsize : 1 ≤ size) : Accepted (blockingWorkload c size) := by
  have hmap {P : BatchRequest → Prop} (h : ∀ i, P (blockingRequest c size i)) :
      ∀ r ∈ blockingWorkload c size, P r := List.forall_mem_map.mpr fun i _ => h i
  constructor
  case nonempty => simp [blockingWorkload]
  case named => exact hmap fun i => isBlank_repeatName i
  case unique =>
    rw [blockingWorkload, List.map_map]
    exact List.nodup_range.map repeatName_injective
  case arrival_nonneg => exact hmap fun i => le_rfl
  case output_pos => exact hmap fun i => blockLength_pos hsize i

theorem sortedBy_blockingWorkload :
    sortedBy queueKey (blockingWorkload c size) = blockingWorkload c size := by
  apply List.Pairwise.insertionSort_eq
  rw [blockingWorkload, List.pairwise_map]
  refine List.pairwise_lt_range.imp fun {i j} hij => ?_
  exact Prod.Lex.toLex_le_toLex.mpr (.inr ⟨rfl, repeatName_le hij.le⟩)

variable {mode : BatchMode} {start : BatchRequest → ℤ} {run : BatchRun}

theorem mem_blockingWorkload {r : BatchRequest} :
    r ∈ blockingWorkload c size ↔ ∃ i ≤ c * (c - 1), blockingRequest c size i = r := by
  simp only [blockingWorkload, List.mem_map, List.mem_range, Nat.lt_succ_iff]

theorem isLeast_arrival :
    IsLeast {t | ∃ r ∈ blockingWorkload c size, r.arrivalStep = t} 0 := by
  constructor
  · exact ⟨blockingRequest c size 0, mem_blockingWorkload.mpr ⟨0, Nat.zero_le _, rfl⟩, rfl⟩
  · rintro _ ⟨r, hr, rfl⟩
    obtain ⟨i, -, rfl⟩ := mem_blockingWorkload.mp hr
    exact le_rfl

/-- The static starts are the batch starts of the library. -/
theorem Recurrence.start_blocking (hc : 0 < c) (hsize : 1 ≤ size)
    (h : Recurrence (blockingWorkload c size) c .static start run) :
    ∀ i ≤ c * (c - 1), start (blockingRequest c size i) = blockStart c size i := by
  have hleast := h.leastStart
  rw [sortedBy_blockingWorkload, blockingWorkload] at hleast
  have hback : LeastStart (fun _ => 0) (BatchRoom (blockLength c size) c)
      (fun i => start (blockingRequest c size i) - 0) (List.range (c * (c - 1) + 1)) :=
    hleast.comap (blockingRequest c size) 0 (fun _ => rfl) (batchRoom_map _ _ _ 0 fun _ => rfl)
  have heq := hback.unique (causal_batchRoom _ _) (leastStart_blockStart hc hsize _)
  intro i hi
  simpa using heq i (List.mem_range.mpr (by omega))

theorem Recurrence.makespan_static (hc : 0 < c) (hsize : 1 ≤ size)
    (h : Recurrence (blockingWorkload c size) c .static start run) :
    run.makespanSteps = c * size := by
  have hstart := h.start_blocking hc hsize
  have hlast : IsGreatest {t | ∃ r ∈ blockingWorkload c size, start r + r.outputTokens = t}
      (c * size) := by
    constructor
    · refine ⟨_, mem_blockingWorkload.mpr ⟨c * (c - 1), le_rfl, rfl⟩, ?_⟩
      rw [hstart _ le_rfl, blockStart, Nat.mul_div_cancel_left _ hc]
      change _ + blockLength c size (c * (c - 1)) = _
      rw [blockLength, if_pos (Nat.mul_mod_right c (c - 1)), Nat.cast_sub hc]
      push_cast
      ring
    · rintro _ ⟨r, hr, rfl⟩
      obtain ⟨i, hi, rfl⟩ := mem_blockingWorkload.mp hr
      have hdiv : i / c + 1 ≤ c := by
        have := Nat.div_le_of_le_mul hi
        omega
      rw [hstart i hi]
      calc blockStart c size i + blockLength c size i
          ≤ (i / c : ℕ) * size + size := add_le_add_right (blockLength_le hsize i) _
        _ = (i / c + 1 : ℕ) * size := by push_cast; ring
        _ ≤ c * size := by
            apply mul_le_mul_of_nonneg_right _ (by omega)
            exact_mod_cast hdiv
  obtain ⟨last, first, hlast', hfirst, hmakespan⟩ := h.makespan
  rw [hmakespan, hlast'.unique hlast, hfirst.unique isLeast_arrival, sub_zero]

theorem Recurrence.makespan_continuous (hc : 0 < c) (hsize : 1 ≤ size)
    (h : Recurrence (blockingWorkload c size) c .continuous start run) :
    run.makespanSteps ≤ size + ((c - 1) ^ 2 : ℕ) := by
  have hbusy := h.keepsBusy
  rw [sortedBy_blockingWorkload, blockingWorkload] at hbusy
  have hstart := (hbusy.of_map (blockingRequest c size)).start_le_of_blocks hc hsize
  obtain ⟨last, first, ⟨⟨r, hr, rfl⟩, -⟩, hfirst, hmakespan⟩ := h.makespan
  obtain ⟨i, hi, rfl⟩ := mem_blockingWorkload.mp hr
  have hle := hstart i (List.mem_range.mpr (by omega))
  have hlen : (blockingRequest c size i).outputTokens ≤ size := blockLength_le hsize i
  rw [hmakespan, hfirst.unique isLeast_arrival]
  omega

/-- On `c` lanes static batching can be slower by any factor below `c`: on this workload it takes
`c` long services one after the other, and continuous batching a single one. -/
theorem static_blocks_head_of_line (hc : 0 < c) (hsize : 1 ≤ size) :
    ∃ static continuous, Returns (blockingWorkload c size) c .static static ∧
      Returns (blockingWorkload c size) c .continuous continuous ∧
      static.makespanSteps = c * size ∧
      continuous.makespanSteps ≤ size + ((c - 1) ^ 2 : ℕ) ∧
      ∀ k : ℕ, k < c → k * (c - 1) ^ 2 < size →
        k * continuous.makespanSteps < static.makespanSteps := by
  have h := blockingWorkload_accepted (c := c) hsize
  have hcapacity : (1 : ℤ) ≤ c := by exact_mod_cast hc
  obtain ⟨start, static, hrec, hreturns, -⟩ := exists_recurrence h hcapacity .static
  obtain ⟨start', continuous, hrec', hreturns', -⟩ := exists_recurrence h hcapacity .continuous
  have hstatic := hrec.makespan_static hc hsize
  have hcontinuous := hrec'.makespan_continuous hc hsize
  refine ⟨static, continuous, hreturns, hreturns', hstatic, hcontinuous, ?_⟩
  intro k hk hlong
  have hk' : (k : ℤ) + 1 ≤ c := by exact_mod_cast hk
  rw [hstatic]
  calc k * continuous.makespanSteps
      ≤ k * (size + ((c - 1) ^ 2 : ℕ)) := mul_le_mul_of_nonneg_left hcontinuous (by positivity)
    _ = k * size + k * ((c - 1) ^ 2 : ℕ) := by ring
    _ < k * size + size := by
        rw [Nat.cast_pow, Nat.cast_sub hc]
        push_cast
        linarith
    _ = (k + 1) * size := by ring
    _ ≤ c * size := mul_le_mul_of_nonneg_right hk' (by omega)

theorem static_blocks_head_of_line_two :
    ∃ static continuous, Returns (blockingWorkload 3 100) 3 .static static ∧
      Returns (blockingWorkload 3 100) 3 .continuous continuous ∧
      2 * continuous.makespanSteps < static.makespanSteps := by
  obtain ⟨static, continuous, hstatic, hcontinuous, -, -, hslower⟩ :=
    @static_blocks_head_of_line 3 100 (by decide) (by decide)
  exact ⟨static, continuous, hstatic, hcontinuous, hslower 2 (by decide) (by norm_num)⟩

end Blocking

end Batching
