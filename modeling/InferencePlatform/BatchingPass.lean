import InferencePlatform.Batching
import InferencePlatform.LaneSchedule

/-!
# The inner loops of the batching simulator

What the two list loops of a pass compute. `joinQueue` moves the arrived requests from the head
of `pending` to the end of `waiting` and keeps their order. The emitting loop never misses an
entry of `first_service`, completes the lanes on their last token, and leaves the other lanes
with one token less, although it writes to the dictionary whose items it goes through.
-/

namespace Batching

open PythonBuiltins LaneSchedule OrderedDict

/-! ### Joining the queue -/

theorem joinQueue_append (step : ℤ) (pending waiting : List BatchRequest) :
    (joinQueue step pending waiting).2 ++ (joinQueue step pending waiting).1 =
      waiting ++ pending := by
  induction pending generalizing waiting with
  | nil => rfl
  | cons r pending ih =>
      unfold joinQueue
      split_ifs with h
      · rw [ih]
        simp
      · rfl

theorem joinQueue_arrived (step : ℤ) (pending waiting : List BatchRequest)
    (hw : ∀ r ∈ waiting, r.arrivalStep ≤ step) :
    ∀ r ∈ (joinQueue step pending waiting).2, r.arrivalStep ≤ step := by
  induction pending generalizing waiting with
  | nil => exact hw
  | cons r pending ih =>
      unfold joinQueue
      split_ifs with h
      · apply ih
        intro k hk
        rcases List.mem_append.mp hk with hk | hk
        · exact hw k hk
        · rwa [List.mem_singleton.mp hk]
      · exact hw

theorem joinQueue_head (step : ℤ) (pending waiting : List BatchRequest) {r : BatchRequest}
    {rest : List BatchRequest} (h : (joinQueue step pending waiting).1 = r :: rest) :
    step < r.arrivalStep := by
  induction pending generalizing waiting with
  | nil => cases h
  | cons k pending ih =>
      unfold joinQueue at h
      split_ifs at h with hk
      · exact ih _ h
      · obtain rfl := List.head_eq_of_cons_eq h
        exact not_le.mp hk

/-! ### Emitting tokens -/

def isLast (item : String × BatchRequest × ℤ) : Prop := item.2.2 - 1 = 0

instance : DecidablePred isLast := fun item => inferInstanceAs (Decidable (item.2.2 - 1 = 0))

def startOf (firstService : OrderedDict String ℤ) (identifier : String) : ℤ :=
  (firstService.get? identifier).getD 0

theorem getItem_firstService {firstService : OrderedDict String ℤ} {identifier : String}
    (h : identifier ∈ firstService.keys) :
    getItem firstService identifier = .ok (startOf firstService identifier) := by
  obtain ⟨v, hv⟩ := mem_keys_iff.mp h
  have hget := get?_eq_some_iff.mpr hv
  rw [getItem_of_get? hget, startOf, hget]
  rfl

theorem foldlM_emitToken (step : ℤ) (firstService : OrderedDict String ℤ)
    (items : List (String × BatchRequest × ℤ)) (hkeys : ∀ e ∈ items, e.1 ∈ firstService.keys)
    (active : Active) (completed : List Completion) (finished : List String) :
    items.foldlM (emitToken step firstService) (active, completed, finished) =
      .ok (items.foldl (fun d e => if isLast e then d else d.set e.1 (e.2.1, e.2.2 - 1)) active,
        completed ++ (items.filter isLast).map
          (fun e => ⟨e.1, startOf firstService e.1, step + 1⟩),
        finished ++ (items.filter isLast).map Prod.fst) := by
  induction items generalizing active completed finished with
  | nil => simp only [List.foldlM_nil, List.foldl_nil, List.filter_nil, List.map_nil,
      List.append_nil]; rfl
  | cons e items ih =>
      have hrest : ∀ e' ∈ items, e'.1 ∈ firstService.keys := fun e' he' =>
        hkeys e' (List.mem_cons_of_mem _ he')
      rw [List.foldlM_cons]
      by_cases he : isLast e
      · have hemit : emitToken step firstService (active, completed, finished) e =
            .ok (active, completed ++ [⟨e.1, startOf firstService e.1, step + 1⟩],
              finished ++ [e.1]) := by
          unfold emitToken
          dsimp only
          rw [if_pos (show e.2.2 - 1 = 0 from he),
            getItem_firstService (hkeys e List.mem_cons_self)]
          rfl
        rw [hemit]
        change items.foldlM (emitToken step firstService) _ = _
        rw [ih hrest, List.foldl_cons, if_pos he, List.filter_cons_of_pos (by simpa using he)]
        simp only [List.map_cons, List.append_assoc, List.singleton_append]
      · have hemit : emitToken step firstService (active, completed, finished) e =
            .ok (active.set e.1 (e.2.1, e.2.2 - 1), completed, finished) := by
          unfold emitToken
          dsimp only
          rw [if_neg (show ¬ e.2.2 - 1 = 0 from he)]
          rfl
        rw [hemit]
        change items.foldlM (emitToken step firstService) _ = _
        rw [ih hrest, List.foldl_cons, if_neg he, List.filter_cons_of_neg (by simpa using he)]

/-- After one token on every lane, the lanes that are not done carry one token less. -/
theorem items_after_emit (active : Active) :
    (((active.items.filter isLast).map Prod.fst).foldl erase
      (active.items.foldl (fun d e => if isLast e then d else d.set e.1 (e.2.1, e.2.2 - 1))
        active)).items =
      (active.items.filter (fun e => ¬ isLast e)).map (fun e => (e.1, e.2.1, e.2.2 - 1)) := by
  have hloop := items_foldl_set isLast (fun e => (e.2.1, e.2.2 - 1)) active [] active.items rfl
  rw [items_foldl_erase, hloop, List.nil_append, List.filter_map]
  have hmem (e : String × BatchRequest × ℤ) (he : e ∈ active.items) :
      e.1 ∈ (active.items.filter isLast).map Prod.fst ↔ isLast e := by
    constructor
    · intro h
      obtain ⟨e', he', hk⟩ := List.mem_map.mp h
      have heq := List.inj_on_of_nodup_map active.nodup_keys (List.mem_of_mem_filter he') he hk
      rw [← heq]
      simpa using (List.mem_filter.mp he').2
    · intro h
      exact List.mem_map_of_mem (List.mem_filter.mpr ⟨he, by simpa using h⟩)
  have hfilter : active.items.filter ((fun e => e.1 ∉ (active.items.filter isLast).map Prod.fst) ∘
      fun e => if isLast e then e else (e.1, e.2.1, e.2.2 - 1)) =
      active.items.filter (fun e => ¬ isLast e) := by
    apply List.filter_congr
    intro e he
    have hfst : (if isLast e then e else (e.1, e.2.1, e.2.2 - 1)).1 = e.1 := by
      split_ifs <;> rfl
    simp only [Function.comp_apply, hfst, hmem e he]
  rw [hfilter]
  apply List.map_congr_left
  intro e he
  exact if_neg (by simpa using (List.mem_filter.mp he).2)

end Batching
