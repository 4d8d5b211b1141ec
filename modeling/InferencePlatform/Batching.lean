import InferencePlatform.PythonBuiltins
import InferencePlatform.WhileLoop
import Mathlib.Data.Prod.Lex

/-!
# The batching simulator

One pass of the outer loop is `iteration`: arrived requests join the queue, free lanes are
filled when the mode allows it, and every active request emits one token; with nothing active
the clock jumps to the next arrival instead. `simulateBatching` makes as many passes as its
fuel allows and is `none` when that is not enough.
-/

namespace Batching

open PythonBuiltins WhileLoop

inductive BatchMode
  | static
  | continuous
  deriving DecidableEq, Repr

structure BatchRequest where
  identifier : String
  arrivalStep : ℤ
  outputTokens : ℤ
  deriving DecidableEq, Repr

structure Completion where
  identifier : String
  firstServiceStep : ℤ
  completionStep : ℤ
  deriving DecidableEq, Repr

structure BatchRun where
  mode : BatchMode
  completions : List Completion
  makespanSteps : ℤ
  totalWaitSteps : ℤ
  deriving DecidableEq, Repr

/-- A request with the tokens it still has to emit, under its identifier. -/
abbrev Active := OrderedDict String (BatchRequest × ℤ)

structure BatchState where
  pending : List BatchRequest
  waiting : List BatchRequest
  active : Active
  firstService : OrderedDict String ℤ
  completed : List Completion
  step : ℤ

def queueKey (request : BatchRequest) : ℤ ×ₗ String :=
  toLex (request.arrivalStep, request.identifier)

/-- `while pending and pending[0].arrival_step <= step: waiting.append(pending.pop(0))`. -/
def joinQueue (step : ℤ) :
    List BatchRequest → List BatchRequest → List BatchRequest × List BatchRequest
  | [], waiting => ([], waiting)
  | request :: pending, waiting =>
    if request.arrivalStep ≤ step then joinQueue step pending (waiting ++ [request])
    else (request :: pending, waiting)

/-- `while waiting and len(active) < capacity`, on `(waiting, active, first_service)`. -/
def fillLanes (capacity step : ℤ) : List BatchRequest → Active → OrderedDict String ℤ →
    List BatchRequest × Active × OrderedDict String ℤ
  | [], active, firstService => ([], active, firstService)
  | request :: waiting, active, firstService =>
    if (active.items.length : ℤ) < capacity then
      fillLanes capacity step waiting
        (active.set request.identifier (request, request.outputTokens))
        (firstService.set request.identifier step)
    else (request :: waiting, active, firstService)

/-- The body of `for identifier, (request, remaining) in tuple(active.items())`, with the state
`(active, completed, finished)`. -/
def emitToken (step : ℤ) (firstService : OrderedDict String ℤ)
    (state : Active × List Completion × List String) (item : String × BatchRequest × ℤ) :
    Except PyError (Active × List Completion × List String) :=
  let (active, completed, finished) := state
  let (identifier, request, remaining) := item
  if remaining - 1 = 0 then do
    let first ← getItem firstService identifier
    pure (active, completed ++ [⟨identifier, first, step + 1⟩], finished ++ [identifier])
  else
    pure (active.set identifier (request, remaining - 1), completed, finished)

def hasWork (s : BatchState) : Bool :=
  ¬ (s.pending = [] ∧ s.waiting = [] ∧ s.active.items = [])

def iteration (capacity : ℤ) (mode : BatchMode) (s : BatchState) : Except PyError BatchState := do
  let (pending, waiting) := joinQueue s.step s.pending s.waiting
  let mayFill := mode = .continuous ∨ s.active.items = []
  let (waiting, active, firstService) :=
    if mayFill then fillLanes capacity s.step waiting s.active s.firstService
    else (waiting, s.active, s.firstService)
  if active.items = [] then
    match pending with
    | [] => throw .indexError
    | request :: _ =>
      pure ⟨pending, waiting, active, firstService, s.completed, request.arrivalStep⟩
  else
    let (active, completed, finished) ←
      active.items.foldlM (emitToken s.step firstService) (active, s.completed, [])
    pure ⟨pending, waiting, finished.foldl .erase active, firstService, completed, s.step + 1⟩

def report (requests : List BatchRequest) (mode : BatchMode) (firstArrivalStep : ℤ)
    (s : BatchState) : Except PyError BatchRun := do
  let waits ← requests.mapM fun request => do
    let first ← getItem s.firstService request.identifier
    pure (first - request.arrivalStep)
  pure ⟨mode, sortedBy (·.identifier) s.completed, s.step - firstArrivalStep, waits.sum⟩

def runBatches (fuel : ℕ) (requests : List BatchRequest) (capacity : ℤ) (mode : BatchMode) :
    Option (Except PyError BatchRun) :=
  match sortedBy queueKey requests with
  | [] => some (throw .indexError)
  | first :: pending =>
    (whileLoop hasWork (iteration capacity mode) fuel
      ⟨first :: pending, [], .empty, .empty, [], first.arrivalStep⟩).map
        fun out => out.bind (report requests mode first.arrivalStep)

def simulateBatching (fuel : ℕ) (requests : List BatchRequest) (capacity : ℤ) (mode : BatchMode) :
    Option (Except PyError BatchRun) :=
  let identifiers := requests.map (·.identifier)
  if capacity ≤ 0 then
    some (throw (.valueError "capacity must be positive"))
  else if requests = [] then
    some (throw (.valueError "at least one request is required"))
  else if identifiers.any isBlank then
    some (throw (.valueError "request identifiers are required"))
  else if identifiers.dedup.length ≠ identifiers.length then
    some (throw (.valueError "request identifiers must be unique"))
  else if requests.any (fun request => request.arrivalStep < 0 ∨ request.outputTokens ≤ 0) then
    some (throw (.valueError "arrivals must be non-negative and output tokens positive"))
  else runBatches fuel requests capacity mode

/-- The request lists that pass every check of `simulateBatching`. -/
structure Accepted (requests : List BatchRequest) : Prop where
  nonempty : requests ≠ []
  named : ∀ request ∈ requests, isBlank request.identifier = false
  unique : (requests.map (·.identifier)).Nodup
  arrival_nonneg : ∀ request ∈ requests, 0 ≤ request.arrivalStep
  output_pos : ∀ request ∈ requests, 1 ≤ request.outputTokens

theorem simulateBatching_of_accepted {requests : List BatchRequest} (h : Accepted requests)
    {capacity : ℤ} (hcapacity : 1 ≤ capacity) (fuel : ℕ) (mode : BatchMode) :
    simulateBatching fuel requests capacity mode = runBatches fuel requests capacity mode := by
  have hblank : ¬ (requests.map (·.identifier)).any isBlank = true := by
    simp only [List.any_map, List.any_eq_true, Function.comp_apply, not_exists, not_and]
    intro request hr
    simp [h.named request hr]
  have hdedup : ¬ (requests.map (·.identifier)).dedup.length ≠
      (requests.map (·.identifier)).length := not_not_intro (dedup_length_eq_iff.mpr h.unique)
  have hbounds : ¬ requests.any
      (fun request => request.arrivalStep < 0 ∨ request.outputTokens ≤ 0) = true := by
    simp only [List.any_eq_true, decide_eq_true_eq, not_exists, not_and, not_or, not_lt, not_le]
    intro request hr
    have := h.output_pos request hr
    exact ⟨h.arrival_nonneg request hr, by omega⟩
  unfold simulateBatching
  dsimp only
  rw [if_neg (by omega), if_neg h.nonempty, if_neg hblank, if_neg hdedup, if_neg hbounds]

/-- All other input is refused before the simulation starts. -/
theorem simulateBatching_of_not_accepted {requests : List BatchRequest} {capacity : ℤ}
    (h : ¬ (1 ≤ capacity ∧ Accepted requests)) :
    ∃ message, ∀ fuel mode, simulateBatching fuel requests capacity mode =
      some (.error (.valueError message)) := by
  unfold simulateBatching
  dsimp only
  by_cases hcapacity : capacity ≤ 0
  · exact ⟨_, fun _ _ => if_pos hcapacity⟩
  simp only [if_neg hcapacity]
  by_cases hempty : requests = []
  · exact ⟨_, fun _ _ => if_pos hempty⟩
  simp only [if_neg hempty]
  by_cases hblank : (requests.map (·.identifier)).any isBlank = true
  · exact ⟨_, fun _ _ => if_pos hblank⟩
  simp only [if_neg hblank]
  by_cases hdedup : (requests.map (·.identifier)).dedup.length ≠
      (requests.map (·.identifier)).length
  · exact ⟨_, fun _ _ => if_pos hdedup⟩
  simp only [if_neg hdedup]
  by_cases hbounds : requests.any
      (fun request => request.arrivalStep < 0 ∨ request.outputTokens ≤ 0) = true
  · exact ⟨_, fun _ _ => if_pos hbounds⟩
  simp only [List.any_eq_true, decide_eq_true_eq, not_exists, not_and, not_or, not_lt,
    not_le] at hbounds
  simp only [List.any_map, List.any_eq_true, Function.comp_apply, not_exists, not_and,
    Bool.not_eq_true] at hblank
  have hunique := dedup_length_eq_iff.mp (not_not.mp hdedup)
  exact absurd ⟨by omega, hempty, hblank, hunique,
    fun r hr => (hbounds r hr).1, fun r hr => (hbounds r hr).2⟩ h

example : simulateBatching 10 [⟨"short", 0, 1⟩, ⟨"long", 0, 3⟩, ⟨"late", 1, 1⟩] 2 .static =
    some (.ok ⟨.static, [⟨"late", 3, 4⟩, ⟨"long", 0, 3⟩, ⟨"short", 0, 1⟩], 4, 2⟩) := by
  decide +kernel

end Batching
