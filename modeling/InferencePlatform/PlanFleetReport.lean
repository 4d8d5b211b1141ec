import InferencePlatform.JsonText
import InferencePlatform.PlanFleet

/-!
# The report file

The capstone writes its report as JSON. Python writes a number with or without a decimal point,
as its type asks for, and shortens decimals, so a `Writer` may write each field its own way as
long as the numbers can be read back. The file then holds the whole report, as long as its names
are Unicode texts without lone surrogates, which `json.dumps` does not keep apart.
-/

namespace Admission

def AdmissionAction.value : AdmissionAction → String
  | admitted => "admit"
  | queue => "queue"
  | shed => "shed"

theorem AdmissionAction.value_injective : Function.Injective value := by
  intro a b h
  cases a <;> cases b <;> first | rfl | exact absurd h (by decide)

end Admission

namespace Rollouts

def RolloutAction.value : RolloutAction → String
  | hold => "hold"
  | promote => "promote"
  | rollback => "rollback"

theorem RolloutAction.value_injective : Function.Injective value := by
  intro a b h
  cases a <;> cases b <;> first | rfl | exact absurd h (by decide)

end Rollouts

namespace PlanFleet

open PythonBuiltins JsonText

/-- A way to write the numbers of each field such that `read` takes them back. -/
structure Writer (read : Token → Option ℚ) where
  write : String → ℚ → Token
  read_write : ∀ field q, read (write field q) = some q

/-! ### `asdict` -/

section Report

variable {read : Token → Option ℚ} (w : Writer read)

def flag (field : String) (b : Bool) : String × Json := (field, .bool b)

def integer (field : String) (n : ℤ) : String × Json := (field, .number (.ofInt n))

def label (field : String) (s : String) : String × Json := (field, .string s)

def labels (field : String) (names : List String) : String × Json :=
  (field, .array (names.map .string))

def real (field : String) (q : ℚ) : String × Json := (field, .number (w.write field q))

/-- `math.inf` among the numbers. -/
def extended (field : String) : WithTop ℚ → String × Json
  | none => (field, .number .infinity)
  | some q => real w field q

def memoryDict (memory : Memory.MemoryAssessment) : Json :=
  .object [flag "fits" memory.fits,
    real w "weight_gib_per_gpu" memory.weightGibPerGpu,
    real w "kv_gib_per_gpu" memory.kvGibPerGpu,
    real w "overhead_gib_per_gpu" memory.overheadGibPerGpu,
    real w "required_gib_per_gpu" memory.requiredGibPerGpu,
    real w "usable_gib_per_gpu" memory.usableGibPerGpu,
    integer "max_concurrency" memory.maxConcurrency,
    label "reason" memory.reason]

def capacityDict (capacity : Capacity.CapacityPlan) : Json :=
  .object [flag "release_ready" capacity.releaseReady,
    integer "required_replicas" capacity.requiredReplicas,
    label "bottleneck" capacity.bottleneck,
    labels "binding_dimensions" capacity.bindingDimensions,
    real w "prompt_tokens_per_second" capacity.promptTokensPerSecond,
    real w "output_tokens_per_second" capacity.outputTokensPerSecond,
    real w "concurrent_requests" capacity.concurrentRequests,
    real w "reserved_headroom_fraction" capacity.reservedHeadroomFraction,
    real w "hourly_cost" capacity.hourlyCost,
    real w "cost_per_million_output_tokens" capacity.costPerMillionOutputTokens,
    labels "violations" capacity.violations]

def parallelDict (parallel : Parallelism.ParallelPlan) : Json :=
  .object [flag "feasible" parallel.feasible,
    integer "tensor_parallel" parallel.tensorParallel,
    integer "pipeline_parallel" parallel.pipelineParallel,
    integer "data_parallel" parallel.dataParallel,
    integer "expert_parallel" parallel.expertParallel,
    extended w "memory_gib_per_gpu" parallel.memoryGibPerGpu,
    label "reason" parallel.reason]

def placementDict (placement : Placement.PlacementDecision) : Json :=
  .object [flag "placed" placement.placed, labels "gpu_ids" placement.gpuIds,
    label "reason" placement.reason]

def admissionDict (decision : Admission.AdmissionDecision) : Json :=
  .object [label "action" decision.action.value,
    integer "reserved_tokens" decision.reservedTokens, label "reason" decision.reason]

def scalingDict (scaling : Autoscaling.ScaleDecision) : Json :=
  .object [integer "target_replicas" scaling.targetReplicas,
    integer "calculated_demand_replicas" scaling.calculatedDemandReplicas,
    real w "ready_capacity_tokens_per_second" scaling.readyCapacityTokensPerSecond,
    label "reason" scaling.reason]

def rolloutDict (rollout : Rollouts.RolloutDecision) : Json :=
  .object [label "action" rollout.action.value,
    labels "deciding_controls" rollout.decidingControls]

def decisionsDict (decisions : PlanDecisions) : Json :=
  .object [("memory", memoryDict w decisions.memory),
    ("capacity", capacityDict w decisions.capacity),
    ("parallelism", parallelDict w decisions.parallelism),
    ("placement", placementDict decisions.placement),
    ("benign_admission", admissionDict decisions.benignAdmission),
    ("oversize_admission", admissionDict decisions.oversizeAdmission),
    ("autoscaling", scalingDict w decisions.autoscaling),
    ("rollout", rolloutDict decisions.rollout)]

def reportDict (report : PlanReport) : Json :=
  .object [flag "release_ready" report.releaseReady,
    labels "required_evidence" report.requiredEvidence,
    labels "observed_evidence" report.observedEvidence,
    labels "violations" report.violations,
    ("decisions", decisionsDict w report.decisions),
    ("deciding_reasons", .object (report.decidingReasons.map fun reason =>
      label reason.1 reason.2))]

/-- What `main` writes to its output file. -/
def reportFile (report : PlanReport) : String := dumps (reportDict w report) ++ "\n"

end Report

/-! ### Reading the file back -/

section Reading

variable {read : Token → Option ℚ} {w w' : Writer read} {field : String}

theorem flag_cancel {a b : Bool} (h : flag field a = flag field b) : a = b :=
  Json.bool.inj (Prod.mk.inj h).2

theorem integer_cancel {n m : ℤ} (h : integer field n = integer field m) : n = m :=
  Token.ofInt_injective (Json.number.inj (Prod.mk.inj h).2)

theorem label_cancel {a b : String} (h : label field a = label field b) : a = b :=
  Json.string.inj (Prod.mk.inj h).2

theorem labels_cancel {as bs : List String} (h : labels field as = labels field bs) : as = bs :=
  List.map_injective_iff.mpr (fun _ _ => Json.string.inj) (Json.array.inj (Prod.mk.inj h).2)

theorem real_cancel {p q : ℚ} (h : real w field p = real w' field q) : p = q := by
  have hwrite : w.write field p = w'.write field q := Json.number.inj (Prod.mk.inj h).2
  have hread := w.read_write field p
  rw [hwrite, w'.read_write] at hread
  exact (Option.some.inj hread).symm

/-- A number that reads back is not `Infinity`. -/
theorem extended_cancel (hinfinity : read .infinity = none) {p q : WithTop ℚ}
    (h : extended w field p = extended w' field q) : p = q := by
  have hne (w : Writer read) (q : ℚ) : Token.infinity ≠ w.write field q := by
    intro heq
    rw [heq, w.read_write] at hinfinity
    cases hinfinity
  cases p with
  | top =>
      cases q with
      | top => rfl
      | coe q => exact absurd (Json.number.inj (Prod.mk.inj h).2) (hne w' q)
  | coe p =>
      cases q with
      | top => exact absurd (Json.number.inj (Prod.mk.inj h).2).symm (hne w p)
      | coe q => exact congrArg _ (real_cancel h)

theorem memoryDict_cancel {a b : Memory.MemoryAssessment} (h : memoryDict w a = memoryDict w' b) :
    a = b := by
  cases a
  cases b
  simp only [memoryDict, Json.object.injEq, List.cons.injEq, and_true] at h
  obtain ⟨hfits, hweight, hkv, hoverhead, hrequired, husable, hmax, hreason⟩ := h
  rw [flag_cancel hfits, real_cancel hweight, real_cancel hkv, real_cancel hoverhead,
    real_cancel hrequired, real_cancel husable, integer_cancel hmax, label_cancel hreason]

theorem capacityDict_cancel {a b : Capacity.CapacityPlan}
    (h : capacityDict w a = capacityDict w' b) : a = b := by
  cases a
  cases b
  simp only [capacityDict, Json.object.injEq, List.cons.injEq, and_true] at h
  obtain ⟨hready, hreplicas, hbottleneck, hbinding, hprompt, houtput, hconcurrent, hheadroom, hcost,
    hprice, hviolations⟩ := h
  rw [flag_cancel hready, integer_cancel hreplicas, label_cancel hbottleneck,
    labels_cancel hbinding, real_cancel hprompt, real_cancel houtput, real_cancel hconcurrent,
    real_cancel hheadroom, real_cancel hcost, real_cancel hprice, labels_cancel hviolations]

theorem parallelDict_cancel (hinfinity : read .infinity = none) {a b : Parallelism.ParallelPlan}
    (h : parallelDict w a = parallelDict w' b) : a = b := by
  cases a
  cases b
  simp only [parallelDict, Json.object.injEq, List.cons.injEq, and_true] at h
  obtain ⟨hfeasible, htp, hpp, hdp, hep, hmemory, hreason⟩ := h
  rw [flag_cancel hfeasible, integer_cancel htp, integer_cancel hpp, integer_cancel hdp,
    integer_cancel hep, extended_cancel hinfinity hmemory, label_cancel hreason]

theorem placementDict_injective : Function.Injective placementDict := by
  intro a b h
  cases a
  cases b
  simp only [placementDict, Json.object.injEq, List.cons.injEq, and_true] at h
  obtain ⟨hplaced, hids, hreason⟩ := h
  rw [flag_cancel hplaced, labels_cancel hids, label_cancel hreason]

theorem admissionDict_injective : Function.Injective admissionDict := by
  intro a b h
  cases a
  cases b
  simp only [admissionDict, Json.object.injEq, List.cons.injEq, and_true] at h
  obtain ⟨haction, htokens, hreason⟩ := h
  rw [Admission.AdmissionAction.value_injective (label_cancel haction), integer_cancel htokens,
    label_cancel hreason]

theorem scalingDict_cancel {a b : Autoscaling.ScaleDecision}
    (h : scalingDict w a = scalingDict w' b) : a = b := by
  cases a
  cases b
  simp only [scalingDict, Json.object.injEq, List.cons.injEq, and_true] at h
  obtain ⟨htarget, hdemand, hready, hreason⟩ := h
  rw [integer_cancel htarget, integer_cancel hdemand, real_cancel hready, label_cancel hreason]

theorem rolloutDict_injective : Function.Injective rolloutDict := by
  intro a b h
  cases a
  cases b
  simp only [rolloutDict, Json.object.injEq, List.cons.injEq, and_true] at h
  obtain ⟨haction, hcontrols⟩ := h
  rw [Rollouts.RolloutAction.value_injective (label_cancel haction), labels_cancel hcontrols]

theorem decisionsDict_cancel (hinfinity : read .infinity = none) {a b : PlanDecisions}
    (h : decisionsDict w a = decisionsDict w' b) : a = b := by
  cases a
  cases b
  simp only [decisionsDict, Json.object.injEq, List.cons.injEq, Prod.mk.injEq, true_and,
    and_true] at h
  obtain ⟨hmemory, hcapacity, hparallel, hplacement, hbenign, hoversize, hscaling, hrollout⟩ := h
  rw [memoryDict_cancel hmemory, capacityDict_cancel hcapacity,
    parallelDict_cancel hinfinity hparallel, placementDict_injective hplacement,
    admissionDict_injective hbenign, admissionDict_injective hoversize,
    scalingDict_cancel hscaling, rolloutDict_injective hrollout]

theorem reportDict_cancel (hinfinity : read .infinity = none) {a b : PlanReport}
    (h : reportDict w a = reportDict w' b) : a = b := by
  cases a
  cases b
  simp only [reportDict, Json.object.injEq, List.cons.injEq, Prod.mk.injEq, true_and,
    and_true] at h
  obtain ⟨hready, hrequired, hobserved, hviolations, hdecisions, hreasons⟩ := h
  have hreason : Function.Injective fun reason : String × String => label reason.1 reason.2 := by
    intro p q hpq
    exact Prod.ext (Prod.mk.inj hpq).1 (Json.string.inj (Prod.mk.inj hpq).2)
  rw [flag_cancel hready, labels_cancel hrequired, labels_cancel hobserved,
    labels_cancel hviolations, decisionsDict_cancel hinfinity hdecisions,
    List.map_injective_iff.mpr hreason hreasons]

theorem ascii_reportFile (w : Writer read) (report : PlanReport) :
    Ascii (reportFile w report).toList := by
  rw [reportFile, dumps, String.toList_append, String.toList_ofList]
  exact (ascii_text 0 _).append (by decide)

/-- The file is ASCII, and holds the whole report: one reader gives back every report whose texts
have no lone surrogate, whatever way its numbers were written. -/
theorem reportFile_readable (hinfinity : read .infinity = none) :
    ∃ readReport : String → Option PlanReport, ∀ (w : Writer read) (report : PlanReport),
      readReport (reportFile w report) = some report ∧
        ∀ c ∈ (reportFile w report).toList, c.toNat < 128 := by
  have hcancel {w w' : Writer read} {a b : PlanReport} (h : reportFile w a = reportFile w' b) :
      a = b :=
    reportDict_cancel hinfinity (dumps_injective ((String.append_left_inj _).mp h))
  have hfound (text : String) : ∃ found : Option PlanReport,
      ∀ (w : Writer read) (report : PlanReport), reportFile w report = text →
        found = some report := by
    by_cases hwritten : ∃ (w : Writer read) (report : PlanReport), reportFile w report = text
    · obtain ⟨w, report, rfl⟩ := hwritten
      exact ⟨some report, fun w' report' h => congrArg some (hcancel h.symm)⟩
    · exact ⟨none, fun w report h => absurd ⟨w, report, h⟩ hwritten⟩
  choose readReport hread using hfound
  exact ⟨readReport, fun w report => ⟨hread _ w report rfl, ascii_reportFile w report⟩⟩

end Reading

/-! ### A report with whole numbers -/

/-- `float.__repr__` on whole numbers, and a fraction with `e` in the place of the bar. -/
def floatText (q : ℚ) : List Char :=
  (toString q.num).toList ++ if q.den = 1 then ".0".toList else 'e' :: q.den.repr.toList

theorem floatText_injective : Function.Injective floatText := by
  intro p q h
  have hends (q : ℚ) : ∀ c ∈ (if q.den = 1 then ".0".toList else
      'e' :: q.den.repr.toList).head?, c ∉ "-0123456789".toList := by
    intro c hc
    split_ifs at hc
    · exact Option.some.inj hc ▸ by decide
    · exact Option.some.inj hc ▸ by decide
  obtain ⟨hnum, hden⟩ := chars_cancel (integer_chars p.num) (integer_chars q.num) (hends p)
    (hends q) h
  apply Rat.ext
  · exact Token.ofInt_injective (Token.ext_text hnum)
  · split_ifs at hden with hp hq hq
    · rw [hp, hq]
    · exact absurd (List.head_eq_of_cons_eq hden) (by decide)
    · exact absurd (List.head_eq_of_cons_eq hden) (by decide)
    · exact repr_injective (List.tail_eq_of_cons_eq hden)

theorem exists_head_floatText (q : ℚ) :
    ∃ c, (floatText q).head? = some c ∧ c ∈ "-0123456789".toList := by
  obtain ⟨c, hc, -⟩ := (Token.ofInt q.num).starts
  have hhead : (toString q.num).toList.head? = some c := hc
  refine ⟨c, ?_, integer_chars q.num c (List.mem_of_head? hhead)⟩
  rw [floatText, List.head?_append, hhead]
  rfl

def floatRepr (q : ℚ) : Token where
  text := floatText q
  starts := by
    obtain ⟨c, hc, hstart⟩ := exists_head_floatText q
    exact ⟨c, hc, (integer_subset c hstart).1⟩
  chars := by
    have hdigits : ∀ c ∈ "0123456789".toList, c ∈ numeralChars :=
      forall_mem_of_all (by decide)
    refine List.forall_mem_append.mpr ⟨(Token.ofInt q.num).chars, ?_⟩
    split_ifs
    · exact forall_mem_of_all (by decide)
    · obtain ⟨c, rest, heq, hc, hrest⟩ := exists_repr_cons q.den
      rw [heq]
      exact List.forall_mem_cons.mpr ⟨by decide, List.forall_mem_cons.mpr
        ⟨hdigits c hc, fun d hd => hdigits d (hrest d hd)⟩⟩

theorem floatRepr_injective : Function.Injective floatRepr := fun _ _ h =>
  floatText_injective (congrArg Token.text h)

def floatWriter : Writer (Function.partialInv floatRepr) where
  write _ := floatRepr
  read_write _ := Function.partialInv_left floatRepr_injective

theorem floatRepr_ne_infinity (q : ℚ) : floatRepr q ≠ .infinity := by
  intro h
  obtain ⟨c, hc, hstart⟩ := exists_head_floatText q
  have htext : floatText q = "Infinity".toList := congrArg Token.text h
  rw [htext] at hc
  obtain rfl := Option.some.inj hc
  exact absurd hstart (by decide)

def sampleReport : PlanReport :=
  ⟨true, ["memory-fit"], ["memory-fit"], [],
    ⟨⟨true, 1, 2, 4, 7, 9, 4, "fits with 2.00 GiB headroom per GPU"⟩,
      ⟨true, 2, "decode tokens", ["decode tokens"], 150, 300, 3, 0, 8, 7, []⟩,
      ⟨true, 1, 1, 2, 1, (7 : ℚ), "one GPU per replica fits"⟩,
      ⟨true, ["a0"], "selected same-node group"⟩,
      ⟨.admitted, 500, "worst-case live-token reservation fits"⟩,
      ⟨.shed, 0, "request token bound exceeds policy"⟩,
      ⟨2, 2, 80, "token demand is within current desired capacity"⟩,
      ⟨.promote, ["all canary gates passed"]⟩⟩,
    [("memory-fit", "fits with 2.00 GiB headroom per GPU")]⟩

theorem reportFile_readable_sample : ∃ readReport : String → Option PlanReport,
    readReport (reportFile floatWriter sampleReport) = some sampleReport := by
  have hinfinity : Function.partialInv floatRepr .infinity = none :=
    Option.eq_none_iff_forall_ne_some.mpr fun q hq =>
      floatRepr_ne_infinity q ((floatRepr_injective.isPartialInv q _).mp hq)
  obtain ⟨readReport, hread⟩ := reportFile_readable hinfinity
  exact ⟨readReport, (hread floatWriter sampleReport).1⟩

end PlanFleet
