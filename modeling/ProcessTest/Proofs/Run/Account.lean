import ProcessTest.Proofs.Run.Phases
import ProcessTest.Proofs.Run.Verdicts
import ProcessTest.Simulation

/-!
# What the report of a run accounts for

The results of a report are those of what was carried out, in order, and nothing else; and each
failure among them, and no success, is one of its errors.

* `Definition.halts`, `Definition.setupStopped` — read off a report, whether the run has halted,
  and whether its ceiling has stopped the setup.
* `Definition.Accounts` — what a report says of its run.
* `accounts_run` — the report of every run says it; `success_run_iff` — when a run succeeds.
* `mem_failing_verdicts_iff`, `assertion_mem_errors_iff` — the assertions that fail are those whose
  checks do, and the report says why.
-/

set_option autoImplicit false

namespace ProcessTest

variable {σ : Type}

/-! ## Where errors come from -/

theorem sources_phaseErrors (phase : Phase) (results : List ActionResult) :
    (results.flatMap (Runner.phaseErrors phase)).map RunError.source =
      (results.filter fun result => !result.success).map fun _ => phase.name := by
  induction results with
  | nil => rfl
  | cons result rest ih =>
    rw [List.flatMap_cons, List.map_append, ih]
    cases hs : result.success with
    | true => simp [Runner.phaseErrors_of_success hs, hs]
    | false =>
      have hfailed : ∃ failed, result.failed? = some failed := by
        apply Option.ne_none_iff_exists'.1
        intro hnone
        rw [failed?_eq_none_iff, hs] at hnone
        cases hnone
      obtain ⟨failed, hfailed⟩ := hfailed
      simp [Runner.phaseErrors, hfailed, hs, RunError.source]

theorem sources_runErrors (results : List StepResult) :
    (results.filterMap StepResult.runError?).map RunError.source =
      (results.filter fun result => !result.success).map fun result => s!"step:{result.id}" := by
  induction results with
  | nil => rfl
  | cons result rest ih =>
    unfold StepResult.runError? StepResult.success at *
    cases he : result.error with
    | none => simp [he, ih]
    | some cause => simp [he, ih, RunError.source]

/-- The numbers of the assertions that fail, counted from the given index. -/
def failing (index : Nat) (verdicts : List (Option AssertionError)) : List Nat :=
  ((verdicts.zipIdx index).filter fun x => x.1.isSome).map Prod.snd

theorem failing_cons (index : Nat) (verdict : Option AssertionError)
    (rest : List (Option AssertionError)) :
    failing index (verdict :: rest) =
      (if verdict.isSome then [index] else []) ++ failing (index + 1) rest := by
  unfold failing
  rw [List.zipIdx_cons]
  cases verdict with
  | none => rfl
  | some cause => rfl

theorem le_of_mem_failing {index i : Nat} {verdicts : List (Option AssertionError)}
    (h : i ∈ failing index verdicts) : index ≤ i := by
  induction verdicts generalizing index with
  | nil => cases h
  | cons verdict rest ih =>
    rw [failing_cons] at h
    rcases List.mem_append.1 h with h | h
    · split at h
      · exact Nat.le_of_eq (List.mem_singleton.1 h).symm
      · cases h
    · exact Nat.le_of_succ_le (ih h)

theorem failing_eq_nil_iff {index : Nat} {verdicts : List (Option AssertionError)} :
    failing index verdicts = [] ↔ ∀ verdict ∈ verdicts, verdict = none := by
  induction verdicts generalizing index with
  | nil => exact ⟨fun _ _ h => absurd h List.not_mem_nil, fun _ => rfl⟩
  | cons verdict rest ih =>
    rw [failing_cons, List.append_eq_nil_iff, ih, List.forall_mem_cons]
    cases verdict with
    | none => simp
    | some cause => simp

theorem mem_failing_iff {i : Nat} {verdicts : List (Option AssertionError)} :
    i ∈ failing 0 verdicts ↔ ∃ cause, verdicts[i]? = some (some cause) := by
  unfold failing
  rw [List.mem_map]
  constructor
  · rintro ⟨⟨verdict, j⟩, hmem, rfl⟩
    obtain ⟨hmem, hsome⟩ := List.mem_filter.1 hmem
    obtain ⟨cause, rfl⟩ := Option.isSome_iff_exists.1 hsome
    exact ⟨cause, List.mem_zipIdx_iff_getElem?.1 hmem⟩
  · rintro ⟨cause, h⟩
    exact ⟨(some cause, i), List.mem_filter.2 ⟨List.mem_zipIdx_iff_getElem?.2 h, rfl⟩, rfl⟩

/-- They increase. -/
theorem pairwise_failing (index : Nat) (verdicts : List (Option AssertionError)) :
    (failing index verdicts).Pairwise (· < ·) := by
  induction verdicts generalizing index with
  | nil => exact List.Pairwise.nil
  | cons verdict rest ih =>
    rw [failing_cons]
    split
    · refine List.pairwise_cons.2 ⟨?_, ih (index + 1)⟩
      intro i hi
      exact le_of_mem_failing hi
    · exact ih (index + 1)

theorem Runner.sources_verdictErrors (r : Runner σ) (b : Bindings) (index : Nat)
    (assertions : List Assertion) (s : σ) :
    (verdictErrors index assertions (r.verdicts b assertions s)).map RunError.source =
      (failing index (r.verdicts b assertions s)).map fun i => s!"assertion[{i}]" := by
  induction assertions generalizing index s with
  | nil => rfl
  | cons a rest ih =>
    have hrest := ih (index + 1) (r.checkOne b a.check s).2
    simp only [verdicts]
    rcases hc : r.checkOne b a.check s with ⟨_ | cause, s'⟩
    · rw [hc] at hrest
      rw [failing_cons]
      exact hrest
    · rw [hc] at hrest
      rw [failing_cons, List.map_append, ← hrest]
      rfl

/-! ## Reports -/

namespace Definition

variable (backend : Backend σ) (options : RunOptions) (now : String) (d : Definition) (s : σ)

/-- Whether a run with the given report has halted: at a failure of the setup, or at a failed
step that is not passed over. -/
def halts (report : Report) : Bool :=
  report.setup.any (fun result => !result.success) ||
    (!d.proceeds options && report.steps.any fun result => !result.success)

/-- Whether the setup of a run with the given report was stopped without a failure. -/
def setupStopped (report : Report) : Bool :=
  report.setup.all ActionResult.success && decide (report.setup.length < d.setup.length)

/-- What the assertions of a run come to; none are evaluated once it has halted, or if it is
dry. -/
def verdicts (report : Report) : List (Option AssertionError) :=
  if options.dryRun || d.halts options report then []
  else (options.runner backend s).verdicts (d.stepsRun backend options now s).bindings d.assertions
    (d.stepsRun backend options now s).world

/-- What a report says of a run: which results there are, and which errors. -/
structure Accounts (report : Report) : Prop where
  /-- The setup is carried out in order, as far as there are results. -/
  setup : report.setup = (options.runner backend s).inTurn 0
    (d.setup.take report.setup.length) (Bindings.seeded d.setting now)
    (if options.dryRun then s else backend.enter d.setting.organization s)
  setup_ends : (∀ result ∈ report.setup, result.success = true) ∨
    EndsInFailure ActionResult.success report.setup
  /-- It is stopped only by the ceiling. -/
  setup_stopped : d.setupStopped report = true →
    (options.runner backend s).expired (d.setupRun backend options now s).world = true
  no_steps : (∃ result ∈ report.setup, result.success = false) → report.steps = []
  /-- The steps are carried out in order after the setup, as far as there are results. -/
  steps : (∀ result ∈ report.setup, result.success = true) →
    report.steps = ((options.runner backend s).runSteps true (d.steps.take report.steps.length)
      ((Bindings.seeded d.setting now).absorb (d.setupRun backend options now s).scope).1
      (d.setupRun backend options now s).world).results
  step_ids : report.steps.map StepResult.id = (d.steps.take report.steps.length).map Step.id
  steps_short : (∀ result ∈ report.setup, result.success = true) →
    report.steps.length < d.steps.length →
      d.proceeds options = false ∧ EndsInFailure StepResult.success report.steps
  /-- The cleanup is carried out as a whole or not at all. -/
  cleanup : report.cleanup =
    if d.halts options report && !d.policy.alwaysCleanup then []
    else (options.runner backend s).inTurn 0 d.cleanup (d.stepsRun backend options now s).bindings
      (d.checked backend options now s).world
  cleanup_length : report.cleanup.length =
    if d.halts options report && !d.policy.alwaysCleanup then 0 else d.cleanup.length
  /-- The errors are those of the failures, phase by phase. -/
  errors : report.errors =
    report.setup.flatMap (Runner.phaseErrors .setup) ++
      (if d.setupStopped report then [.ceilingInSetup] else []) ++
      report.steps.filterMap StepResult.runError? ++
      Runner.verdictErrors 0 d.assertions (d.verdicts backend options now s report) ++
      report.cleanup.flatMap (Runner.phaseErrors .cleanup)
  sources : report.errors.map RunError.source =
    (report.setup.filter fun result => !result.success).map (fun _ => "setup") ++
      (if d.setupStopped report then ["setup"] else []) ++
      (report.steps.filter fun result => !result.success).map
        (fun result => s!"step:{result.id}") ++
      (failing 0 (d.verdicts backend options now s report)).map (fun i => s!"assertion[{i}]") ++
      (report.cleanup.filter fun result => !result.success).map fun _ => "cleanup"
  /-- Assertions are reported by increasing numbers. -/
  increasing : (failing 0 (d.verdicts backend options now s report)).Pairwise (· < ·)
  success : report.success = true ↔ report.errors = []

/-! ## The parts of a run -/

/-- The setup of a run ends as every setup does. -/
theorem setupEnds_setupRun :
    Runner.SetupEnds (options.runner backend s) d.setup (d.setupRun backend options now s) :=
  Runner.setupEnds_runSetup _ _ _ _ _

theorem errors_setupRun : (d.setupRun backend options now s).errors =
    (d.setupRun backend options now s).results.flatMap (Runner.phaseErrors .setup) ++
      (if d.setupStopped (d.run backend options now s).report then [.ceilingInSetup] else []) := by
  unfold setupStopped
  rw [report_setup]
  have hnone : (∀ result ∈ (d.setupRun backend options now s).results, result.success = true) →
      (d.setupRun backend options now s).results.flatMap (Runner.phaseErrors .setup) = [] := by
    intro hall
    exact List.flatMap_eq_nil_iff.2 fun result hr => Runner.phaseErrors_of_success (hall result hr)
  rcases d.setupEnds_setupRun backend options now s with ⟨hall, hlength, herrors⟩ |
    ⟨hall, hlength, -, herrors⟩ | ⟨hlast, -, herrors⟩
  · simp [hnone hall, herrors, hlength]
  · have hall' := List.all_eq_true.2 hall
    simp [hnone hall, herrors, hlength, hall']
  · obtain ⟨result, hresult, hfailed⟩ := hlast.exists_failure
    have hall : (d.setupRun backend options now s).results.all ActionResult.success = false := by
      rw [List.all_eq_false]
      exact ⟨result, hresult, by simp [hfailed]⟩
    simp [herrors, hall]

/-- What the steps of a run record. -/
theorem stepsEnd_stepsRun
    (h : (d.setupRun backend options now s).results.all ActionResult.success = true) :
    Runner.StepsEnd (d.proceeds options) d.steps (d.stepsRun backend options now s) := by
  unfold stepsRun
  simp only [h, if_true]
  exact Runner.stepsEnd_runSteps _ _ _ _ _

/-- A failed setup leaves nothing to the steps. -/
theorem stepsRun_of_failure
    (h : (d.setupRun backend options now s).results.all ActionResult.success = false) :
    (d.stepsRun backend options now s).results = [] ∧
      (d.stepsRun backend options now s).errors = [] ∧
      (d.stepsRun backend options now s).halted = true := by
  unfold stepsRun
  simp [h]

theorem halted_stepsRun : (d.stepsRun backend options now s).halted =
    d.halts options (d.run backend options now s).report := by
  unfold halts
  rw [report_setup, report_steps, ← List.not_all_eq_any_not]
  cases h : (d.setupRun backend options now s).results.all ActionResult.success with
  | false => exact (d.stepsRun_of_failure backend options now s h).2.2
  | true => exact (d.stepsEnd_stepsRun backend options now s h).halted

theorem errors_stepsRun : (d.stepsRun backend options now s).errors =
    (d.stepsRun backend options now s).results.filterMap StepResult.runError? := by
  cases h : (d.setupRun backend options now s).results.all ActionResult.success with
  | false =>
    obtain ⟨hresults, herrors, -⟩ := d.stepsRun_of_failure backend options now s h
    rw [hresults, herrors]
    rfl
  | true => exact (d.stepsEnd_stepsRun backend options now s h).errors

theorem errors_checked : (d.checked backend options now s).errors =
    Runner.verdictErrors 0 d.assertions
      (d.verdicts backend options now s (d.run backend options now s).report) := by
  unfold checked verdicts
  simp only [halted_stepsRun]
  split
  · unfold Runner.verdictErrors
    rw [List.zip_nil_right]
    rfl
  · exact Runner.errors_checkAll _ _ _ _ _

theorem results_cleanupRun : (d.cleanupRun backend options now s).results =
    if d.halts options (d.run backend options now s).report && !d.policy.alwaysCleanup then []
    else (options.runner backend s).inTurn 0 d.cleanup (d.stepsRun backend options now s).bindings
      (d.checked backend options now s).world := by
  unfold cleanupRun
  simp only [halted_stepsRun]
  cases d.halts options (d.run backend options now s).report <;> cases d.policy.alwaysCleanup
  all_goals simp [Runner.results_runCleanup]

theorem errors_cleanupRun : (d.cleanupRun backend options now s).errors =
    (d.cleanupRun backend options now s).results.flatMap (Runner.phaseErrors .cleanup) := by
  unfold cleanupRun
  simp only
  split
  · exact Runner.errors_runCleanup _ _ _ _ _
  · rfl

theorem errors_run : (d.run backend options now s).report.errors =
    (d.run backend options now s).report.setup.flatMap (Runner.phaseErrors .setup) ++
      (if d.setupStopped (d.run backend options now s).report then [.ceilingInSetup] else []) ++
      (d.run backend options now s).report.steps.filterMap StepResult.runError? ++
      Runner.verdictErrors 0 d.assertions
        (d.verdicts backend options now s (d.run backend options now s).report) ++
      (d.run backend options now s).report.cleanup.flatMap (Runner.phaseErrors .cleanup) := by
  rw [report_errors, errors_setupRun, errors_stepsRun, errors_checked, errors_cleanupRun,
    report_setup, report_steps, report_cleanup]

theorem sources_run : (d.run backend options now s).report.errors.map RunError.source =
    ((d.run backend options now s).report.setup.filter fun result => !result.success).map
        (fun _ => "setup") ++
      (if d.setupStopped (d.run backend options now s).report then ["setup"] else []) ++
      ((d.run backend options now s).report.steps.filter fun result => !result.success).map
        (fun result => s!"step:{result.id}") ++
      (failing 0 (d.verdicts backend options now s (d.run backend options now s).report)).map
        (fun i => s!"assertion[{i}]") ++
      ((d.run backend options now s).report.cleanup.filter fun result => !result.success).map
        fun _ => "cleanup" := by
  have hverdicts : (Runner.verdictErrors 0 d.assertions
      (d.verdicts backend options now s (d.run backend options now s).report)).map
        RunError.source =
      (failing 0 (d.verdicts backend options now s (d.run backend options now s).report)).map
        (fun i => s!"assertion[{i}]") := by
    unfold verdicts
    split
    · unfold Runner.verdictErrors
      rw [List.zip_nil_right]
      rfl
    · exact Runner.sources_verdictErrors _ _ _ _ _
  rw [errors_run]
  simp only [List.map_append, sources_phaseErrors, sources_runErrors, hverdicts]
  split <;> rfl

/-! ## Accounting -/

/-- Only the ceiling of the run stops a setup without a failure. -/
theorem expired_of_setupStopped (h : d.setupStopped (d.run backend options now s).report = true) :
    (options.runner backend s).expired (d.setupRun backend options now s).world = true := by
  unfold setupStopped at h
  rw [report_setup, Bool.and_eq_true, decide_eq_true_eq, List.all_eq_true] at h
  obtain ⟨hsuccess, hshort⟩ := h
  rcases d.setupEnds_setupRun backend options now s with ⟨-, hlength, -⟩ | ⟨-, -, hlate, -⟩ |
    ⟨hlast, -, -⟩
  · omega
  · exact hlate
  · obtain ⟨result, hresult, hfailed⟩ := hlast.exists_failure
    rw [hsuccess result hresult] at hfailed
    cases hfailed

theorem ids_stepsRun : (d.stepsRun backend options now s).results.map StepResult.id =
    (d.steps.take (d.stepsRun backend options now s).results.length).map Step.id := by
  cases h : (d.setupRun backend options now s).results.all ActionResult.success with
  | false =>
    rw [(d.stepsRun_of_failure backend options now s h).1]
    rfl
  | true => exact (d.stepsEnd_stepsRun backend options now s h).ids

/-- After a setup without failures the results are those of the first steps. -/
theorem results_stepsRun
    (h : (d.setupRun backend options now s).results.all ActionResult.success = true) :
    (d.stepsRun backend options now s).results =
      ((options.runner backend s).runSteps true
        (d.steps.take (d.stepsRun backend options now s).results.length)
        ((Bindings.seeded d.setting now).absorb (d.setupRun backend options now s).scope).1
        (d.setupRun backend options now s).world).results := by
  unfold stepsRun
  simp only [h, if_true]
  exact Runner.results_runSteps _ _ _ _ _

/-- **The report of a run accounts for exactly what happened.** -/
theorem accounts_run :
    d.Accounts backend options now s (d.run backend options now s).report := by
  refine ⟨?_, ?_, d.expired_of_setupStopped backend options now s, ?_, ?_,
    d.ids_stepsRun backend options now s, ?_, d.results_cleanupRun backend options now s, ?_,
    d.errors_run backend options now s, d.sources_run backend options now s,
    pairwise_failing _ _, ?_⟩
  · exact Runner.results_runSetup _ _ _ _ _
  · rcases d.setupEnds_setupRun backend options now s with ⟨hall, -, -⟩ | ⟨hall, -, -, -⟩ |
      ⟨hlast, -, -⟩
    · exact Or.inl hall
    · exact Or.inl hall
    · exact Or.inr hlast
  · rintro ⟨result, hresult, hfailed⟩
    have hall : (d.setupRun backend options now s).results.all ActionResult.success = false := by
      rw [List.all_eq_false]
      exact ⟨result, hresult, by simp [hfailed]⟩
    exact (d.stepsRun_of_failure backend options now s hall).1
  · intro hall
    exact d.results_stepsRun backend options now s (List.all_eq_true.2 hall)
  · intro hall
    exact (d.stepsEnd_stepsRun backend options now s (List.all_eq_true.2 hall)).short
  · rw [report_cleanup, results_cleanupRun]
    split
    · rfl
    · exact Runner.length_inTurn _ _ _ _ _
  · exact List.isEmpty_iff

/-- Of two assertions about one customer the second one fails, and is the only error. -/
example :
    let d : Definition :=
      { version := "1.0"
        id := "customers"
        title := "One customer"
        industry := "salon"
        description := none
        setting := ⟨none, "salon", "USD", "en-US", none, none⟩
        personas := [("clerk", ⟨"clerk", []⟩)]
        setup := [⟨.entity ⟨"customer", "Ada", none, "HERA.SALON.CRM.ENT.CUST.v1", [], none⟩, none,
          some "ada", none⟩]
        steps := []
        cleanup := []
        assertions := [⟨none, .database "core_entities" [("entity_name", .text "Ada")] 1⟩,
          ⟨some "two customers", .database "core_entities" [] 2⟩]
        metadata := .default
        policy := .default }
    let report := (d.run Simulation.backend ⟨false, false, none⟩ "2026-01-31T09:00:00Z"
      (.ofLatency 3)).report
    report.errors = [.assertion 1 "two customers" (.count 2 "core_entities" 1)] ∧
      report.success = false := by
  decide +kernel

/-- **A run succeeds exactly if nothing in it has failed** and its ceiling has not stopped the
setup. -/
theorem success_run_iff : (d.run backend options now s).report.success = true ↔
    (∀ result ∈ (d.run backend options now s).report.setup, result.success = true) ∧
      d.setupStopped (d.run backend options now s).report = false ∧
      (∀ result ∈ (d.run backend options now s).report.steps, result.success = true) ∧
      (∀ verdict ∈ d.verdicts backend options now s (d.run backend options now s).report,
        verdict = none) ∧
      ∀ result ∈ (d.run backend options now s).report.cleanup, result.success = true := by
  have hsources : (d.run backend options now s).report.success = true ↔
      (d.run backend options now s).report.errors.map RunError.source = [] := by
    rw [List.map_eq_nil_iff]
    exact List.isEmpty_iff
  rw [hsources, sources_run]
  simp [failing_eq_nil_iff]

/-! ## Assertions that fail -/

/-- The check of an assertion fails for a cause: with the bindings after the steps, and in the state
in which the assertions in front of it leave the system. -/
def FailsAt (i : Nat) (a : Assertion) (cause : AssertionError) : Prop :=
  let steps := d.stepsRun backend options now s
  d.assertions[i]? = some a ∧ a.check.Fails backend steps.bindings
    ((options.runner backend s).afterAll steps.bindings (d.assertions.take i) steps.world) cause

theorem getElem?_verdicts_eq_some_iff {report : Report} {i : Nat} {cause : AssertionError} :
    (d.verdicts backend options now s report)[i]? = some (some cause) ↔
      (options.dryRun || d.halts options report) = false ∧
        ∃ a, d.FailsAt backend options now s i a cause := by
  unfold verdicts
  split
  · rename_i hnone
    exact iff_of_false nofun fun h => Bool.eq_false_iff.1 h.1 hnone
  · rename_i hsome
    rw [Runner.getElem?_verdicts_eq_some_iff, and_iff_right (Bool.eq_false_iff.2 hsome)]
    rfl

/-- **Which assertions fail**: those whose checks do, unless the run is dry or has halted. -/
theorem mem_failing_verdicts_iff {report : Report} {i : Nat} :
    i ∈ failing 0 (d.verdicts backend options now s report) ↔
      (options.dryRun || d.halts options report) = false ∧
        ∃ a cause, d.FailsAt backend options now s i a cause := by
  simp only [mem_failing_iff, getElem?_verdicts_eq_some_iff]
  tauto

/-- **Why they fail** is what the report says of them. -/
theorem assertion_mem_errors_iff {i : Nat} {label : String} {cause : AssertionError} :
    RunError.assertion i label cause ∈ (d.run backend options now s).report.errors ↔
      (options.dryRun || d.halts options (d.run backend options now s).report) = false ∧
        ∃ a, a.label = label ∧ d.FailsAt backend options now s i a cause := by
  have hphase : ∀ phase (results : List ActionResult),
      RunError.assertion i label cause ∉ results.flatMap (Runner.phaseErrors phase) := by
    intro phase results hmem
    obtain ⟨result, -, herror⟩ := List.mem_flatMap.1 hmem
    obtain ⟨failed, -, heq⟩ := Option.map_eq_some_iff.1 (Option.mem_toList.1 herror)
    cases heq
  have hstep : ∀ results : List StepResult,
      RunError.assertion i label cause ∉ results.filterMap StepResult.runError? := by
    intro results hmem
    obtain ⟨result, -, herror⟩ := List.mem_filterMap.1 hmem
    obtain ⟨failed, -, heq⟩ := Option.map_eq_some_iff.1 herror
    cases heq
  have hceiling : ∀ stopped : Bool,
      RunError.assertion i label cause ∉ if stopped then [.ceilingInSetup] else [] := by
    intro stopped
    cases stopped <;> simp
  rw [errors_run]
  simp only [List.mem_append, hphase, hstep, hceiling, false_or, or_false,
    Runner.mem_verdictErrors_iff, getElem?_verdicts_eq_some_iff]
  constructor
  · rintro ⟨a, ha, hlabel, hon, other, hother⟩
    obtain rfl : a = other := by simpa [ha] using hother.1
    exact ⟨hon, a, hlabel, hother⟩
  · rintro ⟨hon, a, hlabel, hfails⟩
    exact ⟨a, hfails.1, hlabel, hon, a, hfails⟩

end Definition

end ProcessTest
