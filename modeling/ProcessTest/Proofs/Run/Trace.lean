import ProcessTest.Proofs.Run.Account

/-!
# The events of a run trace its report

Events are emitted all over a run: at each attempt at a step, at each failed assertion and at the
end of each phase.  They still tell, in order, what the report says, and nothing else.

* `Runner.failedAttempts`, `StepResult.lastAttempt` — the events of attempts at a step.
* `StepTrace`, `AssertionTrace` — the events of one step and of one failed assertion.
* `Definition.Trace`, `Definition.trace_run` — the events of a run are a trace of its report.
-/

set_option autoImplicit false

namespace ProcessTest

variable {σ : Type}

/-! ## Steps -/

/-- The event that ends the last attempt at a step. -/
def StepResult.conclusion (result : StepResult) : Occurrence :=
  match result.error with
  | none => .stepPassed result.id result.attempts (secondsOf result.milliseconds)
  | some cause => .stepFailed result.id result.attempts cause.message

/-- The events of attempts that fail, numbered from the given number. -/
def failedAttempts (step : String) : (number : Nat) → List StepError → List Occurrence
  | _, [] => []
  | number, cause :: rest =>
    .stepStarted step number :: .stepFailed step number cause.message ::
      failedAttempts step (number + 1) rest

/-- The events trace the attempts at a step from the given number on: some that fail for causes
that may pass, and the last one, of which the result tells. -/
def AttemptsTrace (number : Nat) (result : StepResult) (events : List Occurrence) : Prop :=
  ∃ failures : List StepError, number + failures.length = result.attempts ∧
    (∀ cause ∈ failures, cause.retryable = true) ∧
    events = failedAttempts result.id number failures ++
      [.stepStarted result.id result.attempts, result.conclusion]

/-- The events trace all attempts at a step. -/
def StepTrace (result : StepResult) (events : List Occurrence) : Prop :=
  AttemptsTrace 1 result events

/-- One more failed attempt before others. -/
theorem AttemptsTrace.cons {number : Nat} {result : StepResult} {events : List Occurrence}
    (h : AttemptsTrace (number + 1) result events) {cause : StepError}
    (hcause : cause.retryable = true) :
    AttemptsTrace number result
      (.stepStarted result.id number :: .stepFailed result.id number cause.message :: events) := by
  obtain ⟨failures, hlength, hretryable, rfl⟩ := h
  refine ⟨cause :: failures, ?_, List.forall_mem_cons.2 ⟨hcause, hretryable⟩, rfl⟩
  rw [List.length_cons, ← hlength]
  omega

namespace Runner

theorem trace_attempts (r : Runner σ) (step : Step) (b : Bindings)
    (start more number : Nat) (s : σ) :
    AttemptsTrace number (r.attempts step b start more number s).result
      (r.attempts step b start more number s).events := by
  induction more generalizing number s with
  | zero =>
    unfold attempts
    split <;> exact ⟨[], rfl, fun _ h => absurd h List.not_mem_nil, rfl⟩
  | succ more ih =>
    have hid := r.id_attempts step b start more (number + 1)
    unfold attempts
    split
    · exact ⟨[], rfl, fun _ h => absurd h List.not_mem_nil, rfl⟩
    · rename_i actions cause s' hattempt
      simp only
      split
      · rename_i hretryable
        have htrace := (ih (number + 1) s').cons hretryable
        rw [hid] at htrace
        exact htrace
      · exact ⟨[], rfl, fun _ h => absurd h List.not_mem_nil, rfl⟩

theorem trace_runStep (r : Runner σ) (step : Step) (b : Bindings) (s : σ) :
    StepTrace (r.runStep step b s).result (r.runStep step b s).events :=
  r.trace_attempts step b _ _ 1 s

theorem trace_runSteps (r : Runner σ) (proceed : Bool) (steps : List Step) (b : Bindings) (s : σ) :
    ∃ traces, List.Forall₂ StepTrace (r.runSteps proceed steps b s).results traces ∧
      (r.runSteps proceed steps b s).events = traces.flatten := by
  induction steps generalizing b s with
  | nil => exact ⟨[], .nil, rfl⟩
  | cons step rest ih =>
    have hstep := r.trace_runStep step b s
    simp only [runSteps]
    split
    · obtain ⟨traces, hall, hevents⟩ := ih (r.runStep step b s).bindings (r.runStep step b s).world
      refine ⟨_ :: traces, .cons hstep hall, ?_⟩
      rw [List.flatten_cons, ← hevents]
    · refine ⟨[_], .cons hstep .nil, ?_⟩
      rw [List.flatten_cons, List.flatten_nil, List.append_nil]

end Runner

/-! ## Assertions -/

/-- Whether an error is one of an assertion. -/
def RunError.ofAssertion : RunError → Bool
  | .assertion .. => true
  | _ => false

/-- The event of the error of an assertion among those given, which are numbered from an index. -/
inductive AssertionTrace (index : Nat) (assertions : List Assertion) : RunError → Occurrence → Prop
  | failed {i : Nat} {a : Assertion} (ha : (a, i) ∈ assertions.zipIdx index)
      (cause : AssertionError) :
      AssertionTrace index assertions (.assertion i a.label cause)
        (.assertionFailed i a.check.kind (RunError.assertion i a.label cause).message)

section Assertions

variable {index : Nat} {assertions : List Assertion}

theorem AssertionTrace.cons {error : RunError} {event : Occurrence} (a : Assertion)
    (h : AssertionTrace (index + 1) assertions error event) :
    AssertionTrace index (a :: assertions) error event := by
  cases h with
  | failed ha cause => exact .failed (List.mem_cons_of_mem _ ha) cause

/-- Only errors of assertions have such events. -/
theorem filter_of_trace {errors : List RunError} {events : List Occurrence}
    (h : List.Forall₂ (AssertionTrace index assertions) errors events) :
    errors.filter RunError.ofAssertion = errors := by
  induction h with
  | nil => rfl
  | cons hfirst _ ih =>
    cases hfirst with
    | failed ha cause => rw [List.filter_cons_of_pos rfl, ih]

theorem Runner.trace_checkAll (r : Runner σ) (b : Bindings) (index : Nat)
    (assertions : List Assertion) (s : σ) :
    List.Forall₂ (AssertionTrace index assertions) (r.checkAll b index assertions s).errors
      (r.checkAll b index assertions s).events := by
  induction assertions generalizing index s with
  | nil => exact .nil
  | cons a rest ih =>
    simp only [checkAll]
    split
    · exact (ih (index + 1) _).imp fun _ _ => .cons a
    · refine .cons (.failed List.mem_cons_self _) ?_
      exact (ih (index + 1) _).imp fun _ _ => .cons a

theorem filter_phaseErrors (phase : Phase) (results : List ActionResult) :
    (results.flatMap (Runner.phaseErrors phase)).filter RunError.ofAssertion = [] := by
  refine List.filter_eq_nil_iff.2 fun error herror => ?_
  obtain ⟨result, -, herror⟩ := List.mem_flatMap.1 herror
  obtain ⟨failed, -, rfl⟩ := Option.map_eq_some_iff.1 (Option.mem_toList.1 herror)
  exact Bool.false_ne_true

theorem filter_runErrors (results : List StepResult) :
    (results.filterMap StepResult.runError?).filter RunError.ofAssertion = [] := by
  refine List.filter_eq_nil_iff.2 fun error herror => ?_
  obtain ⟨result, -, herror⟩ := List.mem_filterMap.1 herror
  obtain ⟨cause, -, rfl⟩ := Option.map_eq_some_iff.1 herror
  exact Bool.false_ne_true

end Assertions

/-! ## Runs -/

/-- The event of a phase that has been carried out, which there is only if it has actions. -/
def phaseTrace (phase : Phase) (actions : List Action) (results : List ActionResult) :
    List Occurrence :=
  if actions = [] then []
  else [.phaseCompleted phase.name results.length (results.all ActionResult.success)]

namespace Definition

variable (backend : Backend σ) (options : RunOptions) (now : String) (d : Definition) (s : σ)

/-- The events are a trace of the report of a run: its start, the phases and steps in order with
the failed assertions before the cleanup, and its end. -/
inductive Trace (report : Report) : List Occurrence → Prop
  | of {steps : List (List Occurrence)} {assertions : List Occurrence}
      (hsteps : List.Forall₂ StepTrace report.steps steps)
      (hassertions : List.Forall₂ (AssertionTrace 0 d.assertions)
        (report.errors.filter RunError.ofAssertion) assertions) :
      Trace report ([.runStarted d.id options.dryRun programVersion] ++
        phaseTrace .setup d.setup report.setup ++ steps.flatten ++ assertions ++
        (if d.halts options report && !d.policy.alwaysCleanup then []
          else phaseTrace .cleanup d.cleanup report.cleanup) ++
        [.runCompleted report.stepsPassed report.stepsFailed report.errors.length
          (secondsOf report.milliseconds)])

theorem trace_stepsRun :
    ∃ traces, List.Forall₂ StepTrace (d.stepsRun backend options now s).results traces ∧
      (d.stepsRun backend options now s).events = traces.flatten := by
  unfold stepsRun
  simp only
  split
  · exact Runner.trace_runSteps _ _ _ _ _
  · exact ⟨[], .nil, rfl⟩

theorem trace_checked :
    List.Forall₂ (AssertionTrace 0 d.assertions) (d.checked backend options now s).errors
      (d.checked backend options now s).events := by
  unfold checked
  simp only
  split
  · exact .nil
  · exact Runner.trace_checkAll _ _ _ _ _

/-- The errors of assertions among those of a run are what the assertions have come to. -/
theorem filter_errors_run :
    (d.run backend options now s).report.errors.filter RunError.ofAssertion =
      (d.checked backend options now s).errors := by
  have hceiling : ∀ stopped : Bool,
      (if stopped then [RunError.ceilingInSetup] else []).filter RunError.ofAssertion = [] := by
    intro stopped
    cases stopped <;> rfl
  rw [report_errors, errors_setupRun, errors_stepsRun, errors_cleanupRun]
  simp only [List.filter_append, filter_phaseErrors, filter_runErrors, hceiling, List.nil_append,
    List.append_nil]
  exact filter_of_trace (d.trace_checked backend options now s)

theorem events_run : (d.run backend options now s).events =
    [.runStarted d.id options.dryRun programVersion] ++
      Runner.phaseEvents .setup d.setup (d.setupRun backend options now s).results ++
      (d.stepsRun backend options now s).events ++ (d.checked backend options now s).events ++
      (if !(d.stepsRun backend options now s).halted || d.policy.alwaysCleanup then
        Runner.phaseEvents .cleanup d.cleanup (d.cleanupRun backend options now s).results
      else []) ++
      [.runCompleted (d.run backend options now s).report.stepsPassed
        (d.run backend options now s).report.stepsFailed
        (d.run backend options now s).report.errors.length
        (secondsOf (d.run backend options now s).report.milliseconds)] := rfl

theorem phaseEvents_eq (phase : Phase) (actions : List Action) (results : List ActionResult) :
    Runner.phaseEvents phase actions results = phaseTrace phase actions results := by
  unfold Runner.phaseEvents phaseTrace
  simp only [List.isEmpty_iff]

/-- **The events of a run are a faithful trace** of its report. -/
theorem trace_run :
    d.Trace options (d.run backend options now s).report (d.run backend options now s).events := by
  obtain ⟨steps, hsteps, hevents⟩ := d.trace_stepsRun backend options now s
  have hassertions := d.trace_checked backend options now s
  rw [← filter_errors_run] at hassertions
  have hcleanup : (if !(d.stepsRun backend options now s).halted || d.policy.alwaysCleanup then
        Runner.phaseEvents .cleanup d.cleanup (d.cleanupRun backend options now s).results
      else []) =
      if d.halts options (d.run backend options now s).report && !d.policy.alwaysCleanup then []
      else phaseTrace .cleanup d.cleanup (d.run backend options now s).report.cleanup := by
    rw [halted_stepsRun, phaseEvents_eq, report_cleanup]
    cases d.halts options (d.run backend options now s).report <;>
      cases d.policy.alwaysCleanup <;> rfl
  rw [events_run, phaseEvents_eq, hevents, hcleanup]
  exact .of hsteps hassertions

end Definition

end ProcessTest
