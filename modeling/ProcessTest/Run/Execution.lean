import ProcessTest.Artifact.Lines
import ProcessTest.Run.Assertion
import ProcessTest.Run.Step

/-!
# Running a definition

Setup, steps, assertions and cleanup, one after the other.

* The setup stops at its first failure, and a failed setup halts the run before the steps.
* A failed step halts the run, unless failures are to be passed over.
* Assertions are evaluated unless the run has halted; a dry run evaluates none.
* The cleanup always carries all its actions out; the policy says whether it follows a halt.

`Definition.run` gives the report, the final bindings and the events in order.
-/

set_option autoImplicit false

namespace ProcessTest

/-- How a definition is to be run. -/
structure RunOptions where
  /-- Resolve and record only; the system is not touched. -/
  dryRun : Bool
  /-- Go on after failed steps, whatever the policy says. -/
  proceed : Bool
  /-- Milliseconds that the whole run may take. -/
  ceiling : Option Nat
  deriving DecidableEq

/-- What the actions of a phase come to. -/
structure PhaseRun (σ : Type) where
  results : List ActionResult
  errors : List RunError
  scope : Bindings
  world : σ

/-- What the steps come to. -/
structure StepsRun (σ : Type) where
  results : List StepResult
  errors : List RunError
  events : List Occurrence
  bindings : Bindings
  /-- A failed step has stopped the run. -/
  halted : Bool
  world : σ

/-- What a run comes to. -/
structure Run (σ : Type) where
  report : Report
  bindings : Bindings
  events : List Occurrence
  world : σ

namespace Runner

variable {σ : Type}

/-- The error of a failed action of a phase. -/
def phaseErrors (phase : Phase) (result : ActionResult) : List RunError :=
  (result.failed?.map (RunError.action phase)).toList

/-- The actions of the setup from the given index on, up to the first failure. -/
def runSetup (r : Runner σ) : Nat → List Action → Bindings → σ → PhaseRun σ
  | _, [], scope, s => ⟨[], [], scope, s⟩
  | index, a :: rest, scope, s =>
    if r.expired s then ⟨[], [.ceilingInSetup], scope, s⟩
    else
      let (result, scope, s) := r.actUnbounded index a scope s
      if result.success then
        let more := r.runSetup (index + 1) rest scope s
        { more with results := result :: more.results }
      else ⟨[result], phaseErrors .setup result, scope, s⟩

/-- The actions of the cleanup from the given index on. -/
def runCleanup (r : Runner σ) : Nat → List Action → Bindings → σ → PhaseRun σ
  | _, [], scope, s => ⟨[], [], scope, s⟩
  | index, a :: rest, scope, s =>
    let (result, scope, s) := r.actUnbounded index a scope s
    let more := r.runCleanup (index + 1) rest scope s
    { more with
      results := result :: more.results
      errors := phaseErrors .cleanup result ++ more.errors }

/-- The event at the end of a phase that has actions. -/
def phaseEvents (phase : Phase) (actions : List Action) (results : List ActionResult) :
    List Occurrence :=
  if actions.isEmpty then []
  else [.phaseCompleted phase.name results.length (results.all ActionResult.success)]

/-- The steps, up to a failure that halts the run. -/
def runSteps (r : Runner σ) (proceed : Bool) : List Step → Bindings → σ → StepsRun σ
  | [], b, s => ⟨[], [], [], b, false, s⟩
  | step :: rest, b, s =>
    let run := r.runStep step b s
    let errors := (run.result.error.map (RunError.step step.id)).toList
    if run.result.success || proceed then
      let more := r.runSteps proceed rest run.bindings run.world
      { more with
        results := run.result :: more.results
        errors := errors ++ more.errors
        events := run.events ++ more.events }
    else ⟨[run.result], errors, run.events, run.bindings, true, run.world⟩

end Runner

/-- Runs a definition on a system; `now` is the time at which the run starts. -/
def Definition.run {σ : Type} (backend : Backend σ) (options : RunOptions) (now : String)
    (d : Definition) (s : σ) : Run σ :=
  let start := backend.now s
  let r : Runner σ :=
    ⟨backend, options.dryRun, options.ceiling.map (backend.spent s + ·)⟩
  let seeded := Bindings.seeded d.setting now
  let s := if options.dryRun then s else backend.enter d.setting.organization s
  let setup := r.runSetup 0 d.setup seeded s
  let b := (seeded.absorb setup.scope).1
  let proceed := options.proceed || d.policy.failure = .proceed
  let steps := if setup.results.all ActionResult.success
    then r.runSteps proceed d.steps b setup.world
    else ⟨[], [], [], b, true, setup.world⟩
  let checked := if options.dryRun || steps.halted then ⟨[], [], steps.world⟩
    else r.checkAll steps.bindings 0 d.assertions steps.world
  let cleansUp := !steps.halted || d.policy.alwaysCleanup
  let cleanup := if cleansUp then r.runCleanup 0 d.cleanup steps.bindings checked.world
    else ⟨[], [], steps.bindings, checked.world⟩
  let report : Report :=
    { test := d.id
      fingerprint := d.fingerprint
      dryRun := options.dryRun
      setup := setup.results
      steps := steps.results
      cleanup := cleanup.results
      errors := setup.errors ++ steps.errors ++ checked.errors ++ cleanup.errors
      milliseconds := backend.now cleanup.world - start }
  { report
    bindings := (steps.bindings.absorb cleanup.scope).1
    events := [.runStarted d.id options.dryRun programVersion] ++
      Runner.phaseEvents .setup d.setup setup.results ++ steps.events ++ checked.events ++
      (if cleansUp then Runner.phaseEvents .cleanup d.cleanup cleanup.results else []) ++
      [.runCompleted report.stepsPassed report.stepsFailed report.errors.length
        (secondsOf report.milliseconds)]
    world := cleanup.world }

end ProcessTest
