import ProcessTest.Run.Execution

/-!
# The parts of a run

`Definition.run` carries out setup, steps, assertions and cleanup one after the other.  Each part
gets a name here, and the run is put together from them.

* `Definition.setupRun`, `stepsRun`, `checked`, `cleanupRun` — what each part comes to.
* `report_setup`, `report_steps`, `report_cleanup`, `report_errors`, `run_bindings` — what of it
  the run records.
* `run_eq` — the whole run.
-/

set_option autoImplicit false

namespace ProcessTest

variable {σ : Type}

/-- What carries out the actions of a run that starts in a state. -/
def RunOptions.runner (options : RunOptions) (backend : Backend σ) (s : σ) : Runner σ :=
  ⟨backend, options.dryRun, options.ceiling.map (backend.spent s + ·)⟩

namespace Definition

variable (backend : Backend σ) (options : RunOptions) (now : String) (d : Definition) (s : σ)

/-- Whether a run goes on after failed steps. -/
def proceeds : Bool := options.proceed || d.policy.failure = .proceed

/-- What the setup of a run comes to. -/
def setupRun : PhaseRun σ :=
  (options.runner backend s).runSetup 0 d.setup (Bindings.seeded d.setting now)
    (if options.dryRun then s else backend.enter d.setting.organization s)

/-- What the steps of a run come to. -/
def stepsRun : StepsRun σ :=
  let setup := d.setupRun backend options now s
  let b := ((Bindings.seeded d.setting now).absorb setup.scope).1
  if setup.results.all ActionResult.success
  then (options.runner backend s).runSteps (d.proceeds options) d.steps b setup.world
  else ⟨[], [], [], b, true, setup.world⟩

/-- What the assertions of a run come to. -/
def checked : Runner.Checked σ :=
  let steps := d.stepsRun backend options now s
  if options.dryRun || steps.halted then ⟨[], [], steps.world⟩
  else (options.runner backend s).checkAll steps.bindings 0 d.assertions steps.world

/-- What the cleanup of a run comes to. -/
def cleanupRun : PhaseRun σ :=
  let steps := d.stepsRun backend options now s
  let checked := d.checked backend options now s
  if !steps.halted || d.policy.alwaysCleanup
  then (options.runner backend s).runCleanup 0 d.cleanup steps.bindings checked.world
  else ⟨[], [], steps.bindings, checked.world⟩

theorem report_setup :
    (d.run backend options now s).report.setup = (d.setupRun backend options now s).results := rfl

theorem report_steps :
    (d.run backend options now s).report.steps = (d.stepsRun backend options now s).results := rfl

theorem report_cleanup :
    (d.run backend options now s).report.cleanup = (d.cleanupRun backend options now s).results :=
  rfl

theorem report_errors :
    (d.run backend options now s).report.errors =
      (d.setupRun backend options now s).errors ++ (d.stepsRun backend options now s).errors ++
        (d.checked backend options now s).errors ++ (d.cleanupRun backend options now s).errors :=
  rfl

theorem run_bindings :
    (d.run backend options now s).bindings =
      ((d.stepsRun backend options now s).bindings.absorb
        (d.cleanupRun backend options now s).scope).1 := rfl

/-- The whole run, put together from its parts. -/
theorem run_eq :
    d.run backend options now s =
      let setup := d.setupRun backend options now s
      let steps := d.stepsRun backend options now s
      let checked := d.checked backend options now s
      let cleanup := d.cleanupRun backend options now s
      let report : Report :=
        ⟨d.id, d.fingerprint, options.dryRun, setup.results, steps.results, cleanup.results,
          setup.errors ++ steps.errors ++ checked.errors ++ cleanup.errors,
          backend.now cleanup.world - backend.now s⟩
      { report
        bindings := (steps.bindings.absorb cleanup.scope).1
        events := [.runStarted d.id options.dryRun programVersion] ++
          Runner.phaseEvents .setup d.setup setup.results ++ steps.events ++ checked.events ++
          (if !steps.halted || d.policy.alwaysCleanup then
            Runner.phaseEvents .cleanup d.cleanup cleanup.results else []) ++
          [.runCompleted report.stepsPassed report.stepsFailed report.errors.length
            (secondsOf report.milliseconds)]
        world := cleanup.world } := rfl

end Definition

end ProcessTest
