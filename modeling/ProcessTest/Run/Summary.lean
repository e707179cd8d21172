import ProcessTest.Run.Result

/-!
# Summaries of runs

A few lines for people: what became of each phase and step, what went wrong, and the count.
-/

set_option autoImplicit false

namespace ProcessTest

/-- Milliseconds as seconds with three places. -/
def secondsText (milliseconds : Nat) : String :=
  s!"{milliseconds / 1000}.{Text.padded 3 (milliseconds % 1000)}s"

/-- The line about a phase that has actions. -/
def phaseLines (phase : Phase) (results : List ActionResult) : List String :=
  if results.isEmpty then []
  else
    let passed := (results.filter ActionResult.success).length
    [s!"  {phase.name}: {passed}/{results.length} actions"]

/-- The lines about a step. -/
def stepLines (r : StepResult) : List String :=
  let verdict := if r.success then "PASS" else "FAIL"
  let attempts := if 1 < r.attempts then s!", {r.attempts} attempts" else ""
  s!"  {verdict} {r.id} ({secondsText r.milliseconds}{attempts})" ::
    (r.error.map fun e => s!"       {e.message}").toList

/-- The lines about a run. -/
def Report.lines (run : String) (r : Report) : List String :=
  let mode := if r.dryRun then " (dry run)" else ""
  let verdict := if r.success then "PASSED" else "FAILED"
  [s!"Run {run}: {r.test}{mode}"] ++ phaseLines .setup r.setup ++ r.steps.flatMap stepLines ++
    phaseLines .cleanup r.cleanup ++ [""] ++ r.errors.map (fun e => s!"  ERROR {e.line}") ++
    [s!"{verdict}: {r.stepsPassed} passed, {r.stepsFailed} failed, {r.errors.length} error(s) " ++
      s!"in {secondsText r.milliseconds}"]

end ProcessTest
