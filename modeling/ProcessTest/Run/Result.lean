import ProcessTest.Definition.Decoding
import ProcessTest.Digest.Fingerprint
import ProcessTest.Rule.Verdict
import ProcessTest.Run.Event

/-!
# Results of a run

What is recorded of actions and steps, why they fail, and the report of the whole run.
-/

set_option autoImplicit false

namespace ProcessTest

/-! ## Causes of failure -/

/-- Why an action fails. -/
inductive ActionError where
  /-- The filled action does not fit its type. -/
  | malformed (cause : DecodeError)
  | smartCode (verdict : SmartCode.Verdict)
  | lineSmartCode (line : Nat) (verdict : SmartCode.Verdict)
  | journal (cause : Rule.Error)
  | unbalanced (debits credits difference : Decimal)
  | refused (message : String)
  | lost
  /-- The answer to a request has another status. -/
  | status (expected : Nat) (found : Option Nat)
  deriving DecidableEq

/-- The wording of an action's failure. -/
def ActionError.message : ActionError → String
  | .malformed cause => s!"resolved payload is malformed: {cause.message}"
  | .smartCode verdict => verdict.describe
  | .lineSmartCode line verdict => s!"line {line}: {verdict.describe}"
  | .journal cause => cause.message
  | .unbalanced debits credits difference =>
    s!"journal does not balance: debits {debits.text} vs credits {credits.text}" ++
      s!" (difference {difference.text})"
  | .refused message => message
  | .lost => "backend call aborted before completing"
  | .status expected found =>
    s!"expected status {expected}, got " ++ match found with
      | some code => s!"{code}"
      | none => "none"

/-- The failure of an action in a sequence. -/
structure FailedAction where
  index : Nat
  kind : String
  cause : ActionError
  deriving DecidableEq

/-- The wording of the failure of an action in a sequence. -/
def FailedAction.message (f : FailedAction) : String :=
  s!"action {f.index} ({f.kind}) failed: {f.cause.message}"

/-- Why an attempt at a step fails. -/
inductive StepError where
  | precondition (condition : String)
  | postcondition (condition : String)
  /-- The ceiling of the run had passed before the actions. -/
  | ceiling
  | timedOut (milliseconds : Nat)
  | action (failed : FailedAction)
  deriving DecidableEq

/-- The wording of a step's failure. -/
def StepError.message : StepError → String
  | .precondition condition => s!"precondition not met: {condition}"
  | .postcondition condition => s!"postcondition not met: {condition}"
  | .ceiling => "run timeout exceeded before the step started"
  | .timedOut milliseconds => s!"timed out after {milliseconds} ms"
  | .action failed => failed.message

/-- Whether a further attempt may succeed. -/
def StepError.retryable : StepError → Bool
  | .precondition _ | .ceiling => false
  | .postcondition _ | .timedOut _ | .action _ => true

/-- Why an assertion fails. -/
inductive AssertionError where
  | query (message : String)
  | count (expected : Nat) (table : String) (found : Nat)
  | malformed (cause : DecodeError)
  | rule (cause : Rule.Error)
  /-- The rule is not met. -/
  | unmet (explanation : String)
  | unset (path : String)
  | differs (path : String) (found expected : Value)
  deriving DecidableEq

/-- The wording of an assertion's failure. -/
def AssertionError.message : AssertionError → String
  | .query message => message
  | .count expected table found => s!"expected {expected} row(s) in {table}, found {found}"
  | .malformed cause => s!"resolved payload is malformed: {cause.message}"
  | .rule cause => cause.message
  | .unmet explanation => explanation
  | .unset path => s!"variable '{path}' is not set"
  | .differs path found expected => s!"'{path}' is {found.json}, expected {expected.json}"

/-- What went wrong in a run. -/
inductive RunError where
  /-- The ceiling passed before an action of the setup. -/
  | ceilingInSetup
  | action (phase : Phase) (failed : FailedAction)
  | step (id : String) (cause : StepError)
  | assertion (index : Nat) (label : String) (cause : AssertionError)
  deriving DecidableEq

/-- Where it went wrong. -/
def RunError.source : RunError → String
  | .ceilingInSetup => Phase.setup.name
  | .action phase _ => phase.name
  | .step id _ => s!"step:{id}"
  | .assertion index _ _ => s!"assertion[{index}]"

/-- The wording of what went wrong. -/
def RunError.message : RunError → String
  | .ceilingInSetup => "run timeout exceeded during setup"
  | .action _ failed => failed.message
  | .step _ cause => cause.message
  | .assertion _ label cause => s!"{label}: {cause.message}"

/-- Place and wording on one line. -/
def RunError.line (e : RunError) : String := s!"{e.source}: {e.message}"

/-! ## Results -/

/-- What is recorded of an action. -/
structure ActionResult where
  index : Nat
  kind : String
  /-- The filled operation. -/
  resolved : Option Operation
  outcome : Except ActionError Value
  milliseconds : Nat

namespace ActionResult

/-- Whether the action succeeded. -/
def success (r : ActionResult) : Bool :=
  match r.outcome with
  | .ok _ => true
  | .error _ => false

/-- The output; null after a failure. -/
def output (r : ActionResult) : Value :=
  match r.outcome with
  | .ok v => v
  | .error _ => .null

/-- The failure, if there is one. -/
def failed? (r : ActionResult) : Option FailedAction :=
  match r.outcome with
  | .ok _ => none
  | .error cause => some ⟨r.index, r.kind, cause⟩

end ActionResult

/-- What is recorded of a step: its last attempt. -/
structure StepResult where
  id : String
  attempts : Nat
  actions : List ActionResult
  error : Option StepError
  milliseconds : Nat

/-- Whether the step passed. -/
def StepResult.success (r : StepResult) : Bool := r.error.isNone

/-- What is recorded of a run. -/
structure Report where
  test : String
  fingerprint : String
  dryRun : Bool
  setup : List ActionResult
  steps : List StepResult
  cleanup : List ActionResult
  errors : List RunError
  milliseconds : Nat

namespace Report

/-- Whether nothing went wrong. -/
def success (r : Report) : Bool := r.errors.isEmpty

/-- The number of steps that passed. -/
def stepsPassed (r : Report) : Nat := (r.steps.filter StepResult.success).length

/-- The number of steps that failed. -/
def stepsFailed (r : Report) : Nat := (r.steps.filter fun s => !s.success).length

end Report

/-! ## Encoding -/

namespace Encode

/-- Milliseconds as a double. -/
def duration (milliseconds : Nat) : Value :=
  .number (.double ((Binary64.roundRatio false milliseconds 1).getD .zero))

end Encode

/-- Milliseconds in seconds. -/
def secondsOf (milliseconds : Nat) : Binary64 :=
  (Binary64.roundRatio false milliseconds 1000).getD .zero

open Encode

def ActionResult.encode (r : ActionResult) : Value :=
  .map ([("index", .ofNat r.index), ("kind", .text r.kind), ("success", .bool r.success),
      ("duration_ms", duration r.milliseconds),
      ("resolved", match r.resolved with
        | some o => o.encode
        | none => .null),
      ("output", r.output)] ++
    optional "error" (fun f => .text f.cause.message) r.failed?)

def StepResult.encode (r : StepResult) : Value :=
  .map ([("step_id", .text r.id), ("success", .bool r.success),
      ("duration_ms", duration r.milliseconds), ("attempts", .ofNat r.attempts),
      ("actions", .list (r.actions.map ActionResult.encode))] ++
    optional "error" (fun e => .text e.message) r.error)

def RunError.encode (e : RunError) : Value :=
  .map [("source", .text e.source), ("message", .text e.message)]

/-- The report of a run of the given name. -/
def Report.encode (run : String) (r : Report) : Value :=
  .map [("run_id", .text run), ("test_id", .text r.test), ("fingerprint", .text r.fingerprint),
    ("success", .bool r.success), ("dry_run", .bool r.dryRun),
    ("duration_ms", duration r.milliseconds),
    ("setup", .list (r.setup.map ActionResult.encode)),
    ("steps", .list (r.steps.map StepResult.encode)),
    ("cleanup", .list (r.cleanup.map ActionResult.encode)),
    ("errors", .list (r.errors.map RunError.encode))]

end ProcessTest
