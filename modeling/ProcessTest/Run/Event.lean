import ProcessTest.Definition.Decoding
import ProcessTest.Definition.Encoding

/-!
# Run events

What is reported while a run goes on, and the form in which a log keeps it.

* `Occurrence` — what happened; `RunEvent` — in which run; `LogEntry` — and when.
* `LogEntry.encode`, `LogEntry.decode` — the record of an entry.
-/

set_option autoImplicit false

namespace ProcessTest

/-- The actions outside the steps. -/
inductive Phase where
  | setup
  | cleanup
  deriving DecidableEq

/-- The name of a phase. -/
def Phase.name : Phase → String
  | .setup => "setup"
  | .cleanup => "cleanup"

/-- What happened. -/
inductive Occurrence where
  | runStarted (test : String) (dryRun : Bool) (version : String)
  | phaseCompleted (phase : String) (actions : Nat) (success : Bool)
  | stepStarted (step : String) (attempt : Nat)
  | stepPassed (step : String) (attempt : Nat) (seconds : Binary64)
  | stepFailed (step : String) (attempt : Nat) (error : String)
  | assertionFailed (index : Nat) (kind message : String)
  | runCompleted (passed failed errors : Nat) (seconds : Binary64)
  deriving DecidableEq

/-- What happened in a run. -/
structure RunEvent where
  run : String
  occurrence : Occurrence
  deriving DecidableEq

/-- What happened in a run, and when. -/
structure LogEntry where
  time : String
  event : RunEvent
  deriving DecidableEq

namespace Occurrence

/-- The names of all kinds of events, in the order of the constructors. -/
def kinds : List String :=
  ["run_started", "phase_completed", "step_started", "step_passed", "step_failed",
   "assertion_failed", "run_completed"]

/-- The kind of an event. -/
def kind : Occurrence → String
  | .runStarted .. => "run_started"
  | .phaseCompleted .. => "phase_completed"
  | .stepStarted .. => "step_started"
  | .stepPassed .. => "step_passed"
  | .stepFailed .. => "step_failed"
  | .assertionFailed .. => "assertion_failed"
  | .runCompleted .. => "run_completed"

/-- A double as a value. -/
def double (x : Binary64) : Value := .number (.double x)

/-- The fields of an event behind its kind and its run. -/
def fields : Occurrence → Entries
  | .runStarted test dryRun version =>
    [("test_id", .text test), ("dry_run", .bool dryRun), ("flowcheck_version", .text version)]
  | .phaseCompleted phase actions success =>
    [("phase", .text phase), ("actions", .ofNat actions), ("success", .bool success)]
  | .stepStarted step attempt => [("step", .text step), ("attempt", .ofNat attempt)]
  | .stepPassed step attempt seconds =>
    [("step", .text step), ("attempt", .ofNat attempt), ("duration_seconds", double seconds)]
  | .stepFailed step attempt error =>
    [("step", .text step), ("attempt", .ofNat attempt), ("error", .text error)]
  | .assertionFailed index kind message =>
    [("index", .ofNat index), ("kind", .text kind), ("message", .text message)]
  | .runCompleted passed failed errors seconds =>
    [("steps_passed", .ofNat passed), ("steps_failed", .ofNat failed), ("errors", .ofNat errors),
     ("total_seconds", double seconds)]

end Occurrence

/-- The fields of an event, its kind first. -/
def RunEvent.fields (e : RunEvent) : Entries :=
  [("event", .text e.occurrence.kind), ("run_id", .text e.run)] ++ e.occurrence.fields

def RunEvent.encode (e : RunEvent) : Value := .map e.fields

/-- The fields of an entry, its time first. -/
def LogEntry.fields (l : LogEntry) : Entries := ("ts", .text l.time) :: l.event.fields

def LogEntry.encode (l : LogEntry) : Value := .map l.fields

open Decode

/-- A double, which may be written as a whole number. -/
def Decode.asDouble : Value → Decoded Binary64
  | .number (.double x) => .ok x
  | .number (.int n) => match Binary64.roundRatio (n < 0) n.natAbs 1 with
    | some x => .ok x
    | none => .error .shape
  | _ => .error .shape

/-- An event of a known kind. -/
def RunEvent.decodeKind (kind : String) (v : Value) : Decoded RunEvent := do
  let of (names : List String) (read : Entries → Decoded Occurrence) : Decoded RunEvent := do
    let r ← record ("run_id" :: names) v
    pure ⟨← required r "run_id" asText, ← read r⟩
  match kind with
  | "run_started" => of ["test_id", "dry_run", "flowcheck_version"] fun r => do
    pure (.runStarted (← required r "test_id" asText) (← required r "dry_run" asBool)
      (← required r "flowcheck_version" asText))
  | "phase_completed" => of ["phase", "actions", "success"] fun r => do
    pure (.phaseCompleted (← required r "phase" asText) (← required r "actions" (asNat 32))
      (← required r "success" asBool))
  | "step_started" => of ["step", "attempt"] fun r => do
    pure (.stepStarted (← required r "step" asText) (← required r "attempt" (asNat 32)))
  | "step_passed" => of ["step", "attempt", "duration_seconds"] fun r => do
    pure (.stepPassed (← required r "step" asText) (← required r "attempt" (asNat 32))
      (← required r "duration_seconds" asDouble))
  | "step_failed" => of ["step", "attempt", "error"] fun r => do
    pure (.stepFailed (← required r "step" asText) (← required r "attempt" (asNat 32))
      (← required r "error" asText))
  | "assertion_failed" => of ["index", "kind", "message"] fun r => do
    pure (.assertionFailed (← required r "index" (asNat 64)) (← required r "kind" asText)
      (← required r "message" asText))
  | "run_completed" => of ["steps_passed", "steps_failed", "errors", "total_seconds"] fun r => do
    pure (.runCompleted (← required r "steps_passed" (asNat 32))
      (← required r "steps_failed" (asNat 32)) (← required r "errors" (asNat 32))
      (← required r "total_seconds" asDouble))
  | _ => .error (.unknown kind)

def RunEvent.decode (place : Place) (v : Value) : Decoded RunEvent := do
  let (kind, v) ← tagged place "event" Occurrence.kinds v
  decodeKind kind v

/-- A log entry: always a map, which holds the fields of the event, too. -/
def LogEntry.decode : Value → Decoded LogEntry
  | .map r => do
    pure { time := ← required r "ts" asText
           event := ← RunEvent.decode .inside (.map r) }
  | _ => .error .shape

end ProcessTest
