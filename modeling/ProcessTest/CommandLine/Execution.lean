import ProcessTest.Clock
import ProcessTest.CommandLine.Command
import ProcessTest.CommandLine.Outcome
import ProcessTest.CommandLine.Starter
import ProcessTest.Definition.Schema
import ProcessTest.Files.Pattern
import ProcessTest.Run.Log
import ProcessTest.Run.Summary
import ProcessTest.Simulation

/-!
# Carrying commands out

A command works on a file system and comes to an outcome: what it prints, and why it fails.  Runs
happen on an empty store without latency, and their waits take simulated time.

* `Command.execute` — the outcome of a command.
-/

set_option autoImplicit false

namespace ProcessTest

/-- When a run begins, and under which name. -/
structure RunMark where
  name : String
  time : String
  deriving DecidableEq

namespace RunMark

/-- Hexadecimal digits of the given number of places. -/
def hexText (places n : Nat) : List Char :=
  ((List.range places).map fun i => Json.hexDigit (n / Nat.pow 16 i % 16)).reverse

/-- The mark of a run that begins a number of nanoseconds after the start of 1970: the name shows
the last 48 bits of the number, the time whole seconds. -/
def ofNanoseconds (n : Nat) : RunMark :=
  let seconds := Calendar.daysBefore 1970 * Clock.daySeconds + n / Nat.pow 10 9
  { name := "r-" ++ String.ofList (hexText 12 n)
    time := Clock.text ⟨seconds, 0, 0⟩ }

end RunMark

section Commands

variable {m : Type → Type} [Monad m]

/-! ## Reading -/

/-- The document of a file. -/
def readDocument (fs : FileSystem m) (path : String) : m (Except DocumentError Value) := do
  match ← fs.read path with
  | .error cause => pure (.error (.unreadable path cause))
  | .ok text =>
    let format := Format.ofPath path
    match format.read? text with
    | some v => pure (.ok v)
    | none => pure (.error (.malformed format))

/-- The definition of a file. -/
def readDefinition (fs : FileSystem m) (path : String) : m (Except CommandError Definition) := do
  match ← readDocument fs path with
  | .error cause => pure (.error (.document cause))
  | .ok v => pure ((Validation.parse v).mapError (.rejected path))

/-! ## First definitions -/

/-- Writes a first definition into a directory. -/
def createFirst (fs : FileSystem m) (directory : String) : m CommandOutcome := do
  let file := Path.join directory Command.defaultFile
  if ← fs.holds file then pure (.failed (.existing file))
  else match ← fs.makeDirectories directory with
    | .error cause => pure (.failed (.notCreated directory cause))
    | .ok () => match ← fs.write file Starter.text with
      | .error cause => pure (.failed (.notWritten file cause))
      | .ok () => pure (.printed
        [s!"Initialized {programName} test at {directory}", s!"  Created: {file}"])

/-! ## Validation -/

/-- The files that paths and patterns stand for. -/
def expand (fs : FileSystem m) : List String → m (Except CommandError (List String))
  | [] => pure (.ok [])
  | path :: rest => do
    let found : Except CommandError (List String) ←
      if !Pattern.isPattern path then pure (.ok [path])
      else match Pattern.read? path with
        | none => pure (.error (.badPattern path))
        | some pattern => do
          let found ← pattern.search fs
          pure (if found.isEmpty then .error (.noMatch path) else .ok found)
    match found with
    | .error cause => pure (.error cause)
    | .ok found =>
      match ← expand fs rest with
      | .error cause => pure (.error cause)
      | .ok more => pure (.ok (found ++ more))

/-- What is found of a file. -/
inductive Finding where
  | valid (d : Definition)
  | rejected (cause : Validation.Rejection)
  | unread (cause : DocumentError)

/-- What is found of a file. -/
def examine (fs : FileSystem m) (path : String) : m Finding := do
  match ← readDocument fs path with
  | .error cause => pure (.unread cause)
  | .ok v => match Validation.parse v with
    | .ok d => pure (.valid d)
    | .error cause => pure (.rejected cause)

namespace Finding

/-- Whether the file holds a definition. -/
def isValid : Finding → Bool
  | .valid _ => true
  | _ => false

/-- The lines about a valid file. -/
def praise (path : String) : Finding → List String
  | .valid d => [s!"OK: {path} ({d.id}, {d.steps.length} steps, {d.actionCount} actions)"]
  | _ => []

/-- The lines about an invalid file. -/
def blame (path : String) : Finding → List String
  | .valid _ => []
  | .rejected cause => s!"INVALID: {path} ({cause.lines.length} error(s))" ::
    cause.lines.map fun l => s!"  ERROR: {faultLine l}"
  | .unread cause => [s!"INVALID: {cause.message}"]

/-- Places and wordings of what is wrong. -/
def lines : Finding → List (String × String)
  | .valid _ => []
  | .rejected cause => cause.lines
  | .unread cause => [("", cause.message)]

/-- The record of a finding. -/
def encode (path : String) (f : Finding) : Value :=
  .map [("file", .text path), ("valid", .bool f.isValid),
    ("errors", .list (f.lines.map fun l => .map [("path", .text l.1), ("message", .text l.2)]))]

end Finding

/-- Each line with its end. -/
def ended (lines : List String) : String := String.join (lines.map (· ++ "\n"))

/-- Validates files. -/
def validateFiles (fs : FileSystem m) (paths : List String) (json : Bool) : m CommandOutcome := do
  match ← expand fs paths with
  | .error cause => pure (.failed cause)
  | .ok files =>
    let found ← files.mapM fun path => do pure (path, ← examine fs path)
    let invalid := (found.filter fun f => !f.2.isValid).length
    let failure := if invalid = 0 then none else some (.invalidFiles invalid files.length)
    if json then
      pure ⟨Json.pretty (.list (found.map fun f => f.2.encode f.1)) ++ "\n", "", failure⟩
    else
      pure ⟨ended (found.flatMap fun f => f.2.praise f.1),
        ended (found.flatMap fun f => f.2.blame f.1), failure⟩

/-! ## Runs -/

/-- Writes events behind a log, whose directory may be missing.  A log that cannot be written does
not make a run fail. -/
def writeEvents (fs : FileSystem m) (mark : RunMark) (path : String)
    (events : List Occurrence) : m Unit := do
  let around := (Path.parent? path).getD ""
  let made ← if around = "" then pure (.ok ()) else fs.makeDirectories around
  match made with
  | .error _ => pure ()
  | .ok () =>
    let lines := events.map fun o => Log.line ⟨mark.time, ⟨mark.name, o⟩⟩
    let _ ← fs.append path (String.join lines)

/-- Runs a definition. -/
def runFile (fs : FileSystem m) (mark : RunMark) (request : RunRequest) : m CommandOutcome := do
  match ← readDefinition fs request.file with
  | .error cause => pure (.failed cause)
  | .ok d =>
    let run := d.run Simulation.timed request.options mark.time (.ofLatency 0)
    let report := run.report
    if let some path := request.eventLog then writeEvents fs mark path run.events
    let output := if request.json then Json.pretty (report.encode mark.name) ++ "\n"
      else ended (report.lines mark.name)
    pure ⟨output, "", if report.success then none else some (.runFailed report.errors.length)⟩

/-! ## Generation -/

/-- Writes an artifact, whose directory may be missing. -/
def writeArtifact (fs : FileSystem m) (path text : String) : m CommandOutcome := do
  let around := (Path.parent? path).getD ""
  let made ← if around = "" then pure (.ok ()) else fs.makeDirectories around
  match made with
  | .error cause => pure (.failed (.notCreated around cause))
  | .ok () => match ← fs.write path text with
    | .error cause => pure (.failed (.notWritten path cause))
    | .ok () => pure (.printed [s!"  wrote {path} ({Digest.ofText text})"])

/-- Writes artifacts up to the first that cannot be written. -/
def writeArtifacts (fs : FileSystem m) : List (String × String) → m CommandOutcome
  | [] => pure ⟨"", "", none⟩
  | (path, text) :: rest => do
    let first ← writeArtifact fs path text
    if first.failure.isSome then pure first else pure (first.andThen (← writeArtifacts fs rest))

/-- The directory of artifacts where none is named. -/
def defaultDirectory : String := "generated"

/-- Generates one artifact or all of them. -/
def generateFrom (fs : FileSystem m) (file : String) (target : Option Target)
    (output : Option String) : m CommandOutcome := do
  match ← readDefinition fs file with
  | .error cause => pure (.failed cause)
  | .ok d => match target with
    | some target => match target.generate d with
      | .error cause => pure (.failed (.generation cause))
      | .ok text => match output with
        | some path => writeArtifact fs path text
        | none => pure ⟨text, "", none⟩
    | none =>
      let directory := output.getD defaultDirectory
      let heading := s!"Generating {d.id} for {Target.all.length} target(s)\n"
      match Target.generateAll d with
      | .error cause => pure ((CommandOutcome.failed (.generation cause)).behind heading)
      | .ok artifacts =>
        let named := artifacts.map fun (target, text) =>
          (Path.join directory (target.fileName d), text)
        pure ((← writeArtifacts fs named).behind heading)

/-! ## Commands -/

/-- Carries a command out. -/
def Command.execute (fs : FileSystem m) (mark : RunMark) : Command → m CommandOutcome
  | .init directory => createFirst fs directory
  | .validate files json => validateFiles fs files json
  | .run request => runFile fs mark request
  | .generate file target output => generateFrom fs file target output
  | .schema => pure ⟨Json.pretty Schema.definition ++ "\n", "", none⟩

end Commands

end ProcessTest
