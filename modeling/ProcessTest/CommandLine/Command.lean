import ProcessTest.Artifact.Generation
import ProcessTest.Run.Execution
import ProcessTest.Text.Digits

/-!
# Commands

The command that a list of arguments stands for.

* `Arguments.scan?` — options and operands, by the usual conventions: `--name value`,
  `--name=value`, `-n value`, `-nvalue`, flags of one letter together, and `--` before operands that
  look like options.  No option stands twice.
* `Command.read?` — the command of some arguments.
-/

set_option autoImplicit false

namespace ProcessTest

/-! ## Options and operands -/

/-- An option that a command has. -/
structure OptionForm where
  name : String
  letter : Option Char
  takesValue : Bool
  deriving DecidableEq

/-- Options by name, with their values, and operands, in order; the value of a flag is empty. -/
structure Arguments where
  options : List (String × String)
  operands : List String
  deriving DecidableEq

namespace Arguments

/-- Whether an argument looks like an option. -/
def isOption (argument : String) : Bool := argument.toList.head? == some '-' && argument ≠ "-"

/-- What one argument adds: options, and the name of one whose value is the next argument. -/
structure Part where
  options : List (String × String)
  pending : Option String

/-- The option of a name, which may have a value behind `=`. -/
def named? (forms : List OptionForm) (text : List Char) : Option Part := do
  let (name, value) := match Text.cut? ['='] text with
    | some (name, value) => (String.ofList name, some (String.ofList value))
    | none => (String.ofList text, none)
  let form ← forms.find? (·.name = name)
  match form.takesValue, value with
  | true, some v => pure ⟨[(name, v)], none⟩
  | true, none => pure ⟨[], some name⟩
  | false, none => pure ⟨[(name, "")], none⟩
  | false, some _ => none

/-- The options of some letters. -/
def lettered? (forms : List OptionForm) : List Char → Option Part
  | [] => some ⟨[], none⟩
  | c :: rest => do
    let form ← forms.find? (·.letter = some c)
    if form.takesValue then
      match rest with
      | [] => pure ⟨[], some form.name⟩
      | '=' :: value | value => pure ⟨[(form.name, String.ofList value)], none⟩
    else
      let part ← lettered? forms rest
      pure { part with options := (form.name, "") :: part.options }

/-- The options and operands of arguments; `pending` is an option whose value comes next. -/
def scanFrom? (forms : List OptionForm) : Option String → List String → Option Arguments
  | none, [] => some ⟨[], []⟩
  | some _, [] => none
  | some name, argument :: rest => do
    if isOption argument then none
    else
      let more ← scanFrom? forms none rest
      pure { more with options := (name, argument) :: more.options }
  | none, argument :: rest => do
    if argument = "--" then pure ⟨[], rest⟩
    else if isOption argument then
      let part ← match argument.toList.drop 1 with
        | '-' :: text => named? forms text
        | letters => lettered? forms letters
      let more ← scanFrom? forms part.pending rest
      pure { more with options := part.options ++ more.options }
    else
      let more ← scanFrom? forms none rest
      pure { more with operands := argument :: more.operands }

/-- The options and operands of arguments, no option twice. -/
def scan? (forms : List OptionForm) (arguments : List String) : Option Arguments :=
  (scanFrom? forms none arguments).filter fun a => decide (a.options.map Prod.fst).Nodup

/-- Whether a flag is set. -/
def has (a : Arguments) (name : String) : Bool := (a.options.lookup name).isSome

/-- An option's value, read; none if it cannot be read, and `some none` without the option. -/
def value? {α : Type} (a : Arguments) (name : String) (read : String → Option α) :
    Option (Option α) :=
  match a.options.lookup name with
  | none => some none
  | some text => (read text).map some

end Arguments

/-! ## Commands -/

/-- What a run is asked for. -/
structure RunRequest where
  file : String
  options : RunOptions
  /-- Report progress. -/
  verbose : Bool
  /-- Print the whole report as JSON. -/
  json : Bool
  /-- The file to whose end the events are written. -/
  eventLog : Option String
  deriving DecidableEq

/-- A command. -/
inductive Command where
  /-- Write a first definition into a directory. -/
  | init (directory : String)
  /-- Validate files, which may be given by patterns. -/
  | validate (files : List String) (json : Bool)
  | run (request : RunRequest)
  /-- Write one artifact, or all of them into a directory. -/
  | generate (file : String) (target : Option Target) (output : Option String)
  /-- Print the schema of definitions. -/
  | schema
  deriving DecidableEq

namespace Command

/-- The file of the definition where none is named. -/
def defaultFile : String := "flowcheck.yaml"

/-- A path, which is not empty. -/
def path? (s : String) : Option String := if s = "" then none else some s

/-- The target of exactly this name. -/
def target? (s : String) : Option Target := Target.all.find? (·.name = s)

/-- A number of milliseconds in 64 bits. -/
def milliseconds? (s : String) : Option Nat := Text.readUpTo? Text.maxWord s.toList

/-- The options of a validation. -/
def validateForms : List OptionForm := [⟨"json", none, false⟩]

/-- The options of a run. -/
def runForms : List OptionForm :=
  [⟨"file", some 'f', true⟩, ⟨"dry-run", none, false⟩, ⟨"continue-on-error", none, false⟩,
   ⟨"timeout", none, true⟩, ⟨"verbose", some 'v', false⟩, ⟨"json", none, false⟩,
   ⟨"event-log", none, true⟩]

/-- The options of a generation. -/
def generateForms : List OptionForm :=
  [⟨"file", some 'f', true⟩, ⟨"target", some 't', true⟩, ⟨"output", some 'o', true⟩]

/-- The arguments of a command without operands. -/
def scanOptions? (forms : List OptionForm) (arguments : List String) : Option Arguments :=
  (Arguments.scan? forms arguments).filter (·.operands.isEmpty)

/-- A request to run, from what follows the command's name. -/
def readRun? (arguments : List String) : Option RunRequest := do
  let a ← scanOptions? runForms arguments
  let file ← a.value? "file" path?
  let ceiling ← a.value? "timeout" milliseconds?
  let eventLog ← a.value? "event-log" path?
  pure
    { file := file.getD defaultFile
      options := ⟨a.has "dry-run", a.has "continue-on-error", ceiling⟩
      verbose := a.has "verbose"
      json := a.has "json"
      eventLog }

/-- The command of some arguments. -/
def read? : List String → Option Command
  | "init" :: rest => do
    let a ← Arguments.scan? [] rest
    match a.operands with
    | [] => pure (.init ".")
    | [directory] => (path? directory).map .init
    | _ => none
  | "validate" :: rest => do
    let a ← Arguments.scan? validateForms rest
    pure (.validate (if a.operands.isEmpty then [defaultFile] else a.operands) (a.has "json"))
  | "run" :: rest => (readRun? rest).map .run
  | "generate" :: rest => do
    let a ← scanOptions? generateForms rest
    let file ← a.value? "file" path?
    let target ← a.value? "target" target?
    let output ← a.value? "output" path?
    pure (.generate (file.getD defaultFile) target output)
  | "schema" :: rest => (scanOptions? [] rest).map fun _ => .schema
  | _ => none

/-- What to print where arguments are no command. -/
def usage : List String :=
  [s!"Usage: {programName} <COMMAND>", "",
   "  init [PATH]",
   "  validate [FILES]... [--json]",
   "  run [-f FILE] [--dry-run] [--continue-on-error] [--timeout MS] [-v] [--json]" ++
     " [--event-log FILE]",
   "  generate [-f FILE] [-t TARGET] [-o PATH]",
   "  schema"]

/-- Whether a command is to report its progress. -/
def verbose : Command → Bool
  | .run request => request.verbose
  | _ => false

end Command

end ProcessTest
