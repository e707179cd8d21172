import ProcessTest.Artifact.Generation
import ProcessTest.Document
import ProcessTest.Files.System
import ProcessTest.Validation.Checker

/-!
# Outcomes of commands

* `CommandError` — why a command fails, with its wording.
* `CommandOutcome` — what a command comes to.
-/

set_option autoImplicit false

namespace ProcessTest

/-! ## Failures -/

/-- Why a file has no document. -/
inductive DocumentError where
  | unreadable (path : String) (cause : FileError)
  | malformed (format : Format)
  deriving DecidableEq

/-- The wording of a failure to read a document. -/
def DocumentError.message : DocumentError → String
  | .unreadable path cause => s!"failed to read {path}: {cause.message}"
  | .malformed format => format.failureText

/-- Why a command fails. -/
inductive CommandError where
  | existing (path : String)
  | notCreated (path : String) (cause : FileError)
  | notWritten (path : String) (cause : FileError)
  | badPattern (pattern : String)
  | noMatch (pattern : String)
  | document (cause : DocumentError)
  /-- The document of a file is no definition. -/
  | rejected (path : String) (cause : Validation.Rejection)
  | invalidFiles (invalid total : Nat)
  | runFailed (errors : Nat)
  | generation (cause : Target.Failure)
  deriving DecidableEq

/-- A fault with its place on one line. -/
def faultLine (line : String × String) : String := s!"{line.1}: {line.2}"

/-- The wording of a command's failure. -/
def CommandError.message : CommandError → String
  | .existing path => s!"{path} already exists"
  | .notCreated path cause => s!"cannot create {path}: {cause.message}"
  | .notWritten path cause => s!"cannot write {path}: {cause.message}"
  | .badPattern pattern => s!"bad pattern '{pattern}'"
  | .noMatch pattern => s!"no files match '{pattern}'"
  | .document cause => cause.message
  | .rejected path cause =>
    "\n".intercalate (s!"{path} is invalid ({cause.lines.length} error(s)):" ::
      cause.lines.map fun l => "  " ++ faultLine l)
  | .invalidFiles invalid total => s!"{invalid} of {total} file(s) invalid"
  | .runFailed errors => s!"run failed with {errors} error(s)"
  | .generation cause => cause.message

/-- What a command comes to. -/
structure CommandOutcome where
  /-- What it prints. -/
  output : String
  /-- What it prints about invalid files. -/
  complaints : String
  failure : Option CommandError
  deriving DecidableEq

namespace CommandOutcome

/-- A command that has printed lines and succeeded. -/
def printed (lines : List String) : CommandOutcome := ⟨Artifact.unlines lines, "", none⟩

/-- A command that has failed without a word. -/
def failed (cause : CommandError) : CommandOutcome := ⟨"", "", some cause⟩

/-- An outcome behind what has been printed before. -/
def behind (before : String) (o : CommandOutcome) : CommandOutcome :=
  { o with output := before ++ o.output }

/-- One outcome behind another one that has not failed. -/
def andThen (first next : CommandOutcome) : CommandOutcome :=
  ⟨first.output ++ next.output, first.complaints ++ next.complaints, next.failure⟩

end CommandOutcome

end ProcessTest
