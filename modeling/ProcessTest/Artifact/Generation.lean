import ProcessTest.Artifact.Brief
import ProcessTest.Artifact.BrowserScript
import ProcessTest.Artifact.DatabaseChecks
import ProcessTest.Artifact.DataSuite
import ProcessTest.Text.Cut

/-!
# Generation

A definition has four artifacts, one for each target; nothing but the definition enters them.

* `Target.read?` — the target of a name.
* `Target.generate` — the artifact of a definition.
-/

set_option autoImplicit false

namespace ProcessTest

/-- What an artifact is written for. -/
inductive Target where
  | playwright
  | jest
  | pgtap
  | agent
  deriving DecidableEq

namespace Target

def all : List Target := [.playwright, .jest, .pgtap, .agent]

/-- The name of a target. -/
def name : Target → String
  | .playwright => "playwright"
  | .jest => "jest"
  | .pgtap => "pgtap"
  | .agent => "agent"

/-- The end of the name of a file with the artifact. -/
def extension : Target → String
  | .playwright => "spec.ts"
  | .jest => "test.ts"
  | .pgtap => "sql"
  | .agent => "md"

/-- The name of a file with the artifact of a definition. -/
def fileName (target : Target) (d : Definition) : String := s!"{d.id}.{target.extension}"

/-- The target of a name, in any case of its letters and with blanks around it. -/
def read? (s : String) : Option Target :=
  all.find? (·.name = Text.lowerAscii (Text.strip s))

/-- The message for a text that names no target. -/
def unknownText (s : String) : String :=
  s!"unknown target '{s}' (expected one of: " ++ ", ".intercalate (all.map name) ++ ")"

/-- A target and a definition without the artifact. -/
structure Failure where
  target : Target
  id : String
  cause : Artifact.Error
  deriving DecidableEq

/-- The wording of a failure. -/
def Failure.message (f : Failure) : String :=
  s!"{f.target.name} generation failed for '{f.id}': {f.cause.message}"

/-- The lines of the artifact of a definition. -/
def lines (d : Definition) : Target → Except Artifact.Error (List String)
  | .playwright => Artifact.BrowserScript.lines d
  | .jest => Artifact.DataSuite.lines d
  | .pgtap => Artifact.DatabaseChecks.lines d
  | .agent => Artifact.Brief.lines d

/-- The artifact of a definition, with the bare cause where there is none. -/
def artifact (d : Definition) (target : Target) : Except Artifact.Error String :=
  (target.lines d).map Artifact.unlines

/-- The artifact of a definition. -/
def generate (d : Definition) (target : Target) : Except Failure String :=
  (target.artifact d).mapError fun cause => ⟨target, d.id, cause⟩

/-- The artifacts for some targets, up to the first failure. -/
def generateEach (d : Definition) : List Target → Except Failure (List (Target × String))
  | [] => .ok []
  | target :: rest => do
    let text ← generate d target
    let more ← generateEach d rest
    pure ((target, text) :: more)

/-- The artifacts for all targets. -/
def generateAll (d : Definition) : Except Failure (List (Target × String)) := generateEach d all

end Target

end ProcessTest
