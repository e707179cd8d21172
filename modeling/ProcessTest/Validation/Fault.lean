import ProcessTest.SmartCode

/-!
# Faults of a document

What the validator can object to, where, and in which words.
-/

set_option autoImplicit false

namespace ProcessTest.Validation

/-- What the content of a field must be. -/
inductive FieldKind where
  /-- Text that is not blank. -/
  | name
  /-- A whole number that is not negative. -/
  | count
  /-- A number, or text that is not blank. -/
  | amount
  | text
  | bool
  | map
  | list
  | texts
  | any
  deriving DecidableEq, Repr

/-- The kind in messages. -/
def FieldKind.describe : FieldKind → String
  | .name => "a non-empty string"
  | .count => "a non-negative integer"
  | .amount => "a number or template string"
  | .text => "a string"
  | .bool => "a boolean"
  | .map => "a mapping"
  | .list => "a list"
  | .texts => "a list of strings"
  | .any => "any value"

/-- What is wrong at a place. -/
inductive Problem where
  /-- The document, or a part of it, is no map. -/
  | noMap (part : String)
  | missing (field : String)
  | null (field : String) (kind : FieldKind)
  | mistyped (field : String) (kind : FieldKind)
  | foreign (field owner : String)
  | version (found : String)
  /-- A part that must not be empty. -/
  | empty (message : String)
  | clock (text : String)
  | unknownPersona (name : String)
  /-- A name with a point in it; `what` says what the name is for. -/
  | dotted (what name : String)
  | seeded (what name : String)
  | taken (what name : String)
  | zeroTimeout
  | tooManyRetries (most : Nat)
  | noChoice (text : String) (allowed : List String)
  | unknownKind (what kind : String) (expected : List String)
  | noStatus (status : Nat)
  | gestureNeeds (gesture field : String)
  | smartCode (verdict : SmartCode.Verdict)
  | transitionTargets
  deriving DecidableEq

/-- The wording of a problem. -/
def Problem.message : Problem → String
  | .noMap part => s!"{part} must be a mapping"
  | .missing field => s!"missing required field '{field}'"
  | .null field kind => s!"'{field}' must be {kind.describe}, not null"
  | .mistyped field kind => s!"'{field}' must be {kind.describe}"
  | .foreign field owner => s!"field '{field}' is not allowed for {owner}"
  | .version found => s!"version must be \"1.0\", got \"{found}\""
  | .empty message => message
  | .clock text => s!"'{text}' is not an RFC 3339 timestamp"
  | .unknownPersona name => s!"unknown persona '{name}'"
  | .dotted what name => s!"{what} '{name}' must not contain '.'"
  | .seeded what name => s!"{what} '{name}' shadows a seeded context variable"
  | .taken what name => s!"{what} '{name}' collides with an earlier step id or store_as name"
  | .zeroTimeout => "timeout must be greater than zero"
  | .tooManyRetries most => s!"retry must be at most {most}"
  | .noChoice text allowed => s!"'{text}' is not one of: " ++ ", ".intercalate allowed
  | .unknownKind what kind expected =>
    s!"unknown {what} '{kind}' (expected one of: " ++ ", ".intercalate expected ++ ")"
  | .noStatus status => s!"{status} is not an HTTP status"
  | .gestureNeeds gesture field => s!"ui_interaction '{gesture}' requires '{field}'"
  | .smartCode verdict => verdict.describe
  | .transitionTargets => "allowed transitions must be a list of strings"

/-- A problem and its place, `$` for the whole document. -/
structure Fault where
  path : String
  problem : Problem
  deriving DecidableEq

/-- The wording of a fault. -/
def Fault.message (f : Fault) : String := f.problem.message

/-- The path of a field of a part. -/
def inField (path field : String) : String := if path = "" then field else path ++ "." ++ field

/-- The path of an item of a list. -/
def atIndex (path : String) (index : Nat) : String := s!"{path}[{index}]"

end ProcessTest.Validation
