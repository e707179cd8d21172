import ProcessTest.Rule.Operand

/-!
# Why an artifact cannot be written
-/

set_option autoImplicit false

namespace ProcessTest.Artifact

/-- Why an artifact cannot be written. -/
inductive Error where
  /-- An interaction lacks a field; the owner is a step's id, `setup` or `cleanup`. -/
  | gestureNeeds (owner : String) (index : Nat) (gesture : Gesture) (field : String)
  /-- A database check names no table. -/
  | noTable
  /-- A settled rule has no verdict. -/
  | rule (cause : Rule.Error)
  deriving DecidableEq

/-- The wording of an error. -/
def Error.message : Error → String
  | .gestureNeeds owner index gesture field =>
    s!"{owner} action {index}: {gesture.name} needs '{field}'"
  | .noTable => "database assertion has an empty table name"
  | .rule cause => cause.message

end ProcessTest.Artifact
