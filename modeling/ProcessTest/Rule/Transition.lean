/-!
# Status transitions

A table lists for each status the ones it may move to.
-/

set_option autoImplicit false

namespace ProcessTest.Rule

/-- A status with the ones it may move to, for each status of the table. -/
abbrev TransitionTable := List (String × List String)

/-- Why a transition is not allowed. -/
inductive TransitionFault where
  /-- The table does not have the first status. -/
  | noRow (source : String)
  | notAllowed (source target : String) (allowed : List String)
  deriving DecidableEq

/-- The wording of a fault. -/
def TransitionFault.message : TransitionFault → String
  | .noRow source => s!"no transitions are defined from '{source}'"
  | .notAllowed source target allowed =>
    let list := if allowed.isEmpty then "none" else ", ".intercalate allowed
    s!"transition '{source}' -> '{target}' is not allowed (allowed: {list})"

/-- Verdict on a transition. -/
structure TransitionVerdict where
  source : String
  target : String
  allowed : List String
  fault : Option TransitionFault
  deriving DecidableEq

/-- Whether the transition is allowed. -/
def TransitionVerdict.valid (v : TransitionVerdict) : Bool := v.fault.isNone

/-- Looks a transition up in the table. -/
def checkTransition (table : TransitionTable) (source target : String) : TransitionVerdict :=
  match table.lookup source with
  | none => ⟨source, target, [], some (.noRow source)⟩
  | some allowed =>
    ⟨source, target, allowed,
      if allowed.contains target then none else some (.notAllowed source target allowed)⟩

end ProcessTest.Rule
