import ProcessTest.Run.Action

/-!
# Assertions after the steps

A check compares what the store holds, what rules demand, or what has been bound with what was
expected.  Checks of a page pass unseen, since only a browser can look at it.
-/

set_option autoImplicit false

namespace ProcessTest

/-- Whether a value is the expected one: equal, or a scalar with the same text. -/
def Value.isAsExpected (found expected : Value) : Bool :=
  found.agrees expected ||
    (found.isScalar && expected.isScalar && found.plain == expected.plain)

/-- The check of a rule. -/
def Rule.checkWith (b : Bindings) (rule : Rule) : Option AssertionError :=
  match rule.resolve b with
  | .error cause => some (.malformed cause)
  | .ok rule => match rule.evaluate with
    | .error cause => some (.rule cause)
    | .ok verdict => if verdict.passed then none else some (.unmet verdict.explanation)

/-- The check of a variable. -/
def checkVariable (b : Bindings) (path : String) (expected : Option Value) :
    Option AssertionError :=
  match b.lookup? path with
  | none => some (.unset path)
  | some found => match expected with
    | none => none
    | some expected =>
      let expected := Template.resolve b expected
      if found.isAsExpected expected then none else some (.differs path found expected)

namespace Runner

variable {σ : Type}

/-- The failure of a check, if it fails. -/
def checkOne (r : Runner σ) (b : Bindings) (check : Check) (s : σ) : Option AssertionError × σ :=
  match check with
  | .database table conditions expected =>
    match r.backend.query table (Template.resolveEntries b conditions) s with
    | (.error message, s) => (some (.query message), s)
    | (.ok records, s) =>
      (if records.length = expected then none
        else some (.count expected table records.length), s)
  | .page _ => (none, s)
  | .rule rule => (rule.checkWith b, s)
  | .variable path expected => (checkVariable b path expected, s)

/-- What the assertions come to. -/
structure Checked (σ : Type) where
  errors : List RunError
  events : List Occurrence
  world : σ

/-- All assertions from the given index on. -/
def checkAll (r : Runner σ) (b : Bindings) : Nat → List Assertion → σ → Checked σ
  | _, [], s => ⟨[], [], s⟩
  | index, a :: rest, s =>
    match r.checkOne b a.check s with
    | (none, s) => r.checkAll b (index + 1) rest s
    | (some cause, s) =>
      let error : RunError := .assertion index a.label cause
      let more := r.checkAll b (index + 1) rest s
      { more with
        errors := error :: more.errors
        events := .assertionFailed index a.check.kind error.message :: more.events }

end Runner

end ProcessTest
