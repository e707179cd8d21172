import ProcessTest.Rule.Operand

/-!
# The accounting equation

Assets are liabilities and equity, up to a tolerance.
-/

set_option autoImplicit false

namespace ProcessTest.Rule

/-- The tolerance of a rule that names none. -/
def defaultTolerance : Decimal := ⟨1, 4, Decimal.one.mantissa_lt, by decide⟩

/-- Verdict on an accounting equation. -/
structure EquationVerdict where
  valid : Bool
  assets : Decimal
  liabilities : Decimal
  equity : Decimal
  /-- Assets less liabilities less equity. -/
  difference : Decimal
  tolerance : Decimal

/-- Compares both sides of the equation; the sign of the tolerance does not count. -/
def checkEquation (assets liabilities equity tolerance : Decimal) :
    Except Error EquationVerdict :=
  match (assets.sub? liabilities).bind (·.sub? equity) with
  | none => .error (.equation assets liabilities equity)
  | some difference =>
    .ok { valid := difference.abs.le tolerance.abs
          assets, liabilities, equity, difference, tolerance := tolerance.abs }

end ProcessTest.Rule
