/-!
# Rounding a quotient

The whole number nearest to a quotient of two naturals, with the two ways to settle a tie.
-/

set_option autoImplicit false

namespace ProcessTest.Rounding

/-- The whole number nearest to `num / den`, a tie to the even one. -/
def halfEven (num den : Nat) : Nat :=
  let d := num / den
  let r := 2 * (num % den)
  if r < den then d
  else if den < r then d + 1
  else d + d % 2

/-- The whole number nearest to `num / den`, a tie to the larger one. -/
def halfUp (num den : Nat) : Nat := (2 * num + den) / (2 * den)

end ProcessTest.Rounding
