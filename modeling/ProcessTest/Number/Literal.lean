import ProcessTest.Number.Binary64
import ProcessTest.Text.Digits

/-!
# Decimal literals

Texts such as `-1.5e3` as numbers that are rounded once.  Digits may be missing on one side of the
point, and a point needs no digits behind it.
-/

set_option autoImplicit false

namespace ProcessTest.Literal

/-- A sign in front, and what follows it; true for minus. -/
def sign : List Char → Bool × List Char
  | '-' :: rest => (true, rest)
  | '+' :: rest => (false, rest)
  | cs => (false, cs)

/-- The exponent behind `e`, which needs a digit; nothing at all is the exponent zero. -/
def exponent? : List Char → Option Int
  | [] => some 0
  | c :: rest =>
    if c = 'e' || c = 'E' then
      let (negative, ds) := sign rest
      (Text.readNat? ds).map fun n => if negative then -(n : Int) else n
    else none

/-- The digits on both sides of the point, and what follows them; there is at least one. -/
def mantissa? (cs : List Char) : Option (List Char × List Char × List Char) :=
  let whole := cs.takeWhile Char.isDigit
  let (fraction, rest) := match cs.dropWhile Char.isDigit with
    | '.' :: rest => (rest.takeWhile Char.isDigit, rest.dropWhile Char.isDigit)
    | rest => ([], rest)
  if whole.isEmpty && fraction.isEmpty then none else some (whole, fraction, rest)

/-- The number of a literal, if it is finite. -/
def read? (cs : List Char) : Option Binary64 := do
  let (negative, cs) := sign cs
  let (whole, fraction, rest) ← mantissa? cs
  let exponent ← exponent? rest
  Binary64.nearest negative (Text.ofDigits (whole ++ fraction)) (exponent - fraction.length)

end ProcessTest.Literal
