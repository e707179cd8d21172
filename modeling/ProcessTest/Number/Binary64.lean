import ProcessTest.Number.Rounding

/-!
# Finite double-precision numbers

A finite binary64 number is a sign and a magnitude code.  Codes count the representable
magnitudes upwards from zero, so the code order is the order of the magnitudes, and equal
codes are equal magnitudes.

* `Binary64.parts` — the significand `m` and the exponent `q` with magnitude `m · 2^q`.
* `roundRatio` — the magnitude nearest to a quotient of two naturals, a tie to the even
  significand, or nothing when it is too large.
* `scaled` — a decimal significand times a power of ten, each of the two steps rounded.
-/

set_option autoImplicit false

namespace ProcessTest

/-- The number of finite magnitudes of binary64. -/
def Binary64.magnitudes : Nat := 2047 * Nat.pow 2 52

/-- A finite double-precision number. -/
structure Binary64 where
  negative : Bool
  /-- Position of the magnitude among all finite magnitudes. -/
  code : Nat
  code_lt : code < Binary64.magnitudes
  deriving DecidableEq, Repr

namespace Binary64

/-- Positive zero. -/
def zero : Binary64 := ⟨false, 0, by decide⟩

/-- Significand and binary exponent: the magnitude is `m · 2^q`. -/
def parts (x : Binary64) : Nat × Int :=
  if x.code < Nat.pow 2 52 then (x.code, -1074)
  else (Nat.pow 2 52 + x.code % Nat.pow 2 52, (x.code / Nat.pow 2 52 : Nat) - 1075)

/-- The magnitude as a quotient of two naturals. -/
def ratio (x : Binary64) : Nat × Nat :=
  let (m, q) := x.parts
  if 0 ≤ q then (m * Nat.pow 2 q.toNat, 1) else (m, Nat.pow 2 (-q).toNat)

/-- Equality of numbers: the two zeros are one number. -/
def sameNumber (x y : Binary64) : Bool :=
  x.code == y.code && (x.code == 0 || x.negative == y.negative)

/-- The code of the magnitude nearest to `num / den`, a tie to the even significand; it may
lie beyond the last finite magnitude. -/
def roundedCode (num den : Nat) : Nat :=
  if num = 0 then 0
  else
    let log : Int := (Nat.log2 num : Int) - (Nat.log2 den : Int)
    -- `num / den` lies strictly between `2^(log-1)` and `2^(log+1)`.
    let atLeast (q : Int) : Bool :=
      if 0 ≤ q then den * Nat.pow 2 (52 + q.toNat) ≤ num
      else den * Nat.pow 2 52 ≤ num * Nat.pow 2 (-q).toNat
    let q : Int := if atLeast (log - 52) then log - 52 else log - 53
    let q : Int := max q (-1074)
    let m := if 0 ≤ q then Rounding.halfEven num (den * Nat.pow 2 q.toNat)
      else Rounding.halfEven (num * Nat.pow 2 (-q).toNat) den
    (q + 1074).toNat * Nat.pow 2 52 + m

/-- The number of the given sign nearest to `num / den`, if it is finite. -/
def roundRatio (negative : Bool) (num den : Nat) : Option Binary64 :=
  let c := roundedCode num den
  if h : c < magnitudes then some ⟨negative, c, h⟩ else none

/-- The magnitude of a product, rounded. -/
def times (x y : Binary64) : Option Binary64 :=
  let (a, b) := x.ratio
  let (c, d) := y.ratio
  roundRatio x.negative (a * c) (b * d)

/-- The magnitude of a quotient, rounded. -/
def dividedBy (x y : Binary64) : Option Binary64 :=
  let (a, b) := x.ratio
  let (c, d) := y.ratio
  roundRatio x.negative (a * d) (b * c)

/-- The double nearest to a power of ten. -/
def powerOfTen (k : Nat) : Option Binary64 := roundRatio false (Nat.pow 10 k) 1

/-- Divides by `10^308` until the exponent is at least `-308`; `steps` bounds the divisions. -/
def scaleDown : Nat → Binary64 → Int → Binary64 × Int
  | 0, x, e => (x, e)
  | steps + 1, x, e =>
    if -308 ≤ e || x.code == 0 then (x, e)
    else match (powerOfTen 308).bind x.dividedBy with
      | some y => scaleDown steps y (e + 308)
      | none => (x, e)

/-- `significand · 10^exponent` in two rounded steps: the significand becomes a double, and that
double is multiplied or divided by the double nearest to the power of ten.  A magnitude beyond
the finite ones is refused. -/
def scaled (negative : Bool) (significand : Nat) (exponent : Int) : Option Binary64 := do
  let start ← roundRatio negative significand 1
  let (x, e) := scaleDown 4 start exponent
  if x.code == 0 then pure x
  else if 0 ≤ e then
    if e ≤ 308 then x.times (← powerOfTen e.toNat) else none
  else x.dividedBy (← powerOfTen (-e).toNat)

/-- `significand · 10^exponent`, rounded once.  What is below `2^-1080` rounds to zero, so powers
of ten are only computed in a bounded range. -/
def nearest (negative : Bool) (significand : Nat) (exponent : Int) : Option Binary64 :=
  if significand = 0 || (Nat.log2 significand : Int) + 1 + 3 * exponent < -1080 then
    roundRatio negative 0 1
  else if 0 ≤ exponent then
    if exponent > 400 then none else roundRatio negative (significand * Nat.pow 10 exponent.toNat) 1
  else roundRatio negative significand (Nat.pow 10 (-exponent).toNat)

end Binary64

end ProcessTest
