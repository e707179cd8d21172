import ProcessTest.Number.Rounding

/-!
# Decimals of 96 bits

A decimal is a whole number below `2^96` in size with at most 28 places behind the point.  The
places are kept: `5.00` is not written `5`.

* `Decimal.fit?` — a quotient at the finest scale at which its nearest decimal fits, a tie to
  the even last digit.
* `Decimal.add?`, `sub?`, `mul?`, `div?` — arithmetic that fails where nothing fits.
* `Decimal.toPlaces` — rounding to a number of places, a tie away from zero.
-/

set_option autoImplicit false

namespace ProcessTest

/-- A decimal: `mantissa / 10^scale`. -/
structure Decimal where
  mantissa : Int
  scale : Nat
  mantissa_lt : mantissa.natAbs < Nat.pow 2 96
  scale_le : scale ≤ 28
  deriving DecidableEq

namespace Decimal

/-- The first size that does not fit. -/
def bound : Nat := Nat.pow 2 96

/-- The most places behind the point. -/
def maxScale : Nat := 28

/-- The decimal of the given sign, size and scale, if it is one. -/
def ofParts? (negative : Bool) (size scale : Nat) : Option Decimal :=
  if h : size < Nat.pow 2 96 ∧ scale ≤ 28 then
    some ⟨if negative then -(size : Int) else size, scale, by split <;> simpa using h.1, h.2⟩
  else none

/-- Zero without places. -/
def zero : Decimal := ⟨0, 0, by decide, by decide⟩

/-- One without places. -/
def one : Decimal := ⟨1, 0, by decide, by decide⟩

/-- Whether the number is zero, at whatever scale. -/
def isZero (a : Decimal) : Bool := a.mantissa == 0

/-- Order of the numbers. -/
def le (a b : Decimal) : Bool :=
  a.mantissa * Nat.pow 10 b.scale ≤ b.mantissa * Nat.pow 10 a.scale

/-- Strict order of the numbers. -/
def lt (a b : Decimal) : Bool := !b.le a

/-- Equality of the numbers; the scale does not count. -/
def agrees (a b : Decimal) : Bool :=
  a.mantissa * Nat.pow 10 b.scale == b.mantissa * Nat.pow 10 a.scale

/-- The number without its sign. -/
def abs (a : Decimal) : Decimal :=
  ⟨a.mantissa.natAbs, a.scale, by rw [Int.natAbs_natCast]; exact a.mantissa_lt, a.scale_le⟩

/-- The number with the other sign. -/
def neg (a : Decimal) : Decimal :=
  ⟨-a.mantissa, a.scale, by rw [Int.natAbs_neg]; exact a.mantissa_lt, a.scale_le⟩

/-- `num / den` at the finest scale, not finer than the given one, at which the nearest decimal
fits; a tie goes to the even last digit. -/
def fit? (negative : Bool) (num den : Nat) : Nat → Option Decimal
  | 0 => ofParts? negative (Rounding.halfEven num den) 0
  | scale + 1 =>
    match ofParts? negative (Rounding.halfEven (num * Nat.pow 10 (scale + 1)) den) (scale + 1) with
    | some d => some d
    | none => fit? negative num den scale

/-- The sum, exact where it fits and otherwise rounded.  Zero leaves the other summand as it is
written. -/
def add? (a b : Decimal) : Option Decimal :=
  if a.isZero then some b
  else if b.isZero then some a
  else
    let sum := a.mantissa * Nat.pow 10 b.scale + b.mantissa * Nat.pow 10 a.scale
    fit? (decide (sum < 0)) sum.natAbs (Nat.pow 10 (a.scale + b.scale)) (max a.scale b.scale)

/-- The difference. -/
def sub? (a b : Decimal) : Option Decimal := a.add? b.neg

/-- The product, exact where it fits and otherwise rounded. -/
def mul? (a b : Decimal) : Option Decimal :=
  if a.isZero || b.isZero then some zero
  else
    let product := a.mantissa * b.mantissa
    fit? (decide (product < 0)) product.natAbs (Nat.pow 10 (a.scale + b.scale))
      (min maxScale (a.scale + b.scale))

/-- The quotient at the finest scale that fits. -/
def div? (a b : Decimal) : Option Decimal :=
  if b.isZero then none
  else if a.isZero then some zero
  else
    fit? (decide (a.mantissa * b.mantissa < 0)) (a.mantissa.natAbs * Nat.pow 10 b.scale)
      (b.mantissa.natAbs * Nat.pow 10 a.scale) maxScale

/-- Adds up to `n` places that hold zeros, as long as they fit. -/
def widen (a : Decimal) : Nat → Decimal
  | 0 => a
  | n + 1 =>
    match ofParts? (decide (a.mantissa < 0)) (a.mantissa.natAbs * 10) (a.scale + 1) with
    | some wider => wider.widen n
    | none => a

/-- The number with the given places: rounded where it has more, a tie away from zero, and
filled with zeros as far as they fit where it has fewer. -/
def toPlaces (places : Nat) (a : Decimal) : Decimal :=
  if places < a.scale then
    (ofParts? (decide (a.mantissa < 0))
      (Rounding.halfUp a.mantissa.natAbs (Nat.pow 10 (a.scale - places))) places).getD a
  else a.widen (places - a.scale)

end Decimal

end ProcessTest
