import ProcessTest.Number.Decimal
import ProcessTest.Text.Cut
import ProcessTest.Text.Digits

/-!
# Decimal text

* `Decimal.text` — all places are written, and zero has no sign.
* `Decimal.read?` — plain digits with an optional point, or digits with an exponent of ten.

Underscores may stand between digits.  Once a further digit has no room, it decides how the last
digit is rounded, and what follows it is not looked at.
-/

set_option autoImplicit false

namespace ProcessTest.Decimal

/-- The text of a decimal. -/
def text (a : Decimal) : String :=
  let ds := (Text.padded (a.scale + 1) a.mantissa.natAbs).toList
  let whole := ds.take (ds.length - a.scale)
  let fraction := ds.drop (ds.length - a.scale)
  String.ofList ((if a.mantissa < 0 then ['-'] else []) ++ whole ++
    if fraction.isEmpty then [] else '.' :: fraction)

/-- What has been read of a plain number. -/
structure Reading where
  negative : Bool
  size : Nat
  scale : Nat
  /-- Behind the point. -/
  point : Bool
  /-- Some digit has been read. -/
  digit : Bool

/-- Rounds by the first character that has no room. -/
def Reading.round? (r : Reading) (c : Char) : Option Decimal :=
  if c.isDigit then
    if Text.digitValue c < 5 then ofParts? r.negative r.size r.scale
    else if r.size + 1 < bound then ofParts? r.negative (r.size + 1) r.scale
    else if r.scale = 0 then none
    else ofParts? r.negative ((r.size + 5) / 10) (r.scale - 1)
  else if c = '_' || c = '.' then ofParts? r.negative r.size r.scale
  else none

/-- Reads on behind the sign. -/
def Reading.run? (r : Reading) : List Char → Option Decimal
  | [] => if r.digit then ofParts? r.negative r.size r.scale else none
  | c :: cs =>
    if r.point && maxScale ≤ r.scale then r.round? c
    else if c.isDigit then
      let size := 10 * r.size + Text.digitValue c
      if size < bound then
        run? { r with size, scale := if r.point then r.scale + 1 else 0, digit := true } cs
      else if r.point then r.round? c
      else none
    else if c = '.' && !r.point then run? { r with point := true } cs
    else if c = '_' && r.digit then run? r cs
    else none

/-- A number without exponent. -/
def readPlain? (cs : List Char) : Option Decimal :=
  match cs with
  | '-' :: rest => (⟨true, 0, 0, false, false⟩ : Reading).run? rest
  | '+' :: rest => (⟨false, 0, 0, false, false⟩ : Reading).run? rest
  | _ => (⟨false, 0, 0, false, false⟩ : Reading).run? cs

/-- The number with the same digits and another scale. -/
def withScale? (a : Decimal) (scale : Nat) : Option Decimal :=
  ofParts? (decide (a.mantissa < 0)) a.mantissa.natAbs scale

/-- Drops the zeros at the end of the places. -/
def trimmed (a : Decimal) : Nat → Decimal
  | 0 => a
  | n + 1 =>
    if 0 < a.scale && a.mantissa.natAbs % 10 == 0 then
      match ofParts? (decide (a.mantissa < 0)) (a.mantissa.natAbs / 10) (a.scale - 1) with
      | some shorter => shorter.trimmed n
      | none => a
    else a

/-- The number times a power of ten of at most 28. -/
def raise? (a : Decimal) (exponent : Nat) : Option Decimal := do
  let power ← ofParts? false (Nat.pow 10 exponent) 0
  let product ← a.mul? power
  pure (product.trimmed maxScale)

/-- A number with an exponent of ten between -28 and 28. -/
def readScientific? (cs : List Char) : Option Decimal := do
  let base := cs.takeWhile fun c => c != 'e' && c != 'E'
  let exponent ← (cs.dropWhile fun c => c != 'e' && c != 'E').tail?
  let a ← readPlain? base
  match exponent with
  | '-' :: ds =>
    let e ← Text.readUpTo? maxScale ds
    if a.scale + e ≤ maxScale then a.withScale? (a.scale + e)
    else (a.toPlaces (maxScale - e)).withScale? maxScale
  | ds =>
    let e ← Text.readUpTo? maxScale ds
    if e ≤ a.scale then a.withScale? (a.scale - e) else a.raise? e

/-- The decimal of a text. -/
def read? (s : String) : Option Decimal :=
  match readPlain? s.toList with
  | some d => some d
  | none => readScientific? s.toList

end ProcessTest.Decimal
