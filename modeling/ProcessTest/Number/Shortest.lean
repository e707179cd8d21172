import ProcessTest.Number.Binary64
import ProcessTest.Text.Digits

/-!
# Shortest decimal text of a double

`Binary64.shortest` gives the fewest decimal digits that round back to the number, of several
such the nearest, and the place of the decimal point.  How the digits are written is a
`Layout`; `Layout.document` is the one of documents.
-/

set_option autoImplicit false

namespace ProcessTest

/-- Digits `d₁d₂…dₙ` with the value `d₁.d₂…dₙ · 10^exponent`. -/
structure DecimalDigits where
  digits : List Char
  exponent : Int
  deriving DecidableEq, Repr

namespace Binary64

/-- A positive magnitude and the ends of the interval that rounds to it, over one denominator. -/
structure Span where
  low : Nat
  value : Nat
  high : Nat
  den : Nat
  /-- Whether the ends themselves round to the magnitude. -/
  closed : Bool

/-- The interval of reals that round to a number. -/
def span (x : Binary64) : Span :=
  let (m, q) := x.parts
  -- Below a power of two the neighbours stand twice as close.
  let gap := if m = Nat.pow 2 52 && decide (-1074 < q) then 1 else 2
  let up (n : Nat) : Nat := if 0 ≤ q then n * Nat.pow 2 q.toNat else n
  let den := if 0 ≤ q then 4 else 4 * Nat.pow 2 (-q).toNat
  { low := up (4 * m - gap)
    value := up (4 * m)
    high := up (4 * m + 2)
    den
    closed := m % 2 == 0 }

/-- Whether `n · 10^(-places)` lies in the interval. -/
def Span.contains (s : Span) (places : Int) (n : Nat) : Bool :=
  -- `n / 10^places` against `low / den` and `high / den`
  let (lhs, scale) := if 0 ≤ places then (n * s.den, Nat.pow 10 places.toNat)
    else (n * Nat.pow 10 (-places).toNat * s.den, 1)
  if s.closed then s.low * scale ≤ lhs && lhs ≤ s.high * scale
  else s.low * scale < lhs && lhs < s.high * scale

/-- The whole numbers around `value · 10^places`, and the distance of the value from the lower
one as a quotient. -/
def Span.grid (s : Span) (places : Int) : Nat × Nat × Nat :=
  let (num, den) := if 0 ≤ places then (s.value * Nat.pow 10 places.toNat, s.den)
    else (s.value, s.den * Nat.pow 10 (-places).toNat)
  (num / den, num % den, den)

/-- The neighbour of the value on the grid of `10^(-places)` that reads back, the nearer one if
both do, the even one if they are equally near. -/
def Span.pick? (s : Span) (places : Int) : Option Nat :=
  let (d, r, den) := s.grid places
  match s.contains places d && d != 0, s.contains places (d + 1) with
  | true, true => some (if 2 * r < den then d else if den < 2 * r then d + 1 else d + d % 2)
  | true, false => some d
  | false, true => some (d + 1)
  | false, false => none

/-- The exponent `e` with `10^e ≤ value < 10^(e+1)`. -/
def Span.magnitude (s : Span) : Int :=
  let guess : Int := ((Nat.log2 s.value : Int) - (Nat.log2 s.den : Int)) * 30103 / 100000
  let reaches (e : Int) : Bool :=
    if 0 ≤ e then s.den * Nat.pow 10 e.toNat ≤ s.value
    else s.den ≤ s.value * Nat.pow 10 (-e).toNat
  if reaches (guess + 1) then guess + 1 else if reaches guess then guess else guess - 1

/-- The first grid with a hit among `n, n+1, …` digits. -/
def Span.search (s : Span) (magnitude : Int) : Nat → Nat → Option (Nat × Int)
  | 0, _ => none
  | fuel + 1, n =>
    let places : Int := (n : Int) - 1 - magnitude
    match s.pick? places with
    | some d => some (d, places)
    | none => search s magnitude fuel (n + 1)

/-- The fewest digits that round back to the number. -/
def shortest (x : Binary64) : DecimalDigits :=
  if x.code = 0 then ⟨['0'], 0⟩
  else
    let s := x.span
    match s.search s.magnitude 17 1 with
    | some (d, places) =>
      let ds := Text.digits d
      ⟨match (ds.reverse.dropWhile (· == '0')).reverse with
        | [] => ['0']
        | kept => kept,
       (ds.length : Int) - 1 - places⟩
    | none => ⟨['0'], 0⟩

end Binary64

/-- How the digits of a number are written. -/
structure Layout where
  /-- The least and the first too large exponent of the plain form. -/
  plainFrom : Int
  plainBelow : Int
  /-- Whether the exponent carries a plus sign. -/
  plusSign : Bool

/-- Documents write a number plainly from `10^-5` up to below `10^16`, always with a point or
an exponent, and mark the sign of an exponent. -/
def Layout.document : Layout := ⟨-5, 16, true⟩

/-- The digits without sign. -/
def Layout.unsigned (l : Layout) (d : DecimalDigits) : List Char :=
  if l.plainFrom ≤ d.exponent && d.exponent < l.plainBelow then
    if d.exponent < 0 then
      '0' :: '.' :: List.replicate ((-d.exponent).toNat - 1) '0' ++ d.digits
    else
      let whole := d.exponent.toNat + 1
      let fraction := d.digits.drop whole
      d.digits.take whole ++ List.replicate (whole - d.digits.length) '0' ++
        '.' :: (if fraction.isEmpty then ['0'] else fraction)
  else
    let lead := match d.digits with
      | [one] => [one]
      | one :: rest => one :: '.' :: rest
      | [] => []
    let mark := if d.exponent < 0 then ['-'] else if l.plusSign then ['+'] else []
    lead ++ 'e' :: mark ++ Text.digits d.exponent.natAbs

/-- The text of a double. -/
def Layout.text (l : Layout) (x : Binary64) : String :=
  let body := l.unsigned x.shortest
  String.ofList (if x.negative then '-' :: body else body)

end ProcessTest
