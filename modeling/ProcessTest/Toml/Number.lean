import ProcessTest.Number.Literal
import ProcessTest.Text.Cut
import ProcessTest.Toml.Source
import ProcessTest.Value

/-!
# Numbers of TOML

Digits may be joined by single underscores.

* `wholeNumber?` — a whole number of signed 64 bits, decimal without leading zeros or, without a
  sign, behind one of the marks `0x`, `0o` and `0b`.
* `floatNumber?` — a number with a fraction or an exponent, rounded once.  Infinities and what is no
  number have no value, and nor has a negative number beyond the finite ones; a positive one is
  refused.
-/

set_option autoImplicit false

namespace ProcessTest.Toml

/-- Whether every underscore stands between two digits; `digit` says that a digit precedes. -/
def isJoined (digit : Bool) : List Char → Bool
  | [] => digit
  | c :: rest => if c = '_' then digit && isJoined false rest else isJoined true rest

/-- Digits of a kind with their underscores. -/
def joinedDigits? (ok : Char → Bool) : Reader (List Char) := fun cs =>
  let isPart (c : Char) : Bool := ok c || c == '_'
  let ds := cs.takeWhile isPart
  if isJoined false ds then some (ds.filter (· ≠ '_'), cs.dropWhile isPart) else none

/-- Decimal digits without a leading zero. -/
def wholeDigits? : Reader (List Char) := fun cs =>
  (joinedDigits? Char.isDigit cs).filter fun (ds, _) => ds.head? ≠ some '0' || ds = ['0']

/-- A number, if it fits 64 bits with a sign. -/
def int64? (n : Int) : Option Value :=
  if -(Nat.pow 2 63 : Int) ≤ n && n < Nat.pow 2 63 then some (.number (.int n)) else none

/-- The base that a mark stands for. -/
def base? (c : Char) : Option Nat :=
  if c = 'x' then some 16 else if c = 'o' then some 8 else if c = 'b' then some 2 else none

/-- A whole number behind the mark of a base. -/
def basedNumber? : Reader Value
  | '0' :: c :: rest => do
    let base ← base? c
    let (ds, rest) ← joinedDigits? (fun c => (Text.digitIn? base c).isSome) rest
    let n ← Text.readIn? base ds
    (int64? n).map (·, rest)
  | _ => none

/-- A whole number. -/
def wholeNumber? : Reader Value := fun cs =>
  match basedNumber? cs with
  | some done => some done
  | none => do
    let (negative, cs) := Literal.sign cs
    let (ds, rest) ← wholeDigits? cs
    let n : Int := Text.ofDigits ds
    (int64? (if negative then -n else n)).map (·, rest)

/-- An exponent with its letter. -/
def exponentPart? : Reader (List Char)
  | c :: rest => do
    if c = 'e' || c = 'E' then
      let (negative, rest) := Literal.sign rest
      let (ds, rest) ← joinedDigits? Char.isDigit rest
      pure ('e' :: (if negative then '-' else '+') :: ds, rest)
    else none
  | [] => none

/-- What stands behind the digits before the point, of a number that is not whole. -/
def fractionalPart? : Reader (List Char)
  | '.' :: rest => do
    let (ds, rest) ← joinedDigits? Char.isDigit rest
    match exponentPart? rest with
    | some (exponent, rest) => pure ('.' :: ds ++ exponent, rest)
    | none => pure ('.' :: ds, rest)
  | cs => exponentPart? cs

/-- A number that is not whole. -/
def floatNumber? : Reader Value := fun cs => do
  let (negative, cs) := Literal.sign cs
  match Text.dropMark? "inf".toList cs, Text.dropMark? "nan".toList cs with
  | some rest, _ | none, some rest => pure (.null, rest)
  | none, none =>
    let (whole, rest) ← wholeDigits? cs
    let (part, rest) ← fractionalPart? rest
    match Literal.read? ((if negative then ['-'] else []) ++ whole ++ part) with
    | some x => pure (.number (.double x), rest)
    | none => if negative then pure (.null, rest) else none

end ProcessTest.Toml
