import ProcessTest.Number.Literal
import ProcessTest.Text.Digits
import ProcessTest.Value

/-!
# Values of plain scalars

A plain scalar is nothing, a truth value, a number or a text, in this order.

* Whole numbers are decimal, or have the mark `0x`, `0o` or `0b`.  Decimal digits behind a leading
  zero are a text.  A whole number of up to 128 bits that has no place in 64 bits is refused.
* All other numbers are rounded once; infinities and what is no number count as nothing, and a
  literal beyond the finite numbers is a text.
-/

set_option autoImplicit false

namespace ProcessTest.Yaml

/-- What a scalar without a tag is. -/
inductive Plainly where
  | value (v : Value)
  /-- A whole number that has no place in 64 bits. -/
  | tooLarge

/-- The digits behind a mark of a base, and the base. -/
def basedDigits? : List Char → Option (Nat × List Char)
  | '0' :: 'x' :: ds => some (16, ds)
  | '0' :: 'o' :: ds => some (8, ds)
  | '0' :: 'b' :: ds => some (2, ds)
  | _ => none

/-- A sign in front, and what follows it; true for minus. -/
def signOf : List Char → Bool × List Char := Literal.sign

/-- Several digits of which the first is zero. -/
def isZeroLed (cs : List Char) : Bool :=
  let ds := (signOf cs).2
  1 < ds.length && ds.head? == some '0' && ds.all Char.isDigit

/-- A whole number. -/
def wholeNumber? (cs : List Char) : Option Int :=
  let (negative, ds) := signOf cs
  let signed (n : Nat) : Int := if negative then -(n : Int) else n
  match (basedDigits? ds).bind fun (base, ds) => Text.readIn? base ds with
  | some n => some (signed n)
  | none => if isZeroLed cs then none else (Text.readNat? ds).map signed

/-- The whole numbers of 64 bits, with or without a sign. -/
def fitsWord (n : Int) : Bool := -(Nat.pow 2 63 : Int) ≤ n && n < Nat.pow 2 64

/-- The whole numbers of 128 bits, with or without a sign. -/
def fitsTwoWords (n : Int) : Bool := -(Nat.pow 2 127 : Int) ≤ n && n < Nat.pow 2 128

/-- The spellings of infinities and of what is no number. -/
def isEndless (cs : List Char) : Bool :=
  let unsigned := match cs with
    | '+' :: rest => rest
    | _ => cs
  [".inf", ".Inf", ".INF"].contains (String.ofList unsigned) ||
    ["-.inf", "-.Inf", "-.INF", ".nan", ".NaN", ".NAN"].contains (String.ofList cs)

/-- A number that need not be whole; none is null. -/
def realNumber? (cs : List Char) : Option Value :=
  if isEndless cs then some .null
  else (Literal.read? cs).map fun x => .number (.double x)

/-- The spellings of nothing. -/
def isNull (s : String) : Bool := ["null", "Null", "NULL", "~"].contains s

/-- The truth value of a text. -/
def truth? (s : String) : Option Bool :=
  if ["true", "True", "TRUE"].contains s then some true
  else if ["false", "False", "FALSE"].contains s then some false
  else none

/-- A number that is not whole, or else a text. -/
def realOrText (s : String) : Value :=
  if isZeroLed s.toList then .text s else (realNumber? s.toList).getD (.text s)

/-- The value of a plain scalar. -/
def plainValue (s : String) : Plainly :=
  if s = "" || isNull s then .value .null
  else match truth? s with
    | some b => .value (.bool b)
    | none => match wholeNumber? s.toList with
      | some n =>
        if fitsWord n then .value (.number (.int n))
        else if fitsTwoWords n then .tooLarge
        else .value (realOrText s)
      | none => .value (realOrText s)

/-- The value of a scalar with the full form of a tag; texts are the rule. -/
def taggedValue? (tag s : String) : Option Value :=
  match tag with
  | "tag:yaml.org,2002:null" => if isNull s then some .null else none
  | "tag:yaml.org,2002:bool" => (truth? s).map .bool
  | "tag:yaml.org,2002:int" =>
    ((wholeNumber? s.toList).filter fitsWord).map fun n => .number (.int n)
  | "tag:yaml.org,2002:float" => realNumber? s.toList
  | _ => some (.text s)

end ProcessTest.Yaml
