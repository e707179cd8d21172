/-!
# Whole numbers in decimal digits

Readers for the digit strings that documents, paths and clock offsets carry, and for the codes of
escaped characters.  Digits are the ASCII digits only.
-/

set_option autoImplicit false

namespace ProcessTest.Text

/-- The value of an ASCII digit. -/
def digitValue (c : Char) : Nat := c.toNat - '0'.toNat

/-- The number that a digit string denotes, most significant digit first. -/
def ofDigits (ds : List Char) : Nat := ds.foldl (fun n c => 10 * n + digitValue c) 0

/-- The decimal digits of a number, without leading zeros. -/
def digits (n : Nat) : List Char := Nat.toDigits 10 n

/-- A non-empty digit string as a number. -/
def readNat? (ds : List Char) : Option Nat :=
  if ds.isEmpty || !ds.all Char.isDigit then none else some (ofDigits ds)

/-- A digit string, `+` in front allowed, as a number of at most `most`. -/
def readUpTo? (most : Nat) (cs : List Char) : Option Nat :=
  let ds := match cs with
    | '+' :: rest => rest
    | _ => cs
  match readNat? ds with
  | some n => if n ≤ most then some n else none
  | none => none

/-- The value of a hexadecimal digit. -/
def hexValue? (c : Char) : Option Nat :=
  if c.isDigit then some (c.toNat - '0'.toNat)
  else if 'a' ≤ c && c ≤ 'f' then some (c.toNat - 'a'.toNat + 10)
  else if 'A' ≤ c && c ≤ 'F' then some (c.toNat - 'A'.toNat + 10)
  else none

/-- The value of a digit in bases up to sixteen. -/
def digitIn? (base : Nat) (c : Char) : Option Nat := (hexValue? c).filter (· < base)

/-- A non-empty digit string in a base of up to sixteen. -/
def readIn? (base : Nat) : List Char → Option Nat
  | [] => none
  | cs => cs.foldl (fun n c => do pure (base * (← n) + (← digitIn? base c))) (some 0)

/-- The character with a number; surrogates are no characters. -/
def charOf? (n : Nat) : Option Char :=
  if (0xD800 ≤ n && n ≤ 0xDFFF) || 0x10FFFF < n then none else some (Char.ofNat n)

/-- The largest number of 64 bits. -/
def maxWord : Nat := Nat.pow 2 64 - 1

/-- A whole number with an optional sign in the range of signed 64-bit numbers. -/
def readInt64? (cs : List Char) : Option Int :=
  match cs with
  | '-' :: ds => (readNat? ds).bind fun n => if n ≤ Nat.pow 2 63 then some (-(n : Int)) else none
  | _ => (readUpTo? (Nat.pow 2 63 - 1) cs).map Int.ofNat

/-- At least `width` digits, filled up with zeros on the left. -/
def padded (width n : Nat) : String :=
  let ds := digits n
  String.ofList (List.replicate (width - ds.length) '0' ++ ds)

end ProcessTest.Text
