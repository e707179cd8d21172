import ProcessTest.Template

/-!
# Conditions

A condition is filled like a template and then read as `left != right`, as `left == right`, or as
a single text that is true unless it is one of a few words.  As long as a placeholder is left, it
does not hold.
-/

set_option autoImplicit false

namespace ProcessTest.Condition

/-- Text without one pair of the given quotes around it. -/
def unquote? (quote : Char) (cs : List Char) : Option (List Char) :=
  (Text.dropMark? [quote] cs).bind (Text.dropEnd? [quote])

/-- An operand without the blanks around it and without one pair of quotes. -/
def operand (cs : List Char) : List Char :=
  let cs := Text.trim cs
  match unquote? '"' cs with
  | some inner => inner
  | none => (unquote? '\'' cs).getD cs

/-- The words that count as false, in lower case. -/
def falseWords : List String := ["", "false", "0", "null", "no"]

/-- Whether a text counts as true. -/
def isTrue (s : String) : Bool := !falseWords.contains (Text.lowerAscii (Text.strip s))

/-- The truth of a condition that has been filled. -/
def decided (s : String) : Bool :=
  match Text.cut? ['!', '='] s.toList with
  | some (l, r) => operand l != operand r
  | none =>
    match Text.cut? ['=', '='] s.toList with
    | some (l, r) => operand l == operand r
    | none => isTrue s

/-- Whether a condition holds. -/
def holds (condition : String) (b : Bindings) : Bool :=
  let filled := Template.fill condition b
  !Template.hasPlaceholder filled && decided filled

/-- The first condition that does not hold. -/
def firstUnmet (conditions : List String) (b : Bindings) : Option String :=
  conditions.find? (!holds · b)

end ProcessTest.Condition
