/-!
# Source text of YAML

The characters of a document with the places at which they stand.  All forms of line breaks but
the Unicode separators become one, and a byte order mark in front does not count.
-/

set_option autoImplicit false

namespace ProcessTest.Yaml

/-- A character and its place.  A line break belongs to the line that it ends. -/
structure Spot where
  char : Char
  /-- The number of characters before it. -/
  index : Nat
  line : Nat
  column : Nat
  deriving Repr

/-- The characters that a document may contain. -/
def isAllowed (c : Char) : Bool :=
  let n := c.toNat
  n == 9 || n == 10 || n == 13 || (0x20 ≤ n && n ≤ 0x7E) || n == 0x85 ||
    (0xA0 ≤ n && n ≤ 0xD7FF) || (0xE000 ≤ n && n ≤ 0xFFFD && n != 0xFEFF) || 0x10000 ≤ n

/-- Line breaks in source texts. -/
def endsLine (c : Char) : Bool :=
  c == '\n' || c == '\r' || c == '\x85' || c == '\u2028' || c == '\u2029'

/-- The form that a line break takes. -/
def breakOf (c : Char) : Char := if c == '\u2028' || c == '\u2029' then c else '\n'

/-- The characters of a text from the given place on. -/
def spotsFrom (index line column : Nat) : List Char → List Spot
  | [] => []
  | '\r' :: '\n' :: rest =>
    ⟨'\n', index, line, column⟩ :: spotsFrom (index + 2) (line + 1) 0 rest
  | c :: rest =>
    if endsLine c then
      ⟨breakOf c, index, line, column⟩ :: spotsFrom (index + 1) (line + 1) 0 rest
    else ⟨c, index, line, column⟩ :: spotsFrom (index + 1) line (column + 1) rest

/-- The characters of a text, if all of them are allowed. -/
def spots? (s : String) : Option (List Spot) :=
  let cs := match s.toList with
    | '\ufeff' :: rest => rest
    | cs => cs
  if cs.all isAllowed then some (spotsFrom 0 0 0 cs) else none

/-! ## Kinds of characters -/

def isBreak (c : Char) : Bool := c == '\n' || c == '\u2028' || c == '\u2029'

/-- Blanks and tabs. -/
def isSpace (c : Char) : Bool := c == ' ' || c == '\t'

/-- The characters of anchors, tag handles and directives. -/
def isWord (c : Char) : Bool := c.isAlphanum || c == '_' || c == '-'

/-- Whether a blank, a line break or the end follows. -/
def atGap : List Spot → Bool
  | [] => true
  | s :: _ => isSpace s.char || isBreak s.char

/-- Whether a character follows. -/
def follows (c : Char) : List Spot → Bool
  | [] => false
  | s :: _ => s.char == c

/-- Whether one of some characters follows. -/
def followsAny (cs : List Char) : List Spot → Bool
  | [] => false
  | s :: _ => cs.contains s.char

/-- Whether a line begins here with three of the given marks and a gap. -/
def atMark (mark : Char) : List Spot → Bool
  | a :: b :: c :: rest =>
    a.column == 0 && a.char == mark && b.char == mark && c.char == mark && atGap rest
  | _ => false

/-- Whether a line with a document mark begins here. -/
def atDocumentMark (source : List Spot) : Bool := atMark '-' source || atMark '.' source

/-- The leading characters with a property, and what follows them. -/
def spanWhile (p : Char → Bool) : List Spot → List Char × List Spot
  | [] => ([], [])
  | s :: rest =>
    if p s.char then
      let (cs, rest) := spanWhile p rest
      (s.char :: cs, rest)
    else ([], s :: rest)

/-- What follows the leading blanks. -/
def dropSpaces (source : List Spot) : List Spot := (spanWhile isSpace source).2

/-- What follows on the next line. -/
def dropLine (source : List Spot) : List Spot := (spanWhile (!isBreak ·) source).2

end ProcessTest.Yaml
