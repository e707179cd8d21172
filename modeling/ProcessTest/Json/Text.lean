import ProcessTest.Value
import ProcessTest.Number.Shortest

/-!
# JSON text of a value tree

* `Json.compact` — one line without blanks.
* `Json.pretty` — two spaces a level.
* `Value.plain` — the text of a value where it stands inside other text.

Inside quotes only the quote, the backslash and the control characters below U+0020 are escaped.
-/

set_option autoImplicit false

namespace ProcessTest

/-- The text of a number. -/
def Number.text : Number → String
  | .int n => if n < 0 then "-" ++ String.ofList (Text.digits n.natAbs)
    else String.ofList (Text.digits n.natAbs)
  | .double x => Layout.document.text x

namespace Json

/-- A digit below sixteen, in lower case. -/
def hexDigit (n : Nat) : Char :=
  if n < 10 then Char.ofNat ('0'.toNat + n) else Char.ofNat ('a'.toNat + (n - 10))

/-- One character inside quotes. -/
def escape (c : Char) : List Char :=
  if c = '"' then ['\\', '"']
  else if c = '\\' then ['\\', '\\']
  else if c = '\x08' then ['\\', 'b']
  else if c = '\x0c' then ['\\', 'f']
  else if c = '\n' then ['\\', 'n']
  else if c = '\r' then ['\\', 'r']
  else if c = '\t' then ['\\', 't']
  else if c.toNat < 0x20 then
    ['\\', 'u', '0', '0', hexDigit (c.toNat / 16), hexDigit (c.toNat % 16)]
  else [c]

/-- Text in quotes. -/
def quoted (s : String) : List Char := '"' :: s.toList.flatMap escape ++ ['"']

/-- Values without parts. -/
def scalar : Value → List Char
  | .bool true => "true".toList
  | .bool false => "false".toList
  | .number n => n.text.toList
  | .text s => quoted s
  | _ => "null".toList

mutual

/-- One line without blanks. -/
def compact : Value → List Char
  | .list items => '[' :: compactItems items ++ [']']
  | .map entries => '{' :: compactEntries entries ++ ['}']
  | v => scalar v

/-- The items with commas between them. -/
def compactItems : List Value → List Char
  | [] => []
  | [v] => compact v
  | v :: rest => compact v ++ ',' :: compactItems rest

/-- The entries with commas between them. -/
def compactEntries : List (String × Value) → List Char
  | [] => []
  | [(k, v)] => quoted k ++ ':' :: compact v
  | (k, v) :: rest => quoted k ++ ':' :: compact v ++ ',' :: compactEntries rest

end

/-- A line break and the indentation of a level. -/
def newline (level : Nat) : List Char := '\n' :: List.replicate (2 * level) ' '

mutual

/-- A value over several lines; `level` is the level of the line it begins on. -/
def prettyAt (level : Nat) : Value → List Char
  | .list [] => ['[', ']']
  | .list items => '[' :: prettyItems (level + 1) items ++ newline level ++ [']']
  | .map [] => ['{', '}']
  | .map entries => '{' :: prettyEntries (level + 1) entries ++ newline level ++ ['}']
  | v => scalar v

/-- Each item on a line of its own. -/
def prettyItems (level : Nat) : List Value → List Char
  | [] => []
  | [v] => newline level ++ prettyAt level v
  | v :: rest => newline level ++ prettyAt level v ++ ',' :: prettyItems level rest

/-- Each entry on a line of its own. -/
def prettyEntries (level : Nat) : List (String × Value) → List Char
  | [] => []
  | [(k, v)] => newline level ++ quoted k ++ ':' :: ' ' :: prettyAt level v
  | (k, v) :: rest =>
    newline level ++ quoted k ++ ':' :: ' ' :: prettyAt level v ++ ',' :: prettyEntries level rest

end

/-- A value over several lines. -/
def pretty (v : Value) : String := String.ofList (prettyAt 0 v)

end Json

namespace Value

/-- The value as JSON on one line. -/
def json (v : Value) : String := String.ofList (Json.compact v)

/-- The text of a value inside other text: a text as it is, nothing for null, all else as JSON. -/
def plain : Value → String
  | .text s => s
  | .null => ""
  | v => v.json

end Value

end ProcessTest
