import ProcessTest.Toml.Moment
import ProcessTest.Toml.Number
import ProcessTest.Toml.Quoted
import ProcessTest.Toml.Table

/-!
# Reading TOML

* `value?` — a value, in which lists and inline tables may be nested up to a limit.
* `lines?` — the headers and entries of a text, line by line.
* `Toml.read?` — the value of a whole text.
-/

set_option autoImplicit false

namespace ProcessTest.Toml

/-! ## Keys -/

/-- The characters of keys without quotes. -/
def isKeyChar (c : Char) : Bool := c.isAlphanum || c == '_' || c == '-'

/-- One part of a key. -/
def keyPart? : Reader String := fun cs =>
  match quotedKey? cs with
  | some done => some done
  | none =>
    let key := cs.takeWhile isKeyChar
    if key.isEmpty then none else some (String.ofList key, cs.dropWhile isKeyChar)

/-- A dotted key of at most the given number of parts, with the blanks around it. -/
def key? : Nat → Reader (List String)
  | 0, _ => none
  | most + 1, cs => do
    let (part, rest) ← keyPart? (skipSpace cs)
    match skipSpace rest with
    | '.' :: rest =>
      let (parts, rest) ← key? most rest
      pure (part :: parts, rest)
    | rest => pure ([part], rest)

/-- The most parts of a key, and the most lists and inline tables that may be open at once. -/
def maxDepth : Nat := 79

/-- An entry before it has a place. -/
structure Pair where
  /-- The parts of the key before the last one. -/
  path : List String
  key : String
  value : Value

/-- A key, its equals sign and its value. -/
def pair? (value : Reader Value) : Reader Pair := fun cs => do
  let (parts, rest) ← key? maxDepth cs
  let (v, rest) ← value (skipSpace (← Clock.skip? '=' rest))
  let key ← parts.getLast?
  pure (⟨parts.dropLast, key, v⟩, rest)

/-! ## Values -/

/-- The items of a list behind its bracket or a comma; there are fewer of them than `fuel`. -/
def items? (value : Reader Value) : Nat → Reader (List Value)
  | 0, _ => none
  | fuel + 1, cs =>
    match skipLayout false cs with
    | ']' :: rest => some ([], rest)
    | cs => do
      let (v, rest) ← value cs
      match skipLayout false rest with
      | ',' :: rest =>
        let (vs, rest) ← items? value fuel rest
        pure (v :: vs, rest)
      | ']' :: rest => pure ([v], rest)
      | _ => none

/-- The entries of an inline table behind its brace or a comma; there are fewer of them than
`fuel`. -/
def pairs? (value : Reader Value) : Nat → Reader (List Pair)
  | 0, _ => none
  | fuel + 1, cs => do
    let (p, rest) ← pair? value cs
    match skipSpace rest with
    | ',' :: rest =>
      let (ps, rest) ← pairs? value fuel rest
      pure (p :: ps, rest)
    | '\x7d' :: rest => pure ([p], rest)
    | _ => none

/-- Adds entries one after the other. -/
def placeAll? (pairs : List Pair) : Option Nodes :=
  pairs.foldlM (fun nodes p => nodes.place? p.key p.value p.path) []

/-- A list behind its bracket. -/
def list? (value : Reader Value) : Reader Value := fun cs => do
  let (vs, rest) ← items? value (cs.length + 1) cs
  pure (.list vs, rest)

/-- An inline table behind its brace. -/
def inlineTable? (value : Reader Value) : Reader Value := fun cs =>
  match skipSpace cs with
  | '\x7d' :: rest => some (.map [], rest)
  | cs => do
    let (ps, rest) ← pairs? value (cs.length + 1) cs
    let nodes ← placeAll? ps
    pure (.map (Nodes.toEntries nodes), rest)

/-- A value that is neither a list nor an inline table. -/
def plainValue? : Reader Value
  | [] => none
  | c :: rest =>
    let cs := c :: rest
    if c = '"' || c = '\'' then (quoted? cs).map fun (s, rest) => (.text s, rest)
    else if c.isDigit || c = '+' || c = '-' then
      (moment? cs).or ((floatNumber? cs).or (wholeNumber? cs))
    else if c = 't' then (Text.dropMark? "true".toList cs).map (.bool true, ·)
    else if c = 'f' then (Text.dropMark? "false".toList cs).map (.bool false, ·)
    else if c = 'i' || c = 'n' then floatNumber? cs
    else none

/-- A value, with at most the given number of lists and inline tables open at once. -/
def value? : Nat → Reader Value
  | 0 => plainValue?
  | depth + 1 => fun cs =>
    match cs with
    | '[' :: rest => list? (value? depth) rest
    | '\x7b' :: rest => inlineTable? (value? depth) rest
    | _ => plainValue? cs

/-! ## Lines -/

/-- A line with content. -/
inductive Line where
  /-- The header of a table, or of one more table of that name. -/
  | header (repeated : Bool) (path : List String) (key : String)
  | pair (p : Pair)

/-- A header behind its brackets, up to those that close it. -/
def header? (repeated : Bool) (closing : List Char) : Reader Line := fun cs => do
  let (parts, rest) ← key? maxDepth cs
  let rest ← Text.dropMark? closing rest
  let key ← parts.getLast?
  pure (.header repeated parts.dropLast key, rest)

/-- The content of a line. -/
def line? : Reader Line
  | '[' :: '[' :: rest => header? true [']', ']'] rest
  | '[' :: rest => header? false [']'] rest
  | cs => (pair? (value? maxDepth) cs).map fun (p, rest) => (.pair p, rest)

/-- The lines of a text that have content; there are fewer lines than `fuel`. -/
def lines? : Nat → List Char → Option (List Line)
  | 0, _ => none
  | fuel + 1, cs =>
    if cs.isEmpty then some []
    else match lineEnd? cs with
      | some rest => lines? fuel rest
      | none => do
        let (l, rest) ← line? (skipSpace cs)
        let ls ← lines? fuel (← lineEnd? rest)
        pure (l :: ls)

/-- A document while it is read. -/
structure Draft where
  root : Nodes
  /-- The header under which entries are added; nothing before the first header. -/
  heading : List String

/-- Adds a line. -/
def Draft.add? (d : Draft) : Line → Option Draft
  | .header repeated path key =>
    let change := if repeated then Nodes.openItem? key else Nodes.openTable? key
    (d.root.within? change path).map fun root => ⟨root, path ++ [key]⟩
  | .pair p =>
    (d.root.within? (·.place? p.key p.value p.path) d.heading).map fun root =>
      { d with root }

/-- The value of a text. -/
def read? (s : String) : Option Value := do
  let source ← source? s
  let lines ← lines? (source.length + 1) source
  let draft ← lines.foldlM Draft.add? ⟨[], []⟩
  pure (.map (Nodes.toEntries draft.root))

end ProcessTest.Toml
