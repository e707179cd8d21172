import ProcessTest.Yaml.Scalar

/-!
# Tokens of YAML

Indentation is made explicit: collections in block style are opened and closed by tokens of their
own.  A key without a mark is only known as one when the `:` behind it is reached, so the tokens
that introduce it are put in where it began.

* `Token.ofSource?` — the tokens of a document.
-/

set_option autoImplicit false

namespace ProcessTest.Yaml

/-- The tokens of YAML. -/
inductive Token where
  | version (major minor : Nat)
  /-- A handle and what it stands for. -/
  | handle (name stem : String)
  | documentStart
  | documentEnd
  | blockSequence
  | blockMapping
  | blockEnd
  | flowSequence
  | flowSequenceEnd
  | flowMapping
  | flowMappingEnd
  | blockEntry
  | flowEntry
  | key
  | value
  | alias (name : String)
  | anchor (name : String)
  /-- A tag by its handle and what follows it; without a handle it stands for itself. -/
  | tag (handle : Option String) (suffix : String)
  | scalar (plain : Bool) (text : String)
  deriving DecidableEq, Repr

/-- A place where a key may have begun. -/
structure KeyStart where
  /-- Nothing but a key can stand there. -/
  required : Bool
  /-- The number of tokens before it. -/
  position : Nat
  spot : Spot

/-- A text under reading. -/
structure Lexer where
  source : List Spot
  /-- The tokens so far, the last one first. -/
  tokens : List Token
  /-- A key may begin here. -/
  keyAllowed : Bool
  /-- The column of the innermost block collection, and those of the enclosing ones. -/
  indent : Int
  indents : List Int
  /-- The possible key outside brackets is last, those of inner brackets stand before it. -/
  keys : List (Option KeyStart)

namespace Lexer

/-- The state in front of a text. -/
def ofSource (source : List Spot) : Lexer := ⟨source, [], true, -1, [], [none]⟩

/-- Whether the place is inside brackets. -/
def inFlow (l : Lexer) : Bool := 1 < l.keys.length

/-- Adds a token. -/
def emit (t : Token) (l : Lexer) : Lexer := { l with tokens := t :: l.tokens }

/-- Puts a token in behind the given number of tokens. -/
def insert (position : Nat) (t : Token) (l : Lexer) : Lexer :=
  let later := l.tokens.length - position
  { l with tokens := l.tokens.take later ++ t :: l.tokens.drop later }

/-- Replaces the innermost possible key. -/
def setKey (key : Option KeyStart) (l : Lexer) : Lexer := { l with keys := key :: l.keys.tail }

/-- Gives the innermost possible key up; fails if it had to be one. -/
def dropKey? (l : Lexer) : Option Lexer :=
  match l.keys.head? with
  | some (some k) => if k.required then none else some (l.setKey none)
  | _ => some l

/-- Notes that a key may begin here. -/
def noteKey? (spot : Spot) (l : Lexer) : Option Lexer :=
  if l.keyAllowed then do
    let l ← l.dropKey?
    let required := !l.inFlow && l.indent = spot.column
    pure (l.setKey (some ⟨required, l.tokens.length, spot⟩))
  else some l

/-- A key must be on one line and shorter than this. -/
def keyLimit : Nat := 1024

/-- Gives up the possible keys that can no longer be keys; fails if one of them had to be one. -/
def dropStale? (spot : Spot) : List (Option KeyStart) → Option (List (Option KeyStart))
  | [] => some []
  | none :: rest => (dropStale? spot rest).map (none :: ·)
  | some k :: rest =>
    if k.spot.line < spot.line || k.spot.index + keyLimit < spot.index then
      if k.required then none else (dropStale? spot rest).map (none :: ·)
    else (dropStale? spot rest).map (some k :: ·)

/-- The columns of the collections that go on at a column, with the number of those that end. -/
def unrolled (column : Int) : Int → List Int → Nat × Int × List Int
  | indent, [] => (0, indent, [])
  | indent, outer :: rest =>
    if column < indent then
      let (ended, indent, rest) := unrolled column outer rest
      (ended + 1, indent, rest)
    else (0, indent, outer :: rest)

/-- Ends the block collections to the right of a column. -/
def unroll (column : Int) (l : Lexer) : Lexer :=
  if l.inFlow then l
  else
    let (ended, indent, indents) := unrolled column l.indent l.indents
    { l with indent, indents, tokens := List.replicate ended .blockEnd ++ l.tokens }

/-- Begins a block collection at a column, unless one is open there; its token is put in behind
the given number of tokens. -/
def roll (column position : Nat) (t : Token) (l : Lexer) : Lexer :=
  if l.inFlow || (column : Int) ≤ l.indent then l
  else insert position t { l with indent := column, indents := l.indent :: l.indents }

/-- Passes over blanks, comments and line breaks.  Tabs count as blanks only where no key may
begin. -/
def skipFrom (flow : Bool) : (keyAllowed inComment : Bool) → List Spot → Bool × List Spot
  | keyAllowed, _, [] => (keyAllowed, [])
  | keyAllowed, inComment, s :: rest =>
    let c := s.char
    if isBreak c then skipFrom flow (keyAllowed || !flow) false rest
    else if inComment then skipFrom flow keyAllowed true rest
    else if c == ' ' || (c == '\t' && (flow || !keyAllowed)) then
      skipFrom flow keyAllowed false rest
    else if c == '#' then skipFrom flow keyAllowed true rest
    else (keyAllowed, s :: rest)

/-- The state in front of the next token. -/
def skip (l : Lexer) : Lexer :=
  let (keyAllowed, source) := skipFrom l.inFlow l.keyAllowed false l.source
  { l with keyAllowed, source }

/-! ## Directives, anchors and tags -/

/-- A number of at most nine digits. -/
def versionPart? (source : List Spot) : Option (Nat × List Spot) :=
  let (ds, rest) := spanWhile Char.isDigit source
  if ds.isEmpty || 9 < ds.length then none else some (Text.ofDigits ds, rest)

/-- What follows a given character. -/
def expect? (c : Char) : List Spot → Option (List Spot)
  | s :: rest => if s.char == c then some rest else none
  | [] => none

/-- The characters of which a tag may consist. -/
def isTagChar (verbatim : Bool) (c : Char) : Bool :=
  isWord c || (";/?:@&=+$.!~*'()%".toList.contains c) || (verbatim && [',', '[', ']'].contains c)

/-- The number of bytes of a character that begins with the given byte. -/
def byteCount? (b : Nat) : Option Nat :=
  if b < 0x80 then some 1
  else if b / 0x20 = 6 then some 2
  else if b / 0x10 = 14 then some 3
  else if b / 8 = 30 then some 4
  else none

/-- Replaces escapes by the characters they stand for; `pending` holds the bytes of a character
that are still to come and its value so far. -/
def unescapeFrom (pending : Option (Nat × Nat)) : List Char → Option (List Char)
  | [] => if pending.isNone then some [] else none
  | '%' :: a :: b :: rest => do
    let byte := 16 * (← Text.hexValue? a) + (← Text.hexValue? b)
    match pending with
    | none =>
      let count ← byteCount? byte
      let value := if count = 1 then byte else byte % Nat.pow 2 (7 - count)
      if count = 1 then (unescapeFrom none rest).map (Char.ofNat value :: ·)
      else unescapeFrom (some (count - 1, value)) rest
    | some (left, value) =>
      if byte / 0x40 = 2 then
        let value := 0x40 * value + byte % 0x40
        if left ≤ 1 then (unescapeFrom none rest).map (Char.ofNat value :: ·)
        else unescapeFrom (some (left - 1, value)) rest
      else none
  | c :: rest =>
    if pending.isSome || c == '%' then none
    else (unescapeFrom none rest).map (c :: ·)

/-- The rest of a tag, which may be empty. -/
def tagText? (verbatim : Bool) (source : List Spot) : Option (String × List Spot) :=
  let (cs, rest) := spanWhile (isTagChar verbatim) source
  (unescapeFrom none cs).map fun cs => (String.ofList cs, rest)

/-- A tag, from its exclamation mark. -/
def tag? (source : List Spot) : Option (Token × List Spot) := do
  let behind ← expect? '!' source
  match expect? '<' behind with
  | some inner =>
    let (name, rest) ← tagText? true inner
    let rest ← expect? '>' rest
    if name.isEmpty then none else some (.tag none name, rest)
  | none =>
    let (word, rest) := spanWhile isWord behind
    match expect? '!' rest with
    | some rest =>
      let (suffix, rest) ← tagText? false rest
      if suffix.isEmpty then none
      else some (.tag (some ("!" ++ String.ofList word ++ "!")) suffix, rest)
    | none =>
      let (suffix, rest) ← tagText? false behind
      if suffix.isEmpty then some (.tag none "!", rest) else some (.tag (some "!") suffix, rest)

/-- The handle of a directive, from its exclamation mark. -/
def handle? (source : List Spot) : Option (String × List Spot) := do
  let behind ← expect? '!' source
  let (word, rest) := spanWhile isWord behind
  match expect? '!' rest with
  | some rest => some ("!" ++ String.ofList word ++ "!", rest)
  | none => if word.isEmpty then some ("!", rest) else none

/-- A directive, from behind its percent sign, up to the end of its line. -/
def directive? (source : List Spot) : Option (Token × List Spot) := do
  let (name, rest) := spanWhile isWord source
  if !atGap rest then none
  else
    let (t, rest) ← match String.ofList name with
      | "YAML" => do
        let (major, rest) ← versionPart? (dropSpaces rest)
        let (minor, rest) ← versionPart? (← expect? '.' rest)
        some (Token.version major minor, rest)
      | "TAG" => do
        let (name, rest) ← handle? (dropSpaces rest)
        if !(atGap rest && !rest.isEmpty && !(rest.head?.any (isBreak ·.char))) then none
        else
          let (stem, rest) ← tagText? true (dropSpaces rest)
          if stem.isEmpty || !atGap rest then none else some (Token.handle name stem, rest)
      | _ => none
    let rest := dropSpaces rest
    let rest := if follows '#' rest then dropLine rest else rest
    match rest with
    | [] => some (t, [])
    | s :: rest => if isBreak s.char then some (t, rest) else none

/-- The name of an anchor or alias, from behind its mark. -/
def name? (source : List Spot) : Option (String × List Spot) :=
  let (name, rest) := spanWhile isWord source
  let ends := atGap rest || followsAny ['?', ':', ',', ']', '}', '%', '@', '`'] rest
  if name.isEmpty || !ends then none else some (String.ofList name, rest)

/-! ## One token -/

/-- A document mark or a directive, before which all block collections end. -/
def outer? (t : Token) (source : List Spot) (l : Lexer) : Option Lexer := do
  let l ← (l.unroll (-1)).dropKey?
  pure (emit t { l with keyAllowed := false, source })

/-- An opening bracket. -/
def openFlow? (t : Token) (spot : Spot) (source : List Spot) (l : Lexer) : Option Lexer := do
  let l ← l.noteKey? spot
  pure (emit t { l with keys := none :: l.keys, keyAllowed := true, source })

/-- A closing bracket. -/
def closeFlow? (t : Token) (source : List Spot) (l : Lexer) : Option Lexer := do
  let l ← l.dropKey?
  let keys := if l.inFlow then l.keys.tail else l.keys
  pure (emit t { l with keys, keyAllowed := false, source })

/-- A comma. -/
def flowEntry? (source : List Spot) (l : Lexer) : Option Lexer := do
  let l ← l.dropKey?
  pure (emit .flowEntry { l with keyAllowed := true, source })

/-- Begins a block collection with a mark of its own, which is not allowed everywhere. -/
def rollMarked? (t : Token) (spot : Spot) (l : Lexer) : Option Lexer :=
  if l.inFlow then some l
  else if !l.keyAllowed then none
  else some (l.roll spot.column l.tokens.length t)

/-- A hyphen in front of an item. -/
def blockEntry? (spot : Spot) (source : List Spot) (l : Lexer) : Option Lexer := do
  let l ← (← l.rollMarked? .blockSequence spot).dropKey?
  pure (emit .blockEntry { l with keyAllowed := true, source })

/-- A question mark in front of a key. -/
def key? (spot : Spot) (source : List Spot) (l : Lexer) : Option Lexer := do
  let l ← (← l.rollMarked? .blockMapping spot).dropKey?
  pure (emit .key { l with keyAllowed := !l.inFlow, source })

/-- A colon in front of a value. -/
def value? (spot : Spot) (source : List Spot) (l : Lexer) : Option Lexer := do
  match l.keys.head? with
  | some (some k) =>
    let l := (l.insert k.position .key).roll k.spot.column k.position .blockMapping
    pure (emit .value { l.setKey none with keyAllowed := false, source })
  | _ =>
    let l ← l.rollMarked? .blockMapping spot
    pure (emit .value { l with keyAllowed := !l.inFlow, source })

/-- A token that may begin a key, with what follows it. -/
def node? (spot : Spot) (found : Option (Token × List Spot)) (l : Lexer) : Option Lexer := do
  let l ← l.noteKey? spot
  let (t, source) ← found
  pure (emit t { l with keyAllowed := false, source })

/-- A block scalar, from behind its mark. -/
def block? (folded : Bool) (source : List Spot) (l : Lexer) : Option Lexer := do
  let l ← l.dropKey?
  let (text, source) ← blockScalar? folded l.indent source
  pure (emit (.scalar false text) { l with keyAllowed := true, source })

/-- A plain scalar. -/
def plain? (spot : Spot) (l : Lexer) : Option Lexer := do
  let l ← l.noteKey? spot
  let plain ← plainScalar? ⟨l.inFlow, l.indent + 1⟩ l.source
  pure (emit (.scalar true plain.text) { l with keyAllowed := plain.broken, source := plain.rest })

/-- The marks with which no plain scalar begins. -/
def indicators : List Char :=
  ['-', '?', ':', ',', '[', ']', '{', '}', '#', '&', '*', '!', '|', '>', '\'', '"', '%', '@', '`']

/-- Whether a plain scalar may begin here. -/
def beginsPlain (flow : Bool) (c : Char) (rest : List Spot) : Bool :=
  if isSpace c then false
  else !indicators.contains c || (c == '-' && !(rest.head?.any (isSpace ·.char))) ||
    (!flow && (c == '?' || c == ':') && !atGap rest)

/-- Reads the token that begins with the given character. -/
def fetch? (spot : Spot) (rest : List Spot) (l : Lexer) : Option Lexer :=
  let c := spot.char
  let marked (make : String → Token) : Option (Token × List Spot) :=
    (name? rest).map fun (name, source) => (make name, source)
  let quoted (double : Bool) : Option (Token × List Spot) :=
    (quotedScalar? double rest).map fun (text, source) => (.scalar false text, source)
  if spot.column = 0 && c == '%' then do
    let (t, source) ← directive? rest
    l.outer? t source
  else if atMark '-' (spot :: rest) then l.outer? .documentStart (rest.drop 2)
  else if atMark '.' (spot :: rest) then l.outer? .documentEnd (rest.drop 2)
  else if c == '[' then l.openFlow? .flowSequence spot rest
  else if c == '{' then l.openFlow? .flowMapping spot rest
  else if c == ']' then l.closeFlow? .flowSequenceEnd rest
  else if c == '}' then l.closeFlow? .flowMappingEnd rest
  else if c == ',' then l.flowEntry? rest
  else if c == '-' && atGap rest then l.blockEntry? spot rest
  else if c == '?' && (l.inFlow || atGap rest) then l.key? spot rest
  else if c == ':' && (l.inFlow || atGap rest) then l.value? spot rest
  else if c == '*' then l.node? spot (marked .alias)
  else if c == '&' then l.node? spot (marked .anchor)
  else if c == '!' then
    l.node? spot ((tag? (spot :: rest)).bind fun (t, source) =>
      if atGap source || (l.inFlow && follows ',' source) then some (t, source) else none)
  else if c == '|' && !l.inFlow then l.block? false rest
  else if c == '>' && !l.inFlow then l.block? true rest
  else if c == '\'' then l.node? spot (quoted false)
  else if c == '"' then l.node? spot (quoted true)
  else if beginsPlain l.inFlow c rest then l.plain? spot
  else none

/-- Reads up to `fuel` tokens; every one takes a character of the source. -/
def run? : (fuel : Nat) → Lexer → Option (List Token)
  | 0, _ => none
  | fuel + 1, l =>
    let l := l.skip
    match l.source with
    | [] => ((l.unroll (-1)).dropKey?).map fun l => l.tokens.reverse
    | spot :: rest => do
      let keys ← dropStale? spot l.keys
      let l ← (unroll spot.column { l with keys }).fetch? spot rest
      run? fuel l

end Lexer

/-- The tokens of a document. -/
def Token.ofSource? (source : List Spot) : Option (List Token) :=
  Lexer.run? (source.length + 1) (.ofSource source)

end ProcessTest.Yaml
