import ProcessTest.Text.Digits
import ProcessTest.Yaml.Source

/-!
# Scalars of YAML as they are written

Each reader takes one character at a time and yields the content of a scalar and what follows it.
Between two words a line break folds to a blank, and further breaks stay breaks.

* `plainScalar?` — scalars without quotes.
* `quotedScalar?` — scalars in single or double quotes.
* `blockScalar?` — literal and folded blocks.
-/

set_option autoImplicit false

namespace ProcessTest.Yaml

/-! ## Gaps between words -/

/-- Blanks and line breaks between two words. -/
structure Gap where
  /-- Blanks on the first line, the last one first. -/
  spaces : List Char
  /-- A line has ended. -/
  broken : Bool
  /-- The first line break, unless it was escaped. -/
  first : List Char
  /-- Further line breaks, the last one first. -/
  more : List Char

namespace Gap

/-- No gap. -/
def none : Gap := ⟨[], false, [], []⟩

/-- Whether there is a gap. -/
def isEmpty (g : Gap) : Bool := g.spaces.isEmpty && !g.broken

/-- The gap with one more blank; behind a line break blanks do not count. -/
def space (g : Gap) (c : Char) : Gap :=
  if g.broken then g else { g with spaces := c :: g.spaces }

/-- The gap with one more line break; blanks before the first one do not count. -/
def lineBreak (g : Gap) (c : Char) : Gap :=
  if g.broken then { g with more := c :: g.more } else ⟨[], true, [c], []⟩

/-- What a gap adds to the content, the last character first. -/
def content (g : Gap) : List Char :=
  if g.broken then
    if g.first = ['\n'] then if g.more.isEmpty then [' '] else g.more
    else g.more ++ g.first
  else g.spaces

end Gap

/-! ## Plain scalars -/

/-- The marks that end a plain scalar inside brackets. -/
def flowMarks : List Char := [',', '[', ']', '{', '}']

/-- Where a plain scalar stands. -/
structure PlainPlace where
  /-- Inside brackets. -/
  flow : Bool
  /-- The least column of a further line. -/
  indent : Int

/-- What a plain scalar comes to: its content, whether it goes over lines, and what follows. -/
structure Plain where
  text : String
  broken : Bool
  rest : List Spot

/-- The walk of `plainScalar?`; `out` is the content so far, the last character first. -/
def plainFrom (place : PlainPlace) (out : List Char) (gap : Gap) : List Spot → Option Plain
  | [] => some ⟨String.ofList out.reverse, gap.broken, []⟩
  | s :: rest =>
    let c := s.char
    let stop : Option Plain := some ⟨String.ofList out.reverse, gap.broken, s :: rest⟩
    if isBreak c then plainFrom place out (gap.lineBreak c) rest
    else if isSpace c then
      if gap.broken && s.column < place.indent && c == '\t' then none
      else plainFrom place out (gap.space c) rest
    else if !gap.isEmpty && !place.flow && s.column < place.indent then stop
    else if atDocumentMark (s :: rest) || (!gap.isEmpty && c == '#') then stop
    else if place.flow && c == ':' && followsAny ('?' :: flowMarks) rest then none
    else if (c == ':' && atGap rest) || (place.flow && flowMarks.contains c) then stop
    else plainFrom place (c :: (gap.content ++ out)) Gap.none rest

/-- A scalar without quotes. -/
def plainScalar? (place : PlainPlace) (source : List Spot) : Option Plain :=
  plainFrom place [] Gap.none source

/-! ## Quoted scalars -/

/-- What the next character of a quoted scalar is. -/
inductive QuotedMode where
  | text
  /-- It follows a backslash. -/
  | escape
  /-- It is a hexadecimal digit of a code, with the digits left and the value so far. -/
  | code (left value : Nat)
  /-- It follows a single quote. -/
  | quote

/-- The characters with an escape of one letter. -/
def shortEscapes : List (Char × Char) :=
  [('0', '\x00'), ('a', '\x07'), ('b', '\x08'), ('t', '\t'), ('\t', '\t'), ('n', '\n'),
   ('v', '\x0b'), ('f', '\x0c'), ('r', '\r'), ('e', '\x1b'), (' ', ' '), ('"', '"'), ('/', '/'),
   ('\\', '\\'), ('N', '\x85'), ('_', '\xa0'), ('L', '\u2028'), ('P', '\u2029')]

/-- The number of digits of a coded character. -/
def codeLength? (c : Char) : Option Nat :=
  if c = 'x' then some 2 else if c = 'u' then some 4 else if c = 'U' then some 8 else none

/-- The walk of `quotedScalar?` behind the opening quote. -/
def quotedFrom (double : Bool) (mode : QuotedMode) (out : List Char) (gap : Gap) :
    List Spot → Option (String × List Spot)
  | [] => match mode with
    | .quote => some (String.ofList out.reverse, [])
    | _ => none
  | s :: rest =>
    let c := s.char
    match mode with
    | .escape =>
      if isBreak c then quotedFrom double .text out ⟨[], true, [], []⟩ rest
      else match shortEscapes.lookup c, codeLength? c with
        | some d, _ => quotedFrom double .text (d :: out) Gap.none rest
        | none, some length => quotedFrom double (.code length 0) out Gap.none rest
        | none, none => none
    | .code left value =>
      match Text.hexValue? c with
      | none => none
      | some digit =>
        let value := 16 * value + digit
        if left ≤ 1 then
          match Text.charOf? value with
          | some d => quotedFrom double .text (d :: out) Gap.none rest
          | none => none
        else quotedFrom double (.code (left - 1) value) out Gap.none rest
    | .quote =>
      if c == '\'' then quotedFrom double .text ('\'' :: out) Gap.none rest
      else some (String.ofList out.reverse, s :: rest)
    | .text =>
      if isBreak c then quotedFrom double .text out (gap.lineBreak c) rest
      else if isSpace c then quotedFrom double .text out (gap.space c) rest
      else if atDocumentMark (s :: rest) then none
      else
        let out := gap.content ++ out
        if double then
          if c == '"' then some (String.ofList out.reverse, rest)
          else if c == '\\' then quotedFrom double .escape out Gap.none rest
          else quotedFrom double .text (c :: out) Gap.none rest
        else if c == '\'' then quotedFrom double .quote out Gap.none rest
        else quotedFrom double .text (c :: out) Gap.none rest

/-- A scalar in quotes, from behind the opening quote. -/
def quotedScalar? (double : Bool) (source : List Spot) : Option (String × List Spot) :=
  quotedFrom double .text [] Gap.none source

/-! ## Block scalars -/

/-- What happens to the line breaks at the end of a block. -/
inductive Chomping where
  | strip
  | clip
  | keep
  deriving DecidableEq

/-- The header of a block scalar. -/
structure BlockHeader where
  chomping : Chomping
  /-- The number of columns by which the block is indented, if it is given. -/
  increment : Option Nat

/-- Reads a header behind its mark, up to the first line of the block. -/
def blockHeader? (source : List Spot) : Option (BlockHeader × List Spot) :=
  let chomping : List Spot → Option Chomping × List Spot
    | s :: rest =>
      if s.char == '+' then (some .keep, rest)
      else if s.char == '-' then (some .strip, rest)
      else (none, s :: rest)
    | [] => (none, [])
  let increment : List Spot → Option Nat × List Spot
    | s :: rest =>
      if s.char.isDigit then (some (Text.digitValue s.char), rest) else (none, s :: rest)
    | [] => (none, [])
  let (before, source) := chomping source
  let (number, source) := increment source
  let (behind, source) := match before, number with
    | none, some _ => chomping source
    | _, _ => (none, source)
  if number = some 0 then none
  else
    let source := dropSpaces source
    let source := if follows '#' source then dropLine source else source
    let header : BlockHeader := ⟨(before.or behind).getD .clip, number⟩
    match source with
    | [] => some (header, [])
    | s :: rest => if isBreak s.char then some (header, rest) else none

/-- The lines of a block read so far. -/
structure Block where
  /-- The content, the last character first. -/
  out : List Char
  /-- The column of the block, once it is known. -/
  indent : Option Nat
  /-- The farthest column at which blanks have ended while it was unknown. -/
  farthest : Nat
  /-- The line break behind the last line with content. -/
  first : List Char
  /-- Line breaks of the empty lines behind it, the last one first. -/
  more : List Char
  /-- The last line with content begins with a blank. -/
  blankLead : Bool

/-- The block with the breaks before a new line with content. -/
def Block.join (b : Block) (folded blankLead : Bool) : Block :=
  let out :=
    if folded && b.first = ['\n'] && !b.blankLead && !blankLead then
      if b.more.isEmpty then ' ' :: b.out else b.more ++ b.out
    else b.more ++ b.first ++ b.out
  { b with out, first := [], more := [], blankLead }

/-- The content of a finished block. -/
def Block.content (b : Block) (chomping : Chomping) : String :=
  String.ofList (match chomping with
    | .strip => b.out
    | .clip => b.first ++ b.out
    | .keep => b.more ++ b.first ++ b.out).reverse

/-- The walk of `blockScalar?`: `inLine` says whether the next character belongs to the content of
a line or to the margin before it; `least` is the least column of a block. -/
def blockFrom (folded : Bool) (chomping : Chomping) (least : Nat) (inLine : Bool) (b : Block) :
    List Spot → Option (String × List Spot)
  | [] => some (b.content chomping, [])
  | s :: rest =>
    let c := s.char
    if inLine then
      if isBreak c then blockFrom folded chomping least false { b with first := [c] } rest
      else blockFrom folded chomping least true { b with out := c :: b.out } rest
    else
      let inMargin := match b.indent with
        | some indent => s.column < indent
        | none => true
      if inMargin && c == ' ' then blockFrom folded chomping least false b rest
      else
        let b := { b with farthest := max b.farthest s.column }
        if inMargin && c == '\t' then none
        else if isBreak c then
          blockFrom folded chomping least false { b with more := c :: b.more } rest
        else
          let indent := b.indent.getD (max b.farthest least)
          let b := { b with indent := some indent }
          if s.column = indent then
            let b := b.join folded (isSpace c)
            blockFrom folded chomping least true { b with out := c :: b.out } rest
          else some (b.content chomping, s :: rest)

/-- A block scalar, from behind its mark; `indent` is the column of what encloses it. -/
def blockScalar? (folded : Bool) (indent : Int) (source : List Spot) :
    Option (String × List Spot) := do
  let (header, source) ← blockHeader? source
  let column := header.increment.map fun n => (max indent 0).toNat + n
  blockFrom folded header.chomping (max (indent + 1) 1).toNat false
    ⟨[], column, 0, [], [], false⟩ source

end ProcessTest.Yaml
