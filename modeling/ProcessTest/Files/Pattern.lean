import ProcessTest.Files.Path
import ProcessTest.Files.System

/-!
# File patterns

A pattern is a path whose segments may have wild cards: `?` for one character, `*` for any text, and
a set of characters in brackets, negated by `!`.  A segment `**` stands for any number of
directories.

* `Wildcard.read?`, `Wildcard.matchesAll` — the wild cards of a segment, and the names they match.
* `Pattern.search` — the paths that match a pattern: each directory before what it holds, and the
  names of a directory in order.
-/

set_option autoImplicit false

namespace ProcessTest

/-- Some characters of a set: those between two characters, both included. -/
structure CharRange where
  first : Char
  last : Char
  deriving DecidableEq

/-- A part of a segment of a pattern. -/
inductive Wildcard where
  | char (c : Char)
  | anyChar
  | anyText
  /-- One character in a set, or one outside it. -/
  | charIn (inside : Bool) (set : List CharRange)
  deriving DecidableEq

namespace Wildcard

/-- The characters between brackets as a set. -/
def ranges : List Char → List CharRange
  | a :: '-' :: b :: rest => ⟨a, b⟩ :: ranges rest
  | a :: rest => ⟨a, a⟩ :: ranges rest
  | [] => []

/-- Whether a character is in a set. -/
def isIn (set : List CharRange) (c : Char) : Bool := set.any fun r => r.first ≤ c && c ≤ r.last

/-- What is read of brackets. -/
inductive Bracket where
  /-- None is open. -/
  | closed
  /-- One has just been opened. -/
  | opened
  /-- Its set follows; the first character of a set is no closing bracket. -/
  | start (inside : Bool)
  /-- The characters of its set so far, the last one first. -/
  | set (inside : Bool) (chars : List Char)

/-- The parts of a segment; none where a bracket stays open. -/
def readFrom : Bracket → List Char → Option (List Wildcard)
  | .closed, [] => some []
  | _, [] => none
  | .closed, c :: rest =>
    if c = '?' then (readFrom .closed rest).map (.anyChar :: ·)
    else if c = '*' then (readFrom .closed rest).map (.anyText :: ·)
    else if c = '[' then readFrom .opened rest
    else (readFrom .closed rest).map (.char c :: ·)
  | .opened, c :: rest =>
    if c = '!' then readFrom (.start false) rest else readFrom (.set true [c]) rest
  | .start inside, c :: rest => readFrom (.set inside [c]) rest
  | .set inside chars, c :: rest =>
    if c = ']' then
      (readFrom .closed rest).map (.charIn inside (ranges chars.reverse) :: ·)
    else readFrom (.set inside (c :: chars)) rest

/-- Whether two wild cards `*` follow each other outside brackets. -/
def hasDoubleStar : List Wildcard → Bool
  | .anyText :: .anyText :: _ => true
  | _ :: rest => hasDoubleStar rest
  | [] => false

/-- The parts of a segment other than `**`. -/
def read? (segment : List Char) : Option (List Wildcard) :=
  (readFrom .closed segment).filter (!hasDoubleStar ·)

/-- The character of a part that is no wild card. -/
def char? : Wildcard → Option Char
  | .char c => some c
  | _ => none

/-- Whether a character is one that a wild card for one character stands for. -/
def allows (c : Char) : Wildcard → Bool
  | .char d => c == d
  | .anyChar => true
  | .anyText => false
  | .charIn inside set => isIn set c == inside

/-- Whether some end of a name has a property. -/
def someEnd (p : List Char → Bool) : List Char → Bool
  | [] => p []
  | c :: rest => p (c :: rest) || someEnd p rest

/-- Whether wild cards match a whole name. -/
def matchesAll : List Wildcard → List Char → Bool
  | [], name => name.isEmpty
  | .anyText :: ws, name => someEnd (matchesAll ws) name
  | w :: ws, c :: name => w.allows c && matchesAll ws name
  | _ :: _, [] => false

end Wildcard

/-- A segment of a pattern. -/
inductive PatternSegment where
  /-- Any number of directories. -/
  | anyDepth
  | names (ws : List Wildcard)
  deriving DecidableEq

namespace PatternSegment

/-- The segment of a text. -/
def read? (segment : List Char) : Option PatternSegment :=
  if segment = ['*', '*'] then some .anyDepth else (Wildcard.read? segment).map .names

/-- The only name that a segment without wild cards matches. -/
def literal? : PatternSegment → Option String
  | .anyDepth => none
  | .names ws => (ws.mapM Wildcard.char?).map String.ofList

/-- Whether a segment matches a name. -/
def accepts (name : String) : PatternSegment → Bool
  | .anyDepth => true
  | .names ws => Wildcard.matchesAll ws name.toList

/-- Whether a segment begins with a point. -/
def hasPoint : PatternSegment → Bool
  | .names (.char '.' :: _) => true
  | _ => false

end PatternSegment

/-- A pattern of paths. -/
structure Pattern where
  /-- Where the search begins. -/
  origin : String
  segments : List PatternSegment
  /-- Only directories match. -/
  directories : Bool
  deriving DecidableEq

namespace Pattern

/-- Whether a path is to be read as a pattern. -/
def isPattern (path : String) : Bool := path.toList.any fun c => c == '*' || c == '?' || c == '['

/-- The pattern of a text. -/
def read? (text : String) : Option Pattern :=
  let pieces := Text.splitAt '/' (text.toList.dropWhile (· == '/'))
  let slash := pieces.getLast? = some []
  let pieces := if slash then pieces.dropLast else pieces
  (pieces.mapM PatternSegment.read?).map fun segments =>
    ⟨if Path.isAbsolute text then "/" else ".", segments, slash⟩

section Search

variable {m : Type → Type} [Monad m]

/-- The path of a name in a directory; the working directory does not show. -/
def below (directory name : String) : String :=
  let here := !Path.isAbsolute directory && (Path.steps directory).all (· = ".")
  if here then name else Path.join directory name

/-- A match, unless it is no directory and has to be one. -/
def found (fs : FileSystem m) (p : Pattern) (path : String) : m (List String) := do
  if !p.directories || (← fs.isDirectory path) then pure [path] else pure []

mutual

/-- The matches below a directory, or one of its names, for the segments that are left; at most
`fuel` segments and directories are followed. -/
def searchIn (fs : FileSystem m) (p : Pattern) :
    Nat → List PatternSegment → String → m (List String)
  | 0, _, _ => pure []
  | _, [], path => found fs p path
  | fuel + 1, segment :: rest, path => do
    match segment.literal? with
    | some name =>
      let next := below path name
      let special := name = "." || name = ".."
      let there ← if special then fs.isDirectory path else fs.holds next
      if there then searchIn fs p fuel rest next else pure []
    | none =>
      if ← fs.isDirectory path then
        let special := if segment.hasPoint then ["..", "."].filter (segment.accepts ·) else []
        let first ← special.mapM fun name => searchIn fs p fuel rest (Path.join path name)
        let names := (← fs.names path).mergeSort fun a b => decide (a ≤ b)
        let others ← names.mapM fun name =>
          searchAt fs p fuel (segment :: rest) name (below path name)
        pure (first ++ others).flatten
      else pure []

/-- The matches at a path of the given name and below it, for the segments that are left. -/
def searchAt (fs : FileSystem m) (p : Pattern) :
    Nat → List PatternSegment → String → String → m (List String)
  | 0, _, _, _ => pure []
  | _, [], _, path => found fs p path
  | fuel + 1, .anyDepth :: rest, name, path => do
    let rest := rest.dropWhile (· = .anyDepth)
    let inside ← if ← fs.isDirectory path then searchIn fs p fuel (.anyDepth :: rest) path
      else pure []
    let here ← match rest with
      | [] => if ← fs.isDirectory path then pure [path] else pure []
      | segment :: more =>
        if !segment.accepts name then pure []
        else if more.isEmpty then found fs p path
        else searchIn fs p fuel more path
    pure (here ++ inside)
  | fuel + 1, segment :: rest, name, path =>
    if !segment.accepts name then pure []
    else if rest.isEmpty then found fs p path
    else searchIn fs p fuel rest path

end

/-- The most segments of a path: a path has at most 4096 bytes. -/
def maxSegments : Nat := 2048

/-- The paths that match a pattern, in order. -/
def search (fs : FileSystem m) (p : Pattern) : m (List String) :=
  if p.segments.isEmpty then pure []
  else searchIn fs p (2 * maxSegments + p.segments.length) p.segments p.origin

end Search

end Pattern

end ProcessTest
