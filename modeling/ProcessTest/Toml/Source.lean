/-!
# Source text of TOML

Line ends, blanks and comments.  A line ends with a line feed or with a carriage return and a line
feed; the two are the same to a reader, and no carriage return stands anywhere else.

* `source?` — the characters of a text with line feeds as its only line ends.
* `skipLayout` — what follows blanks, line ends and comments.
* `lineEnd?` — what follows the rest of a line that has no more content.
-/

set_option autoImplicit false

namespace ProcessTest.Toml

/-- Reading from the front of a text yields something and what follows it. -/
abbrev Reader (α : Type) : Type := List Char → Option (α × List Char)

/-- Line ends as line feeds. -/
def lineFeeds? : List Char → Option (List Char)
  | [] => some []
  | '\r' :: '\n' :: rest => (lineFeeds? rest).map ('\n' :: ·)
  | c :: rest => if c = '\r' then none else (lineFeeds? rest).map (c :: ·)

/-- The characters of a text, without a byte order mark in front. -/
def source? (s : String) : Option (List Char) :=
  lineFeeds? (match s.toList with
    | '\ufeff' :: rest => rest
    | cs => cs)

/-- Blanks inside a line. -/
def isSpace (c : Char) : Bool := c == ' ' || c == '\t'

/-- The characters of comments and texts: all but the control characters of ASCII, of which the
tab is allowed. -/
def isContent (c : Char) : Bool := c == '\t' || (0x20 ≤ c.toNat && c.toNat != 0x7F)

/-- What follows blanks inside a line. -/
def skipSpace (cs : List Char) : List Char := cs.dropWhile isSpace

/-- What follows a comment, or the same text where none begins. -/
def skipComment : List Char → List Char
  | '#' :: rest => rest.dropWhile isContent
  | cs => cs

/-- What follows blanks, line ends and comments; `comment` says that one has begun. -/
def skipLayout (comment : Bool) : List Char → List Char
  | [] => []
  | c :: rest =>
    if c = '\n' then skipLayout false rest
    else if comment then if isContent c then skipLayout true rest else c :: rest
    else if isSpace c then skipLayout false rest
    else if c = '#' then skipLayout true rest
    else c :: rest

/-- What follows on the next line, if this line holds nothing more but a comment. -/
def lineEnd? (cs : List Char) : Option (List Char) :=
  match skipComment (skipSpace cs) with
  | [] => some []
  | '\n' :: rest => some rest
  | _ => none

end ProcessTest.Toml
