import ProcessTest.Text.Digits
import ProcessTest.Toml.Source

/-!
# Quoted texts of TOML

A text stands in double quotes, with escapes, or in single quotes, as it is.  Three quotes of one
kind open and close a text over several lines; one or two quotes count as content there, also right
before the closing three.

* `quoted?` — a text of any kind.
* `quotedKey?` — a text on one line.
-/

set_option autoImplicit false

namespace ProcessTest.Toml

/-- What stands behind the closing quotes of a text over several lines, with the quotes before
them that are content.  The text is read up to three quotes. -/
def closing (quote : Char) : List Char → List Char × List Char
  | a :: b :: rest =>
    if a = quote && b = quote then ([quote, quote], rest)
    else if a = quote then ([quote], b :: rest)
    else ([], a :: b :: rest)
  | [a] => if a = quote then ([quote], []) else ([], [a])
  | [] => ([], [])

/-- What stands behind two more quotes. -/
def twoMore? (quote : Char) : List Char → Option (List Char)
  | a :: b :: rest => if a = quote && b = quote then some rest else none
  | _ => none

/-- The end of a text at a quote: the text and what follows, if the quote closes it. -/
def close? (lines : Bool) (quote : Char) (out rest : List Char) : Option (String × List Char) :=
  if lines then
    (twoMore? quote rest).map fun rest =>
      let (more, rest) := closing quote rest
      (String.ofList (out.reverse ++ more), rest)
  else some (String.ofList out.reverse, rest)

/-- Whether a character may stand in a text. -/
def isTextChar (lines : Bool) (c : Char) : Bool := isContent c || (lines && c == '\n')

/-- A text in single quotes, from behind the opening ones; `out` is its content so far, the last
character first. -/
def literalFrom (lines : Bool) (out : List Char) : Reader String
  | [] => none
  | c :: rest =>
    if c = '\'' then
      match close? lines '\'' out rest with
      | some done => some done
      | none => literalFrom lines (c :: out) rest
    else if isTextChar lines c then literalFrom lines (c :: out) rest
    else none

/-- What the next character of a text with escapes is. -/
inductive EscapeMode where
  | text
  /-- It follows a backslash. -/
  | escape
  /-- It is a hexadecimal digit of a code, with the digits left and the value so far. -/
  | code (left value : Nat)
  /-- It stands between a backslash and the end of its line. -/
  | tail
  /-- It stands among the blanks and line ends behind such a line. -/
  | gap
  deriving DecidableEq

/-- The characters with an escape of one letter. -/
def shortEscapes : List (Char × Char) :=
  [('b', '\x08'), ('t', '\t'), ('n', '\n'), ('f', '\x0c'), ('r', '\r'), ('"', '"'), ('\\', '\\')]

/-- The number of digits of a coded character. -/
def codeLength? (c : Char) : Option Nat :=
  if c = 'u' then some 4 else if c = 'U' then some 8 else none

/-- A text in double quotes, from behind the opening ones; `out` is its content so far, the last
character first. -/
def basicFrom (lines : Bool) (mode : EscapeMode) (out : List Char) : Reader String
  | [] => none
  | c :: rest =>
    match mode with
    | .escape =>
      match shortEscapes.lookup c, codeLength? c with
      | some d, _ => basicFrom lines .text (d :: out) rest
      | none, some length => basicFrom lines (.code length 0) out rest
      | none, none =>
        if lines && c = '\n' then basicFrom lines .gap out rest
        else if lines && isSpace c then basicFrom lines .tail out rest
        else none
    | .code left value =>
      match Text.hexValue? c with
      | none => none
      | some digit =>
        let value := 16 * value + digit
        if left ≤ 1 then
          match Text.charOf? value with
          | some d => basicFrom lines .text (d :: out) rest
          | none => none
        else basicFrom lines (.code (left - 1) value) out rest
    | .tail =>
      if c = '\n' then basicFrom lines .gap out rest
      else if isSpace c then basicFrom lines .tail out rest
      else none
    | mode =>
      if mode = .gap && (isSpace c || c = '\n') then basicFrom lines .gap out rest
      else if c = '\\' then basicFrom lines .escape out rest
      else if c = '"' then
        match close? lines '"' out rest with
        | some done => some done
        | none => basicFrom lines .text (c :: out) rest
      else if isTextChar lines c then basicFrom lines .text (c :: out) rest
      else none

/-- What follows a line end right behind opening quotes. -/
def dropFirstLineEnd : List Char → List Char
  | '\n' :: rest => rest
  | cs => cs

/-- A text on one line in quotes. -/
def quotedKey? : Reader String
  | '"' :: rest => basicFrom false .text [] rest
  | '\'' :: rest => literalFrom false [] rest
  | _ => none

/-- A text in quotes of any kind. -/
def quoted? : Reader String
  | '"' :: '"' :: '"' :: rest => basicFrom true .text [] (dropFirstLineEnd rest)
  | '\'' :: '\'' :: '\'' :: rest => literalFrom true [] (dropFirstLineEnd rest)
  | cs => quotedKey? cs

end ProcessTest.Toml
