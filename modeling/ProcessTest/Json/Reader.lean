import ProcessTest.Value
import ProcessTest.Text.Digits

/-!
# Reading JSON

A machine that takes one character at a time.  Its state is the lexeme under way and the stack
of the lists and maps that are open, so nesting needs no recursion and the limit on it is a
bound on the stack.

* `Json.Number.read?` — the number of a lexeme, by the grammar of JSON.
* `Json.read?` — the value of a whole text.
* `Json.readWithRepeats?` — the same, with the keys that its outermost map repeats.

Of two entries with one key the later value counts, at the place of the earlier key.
-/

set_option autoImplicit false

namespace ProcessTest.Json

/-! ## Numbers -/

/-- A decimal significand kept below `2^64`: `significand · 10^exponent` is what is left of the
digits read so far, and `full` says that the next digit would not have fitted. -/
structure Significand where
  significand : Nat
  exponent : Int
  full : Bool

/-- Takes one more digit; `fraction` says on which side of the point it stands.  Once a digit
does not fit, later digits before the point only raise the exponent and those behind it are
dropped. -/
def Significand.push (fraction : Bool) (s : Significand) (c : Char) : Significand :=
  let next := 10 * s.significand + Text.digitValue c
  if s.full || Text.maxWord < next then
    ⟨s.significand, if fraction then s.exponent else s.exponent + 1, true⟩
  else ⟨next, if fraction then s.exponent - 1 else s.exponent, false⟩

/-- Reads the digits on one side of the point. -/
def Significand.digits (fraction : Bool) (s : Significand) (ds : List Char) : Significand :=
  ds.foldl (push fraction) { s with full := s.full && !fraction }

/-- The parts of a number lexeme. -/
structure Numeral where
  negative : Bool
  whole : List Char
  fraction : Option (List Char)
  exponent : Option (Bool × List Char)

/-- The exponent part of a lexeme. -/
def Numeral.exponent? : List Char → Option (Option (Bool × List Char))
  | [] => some none
  | c :: rest =>
    if c = 'e' || c = 'E' then
      let (negative, ds) := match rest with
        | '-' :: ds => (true, ds)
        | '+' :: ds => (false, ds)
        | ds => (false, ds)
      if ds.isEmpty || !ds.all Char.isDigit then none else some (some (negative, ds))
    else none

/-- Splits a lexeme by the grammar: no leading zeros, digits on both sides of a point. -/
def Numeral.read? (cs : List Char) : Option Numeral :=
  let (negative, cs) := match cs with
    | '-' :: rest => (true, rest)
    | _ => (false, cs)
  let whole := cs.takeWhile Char.isDigit
  let rest := cs.dropWhile Char.isDigit
  if whole.isEmpty || (whole.length != 1 && whole.head? == some '0') then none
  else match rest with
    | '.' :: rest =>
      let fraction := rest.takeWhile Char.isDigit
      if fraction.isEmpty then none
      else
        (exponent? (rest.dropWhile Char.isDigit)).map fun e => ⟨negative, whole, some fraction, e⟩
    | _ => (exponent? rest).map fun e => ⟨negative, whole, none, e⟩

/-- The number of a lexeme.  Whole numbers of 64 bits stay whole; all others become doubles, and
so does minus zero. -/
def Numeral.number? (n : Numeral) : Option Number :=
  let size := Text.ofDigits n.whole
  let isInt := n.fraction.isNone && n.exponent.isNone
  if isInt && !n.negative && size ≤ Text.maxWord then some (.int size)
  else if isInt && n.negative && 0 < size && size ≤ Nat.pow 2 63 then some (.int (-(size : Int)))
  else
    let s := (⟨0, 0, false⟩ : Significand).digits false n.whole
    let s := match n.fraction with
      | some ds => s.digits true ds
      | none => s
    match n.exponent with
    | none => (Binary64.scaled n.negative s.significand s.exponent).map .double
    | some (negative, ds) =>
      let e := Text.ofDigits ds
      if Nat.pow 2 31 ≤ e then
        if s.significand = 0 || negative then (Binary64.scaled n.negative 0 0).map .double else none
      else (Binary64.scaled n.negative s.significand
        (if negative then s.exponent - e else s.exponent + e)).map .double

/-! ## The machine -/

/-- A list or map that is still open; items are held last first. -/
inductive Frame where
  | list (items : List Value)
  | map (entries : Entries) (key : Option String)

/-- What may come next where no lexeme is under way. -/
inductive Expect where
  /-- A value. -/
  | value
  /-- A value or the end of the list that has just been opened. -/
  | valueOrEnd
  /-- A key. -/
  | key
  /-- A key or the end of the map that has just been opened. -/
  | keyOrEnd
  /-- The colon behind a key. -/
  | colon
  /-- A comma or the end of the innermost list or map; blanks only when none is open. -/
  | more
  deriving DecidableEq

/-- The lexeme under way; characters are held last first. -/
inductive Lexeme where
  | none
  | word (cs : List Char)
  | text (cs : List Char)
  | escape (cs : List Char)
  /-- Digits still missing of an escape by code unit, and a high surrogate read before it. -/
  | unit (cs : List Char) (missing : Nat) (code : Nat) (high : Option Nat)
  /-- Behind a high surrogate: the backslash, then the `u`. -/
  | low (cs : List Char) (high : Nat) (slash : Bool)

/-- State of the machine. -/
structure Machine where
  lexeme : Lexeme
  expect : Expect
  frames : List Frame
  /-- The finished value of the whole text. -/
  result : Option Value
  /-- The keys that the outermost map has had more than once. -/
  repeated : List String

/-- Where a text begins. -/
def Machine.start : Machine := ⟨.none, .value, [], .none, []⟩

/-- The most lists and maps that may be open at once. -/
def maxDepth : Nat := 127

/-- Blanks of JSON. -/
def isSpace (c : Char) : Bool := c == ' ' || c == '\n' || c == '\t' || c == '\r'

/-- Puts a finished value where it belongs. -/
def Machine.accept (m : Machine) (v : Value) : Option Machine :=
  match m.expect with
  | .value | .valueOrEnd =>
    match m.frames with
    | [] => some { m with lexeme := .none, expect := .more, result := some v }
    | .list items :: rest =>
      some { m with lexeme := .none, expect := .more, frames := .list (v :: items) :: rest }
    | .map entries (some key) :: rest =>
      some { m with lexeme := .none, expect := .more,
                    frames := .map (Entries.put key v entries) .none :: rest,
                    repeated := if rest.isEmpty && (Entries.get? key entries).isSome
                      then key :: m.repeated else m.repeated }
    | .map _ .none :: _ => none
  | .key | .keyOrEnd =>
    match v, m.frames with
    | .text key, .map entries .none :: rest =>
      some { m with lexeme := .none, expect := .colon, frames := .map entries (some key) :: rest }
    | _, _ => none
  | .colon | .more => none

/-- The value of a word. -/
def word? (cs : List Char) : Option Value :=
  if cs = "true".toList then some (.bool true)
  else if cs = "false".toList then some (.bool false)
  else if cs = "null".toList then some .null
  else ((Numeral.read? cs).bind Numeral.number?).map .number

/-- Whether a value may begin here. -/
def Machine.wantsValue (m : Machine) : Bool :=
  m.expect == .value || m.expect == .valueOrEnd

/-- Closes the innermost list or map. -/
def Machine.close (m : Machine) (bracket : Char) : Option Machine :=
  match m.frames with
  | .list items :: rest =>
    if bracket = ']' && (m.expect == .more || m.expect == .valueOrEnd) then
      Machine.accept { m with frames := rest, expect := .value } (.list items.reverse)
    else none
  | .map entries _ :: rest =>
    if bracket = '}' && (m.expect == .more || m.expect == .keyOrEnd) then
      Machine.accept { m with frames := rest, expect := .value } (.map entries)
    else none
  | [] => none

/-- A character outside lexemes. -/
def Machine.mark (m : Machine) (c : Char) : Option Machine :=
  if isSpace c then some m
  else if c = '"' then
    if m.wantsValue || m.expect == .key || m.expect == .keyOrEnd then
      some { m with lexeme := .text [] }
    else none
  else if c = '[' then
    if m.wantsValue && m.frames.length < maxDepth then
      some { m with expect := .valueOrEnd, frames := .list [] :: m.frames }
    else none
  else if c = '{' then
    if m.wantsValue && m.frames.length < maxDepth then
      some { m with expect := .keyOrEnd, frames := .map [] .none :: m.frames }
    else none
  else if c = ']' || c = '}' then m.close c
  else if c = ',' then
    match m.expect, m.frames with
    | .more, .list _ :: _ => some { m with expect := .value }
    | .more, .map _ _ :: _ => some { m with expect := .key }
    | _, _ => none
  else if c = ':' then
    if m.expect == .colon then some { m with expect := .value } else none
  else if m.wantsValue then some { m with lexeme := .word [c] }
  else none

/-- Whether a character ends a word. -/
def endsWord (c : Char) : Bool :=
  isSpace c || c == ',' || c == ':' || c == '[' || c == ']' || c == '{' || c == '}' || c == '"'

/-- The character of a short escape. -/
def shortEscape? (c : Char) : Option Char :=
  if c = '"' || c = '\\' || c = '/' then some c
  else if c = 'b' then some '\x08'
  else if c = 'f' then some '\x0c'
  else if c = 'n' then some '\n'
  else if c = 'r' then some '\r'
  else if c = 't' then some '\t'
  else none

/-- What a finished code unit means inside a text: a character, the first half of one, or
nothing that text may hold. -/
def unit? (cs : List Char) (code : Nat) : Option Nat → Option Lexeme
  | some high =>
    if 0xDC00 ≤ code && code ≤ 0xDFFF then
      some (.text (Char.ofNat (0x10000 + (high - 0xD800) * 0x400 + (code - 0xDC00)) :: cs))
    else none
  | .none =>
    if 0xD800 ≤ code && code ≤ 0xDBFF then some (.low cs code false)
    else if 0xDC00 ≤ code && code ≤ 0xDFFF then none
    else some (.text (Char.ofNat code :: cs))

/-- One step of the machine. -/
def Machine.step (m : Machine) (c : Char) : Option Machine :=
  match m.lexeme with
  | .none => m.mark c
  | .word cs =>
    if endsWord c then do
      let v ← word? cs.reverse
      (← m.accept v).mark c
    else some { m with lexeme := .word (c :: cs) }
  | .text cs =>
    if c = '"' then m.accept (.text (String.ofList cs.reverse))
    else if c = '\\' then some { m with lexeme := .escape cs }
    else if c.toNat < 0x20 then none
    else some { m with lexeme := .text (c :: cs) }
  | .escape cs =>
    if c = 'u' then some { m with lexeme := .unit cs 4 0 .none }
    else (shortEscape? c).map fun d => { m with lexeme := .text (d :: cs) }
  | .unit cs missing code high => do
    let code := 16 * code + (← Text.hexValue? c)
    if missing ≤ 1 then pure { m with lexeme := ← unit? cs code high }
    else pure { m with lexeme := .unit cs (missing - 1) code high }
  | .low cs high slash =>
    if !slash && c = '\\' then some { m with lexeme := .low cs high true }
    else if slash && c = 'u' then some { m with lexeme := .unit cs 4 0 (some high) }
    else none

/-- Runs the machine over characters. -/
def Machine.feed : Machine → List Char → Option Machine
  | m, [] => some m
  | m, c :: cs => (m.step c).bind fun m => m.feed cs

/-- The machine at the end of the text: a blank ends a word that reaches to the end. -/
def Machine.finish (m : Machine) : Option Machine := m.step ' '

/-- The finished value, if no lexeme is under way and nothing is open. -/
def Machine.value? (m : Machine) : Option Value :=
  match m.lexeme, m.frames with
  | .none, [] => m.result
  | _, _ => none

/-- The value of a text, and the keys that its outermost map has more than once. -/
def readWithRepeats? (s : String) : Option (Value × List String) := do
  let m ← (← Machine.start.feed s.toList).finish
  (m.value?).map (·, m.repeated)

/-- The value of a text. -/
def read? (s : String) : Option Value := (readWithRepeats? s).map Prod.fst

end ProcessTest.Json
