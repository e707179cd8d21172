import ProcessTest.Calendar
import ProcessTest.Text.Digits

/-!
# Clock texts

An instant as RFC 3339 writes it: a date and a time of day of the years 0000 to 9999 at a
distance from universal time.

* `Clock.read?` — the instant of a text.
* `Clock.shift?` — the instant a number of seconds later, as long as its year stays in range.
* `Clock.text` — the text of an instant, without trailing zeros in the fraction.
-/

set_option autoImplicit false

namespace ProcessTest

/-- An instant with the offset at which it is written. -/
structure Clock where
  /-- Seconds of local time since the first of January of the year 0. -/
  seconds : Nat
  nanoseconds : Nat
  /-- Minutes that local time is ahead of universal time. -/
  offset : Int
  deriving DecidableEq, Repr

namespace Clock

/-- The seconds of a day. -/
def daySeconds : Nat := 86400

/-- The first second behind the year 9999. -/
def endSeconds : Nat := Calendar.daysBefore 10000 * daySeconds

/-- Exactly `n` digits in front, as a number. -/
def take? (n : Nat) (cs : List Char) : Option (Nat × List Char) :=
  let ds := cs.take n
  if ds.length = n && ds.all Char.isDigit then some (Text.ofDigits ds, cs.drop n) else none

/-- One given character in front. -/
def skip? (c : Char) : List Char → Option (List Char)
  | d :: rest => if d = c then some rest else none
  | [] => none

/-- A fraction of a second in nanoseconds; digits behind the ninth do not count. -/
def fraction? : List Char → Option (Nat × List Char)
  | '.' :: rest =>
    let ds := rest.takeWhile Char.isDigit
    if ds.isEmpty then none
    else
      let nine := ds.take 9 ++ List.replicate (9 - ds.length) '0'
      some (Text.ofDigits nine, rest.dropWhile Char.isDigit)
  | cs => some (0, cs)

/-- The distance from universal time in minutes. -/
def offset? : List Char → Option (Int × List Char)
  | 'Z' :: rest | 'z' :: rest => some (0, rest)
  | sign :: rest => do
    let ahead ← if sign = '+' then some true else if sign = '-' then some false else none
    let (hours, rest) ← take? 2 rest
    let (minutes, rest) ← take? 2 (← skip? ':' rest)
    if hours ≤ 23 && minutes ≤ 59 then
      let n : Int := 60 * hours + minutes
      pure (if ahead then n else -n, rest)
    else none
  | [] => none

/-- Whether universal time then stands in the last second of a month. -/
def endsMonthInUtc (c : Clock) : Bool :=
  let utc : Int := c.seconds - 60 * c.offset
  utc % daySeconds == daySeconds - 1 && utc < endSeconds && -(daySeconds : Int) ≤ utc &&
    -- The day before the first of January of the year 0 ends a month, too.
    (utc < 0 || Calendar.endsMonth (utc / daySeconds).toNat)

/-- The instant of a text.  One ASCII character of any kind separates date and time.  A leap
second stands only at the end of a month of universal time, and counts as the last nanosecond
before the month's end. -/
def read? (s : String) : Option Clock := do
  let (year, cs) ← take? 4 s.toList
  let (month, cs) ← take? 2 (← skip? '-' cs)
  let (day, cs) ← take? 2 (← skip? '-' cs)
  let cs ← match cs with
    | separator :: rest => if separator.toNat < 128 then some rest else none
    | [] => none
  let (hour, cs) ← take? 2 cs
  let (minute, cs) ← take? 2 (← skip? ':' cs)
  let (second, cs) ← take? 2 (← skip? ':' cs)
  let (nanoseconds, cs) ← fraction? cs
  let (offset, cs) ← offset? cs
  let days ← (⟨year, month, day⟩ : Calendar.Date).day?
  let leap := second == 60
  if !cs.isEmpty || 23 < hour || 59 < minute || 60 < second then none
  else
    let clock : Clock :=
      { seconds := days * daySeconds + 3600 * hour + 60 * minute + (if leap then 59 else second),
        nanoseconds := if leap then 999999999 else nanoseconds,
        offset }
    if leap && !clock.endsMonthInUtc then none else some clock

/-- The instant a number of seconds later at the same offset; none outside the years 0000 to
9999. -/
def later? (c : Clock) (seconds : Int) : Option Clock :=
  let t : Int := c.seconds + seconds
  if 0 ≤ t && t < endSeconds then some { c with seconds := t.toNat } else none

/-- The digits of a fraction, without trailing zeros. -/
def fractionText (nanoseconds : Nat) : String :=
  if nanoseconds = 0 then ""
  else
    let ds := (Text.padded 9 nanoseconds).toList
    "." ++ String.ofList (ds.reverse.dropWhile (· == '0')).reverse

/-- The text of an offset. -/
def offsetText (offset : Int) : String :=
  if offset = 0 then "Z"
  else
    let n := offset.natAbs
    (if offset < 0 then "-" else "+") ++ Text.padded 2 (n / 60) ++ ":" ++ Text.padded 2 (n % 60)

/-- The text of an instant. -/
def text (c : Clock) : String :=
  let date := Calendar.Date.ofDay (c.seconds / daySeconds)
  let time := c.seconds % daySeconds
  Text.padded 4 date.year ++ "-" ++ Text.padded 2 date.month ++ "-" ++ Text.padded 2 date.day ++
    "T" ++ Text.padded 2 (time / 3600) ++ ":" ++ Text.padded 2 (time / 60 % 60) ++ ":" ++
    Text.padded 2 (time % 60) ++ fractionText c.nanoseconds ++ offsetText c.offset

/-- Whether a text is an instant. -/
def isValid (s : String) : Bool := (read? s).isSome

/-- The text of the instant a number of seconds later. -/
def shift? (s : String) (seconds : Int) : Option String :=
  ((read? s).bind (·.later? seconds)).map text

end Clock

end ProcessTest
