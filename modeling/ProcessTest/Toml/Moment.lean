import ProcessTest.Clock
import ProcessTest.Toml.Source
import ProcessTest.Value

/-!
# Dates and times of TOML

A date, a time of day, or both, then perhaps with an offset.  Their text has `T` between date and
time and no trailing zeros in the fraction; digits behind the ninth do not count.

* `moment?` — a date or time as the value that stands for it.
-/

set_option autoImplicit false

namespace ProcessTest.Toml

/-- A date of the calendar. -/
def date? : Reader String := fun cs => do
  let (year, rest) ← Clock.take? 4 cs
  let (month, rest) ← Clock.take? 2 (← Clock.skip? '-' rest)
  let (day, rest) ← Clock.take? 2 (← Clock.skip? '-' rest)
  if (⟨year, month, day⟩ : Calendar.Date).day?.isSome then
    pure (Text.padded 4 year ++ "-" ++ Text.padded 2 month ++ "-" ++ Text.padded 2 day, rest)
  else none

/-- A time of day; a minute may have a second 60. -/
def time? : Reader String := fun cs => do
  let (hour, rest) ← Clock.take? 2 cs
  let (minute, rest) ← Clock.take? 2 (← Clock.skip? ':' rest)
  let (second, rest) ← Clock.take? 2 (← Clock.skip? ':' rest)
  let (nanoseconds, rest) ← Clock.fraction? rest
  if hour ≤ 23 && minute ≤ 59 && second ≤ 60 then
    pure (Text.padded 2 hour ++ ":" ++ Text.padded 2 minute ++ ":" ++ Text.padded 2 second ++
      Clock.fractionText nanoseconds, rest)
  else none

/-- The distance from universal time, or nothing; zero has no minus sign. -/
def offset : List Char → String × List Char
  | 'Z' :: rest | 'z' :: rest => ("Z", rest)
  | cs => match Clock.offset? cs with
    | some (minutes, rest) => (if minutes = 0 then "+00:00" else Clock.offsetText minutes, rest)
    | none => ("", cs)

/-- A time of day behind its mark. -/
def timeBehindMark? : Reader String
  | c :: rest => if c = 'T' || c = 't' || c = ' ' then time? rest else none
  | [] => none

/-- The key of the one entry of a map that stands for a date or time. -/
def momentKey : String := "$__toml_private_datetime"

/-- A date or time. -/
def moment? : Reader Value := fun cs => do
  let (text, rest) ← match date? cs with
    | some (date, rest) => match timeBehindMark? rest with
      | some (time, rest) =>
        let (distance, rest) := offset rest
        some (date ++ "T" ++ time ++ distance, rest)
      | none => some (date, rest)
    | none => time? cs
  pure (.map [(momentKey, .text text)], rest)

end ProcessTest.Toml
