/-!
# The calendar

Days are counted from the first of January of the year 0 of the Gregorian calendar, extended to
all years.

* `daysBefore` — how many days precede a year.
* `yearOf`, `Date.ofDay` — the year and the date of a day.
* `Date.day?` — the day of a date, where the calendar has that date.
-/

set_option autoImplicit false

namespace ProcessTest.Calendar

/-- Every fourth year, of the centuries only every fourth. -/
def isLeap (year : Nat) : Bool := year % 4 == 0 && (year % 100 != 0 || year % 400 == 0)

/-- The days that precede a year. -/
def daysBefore (year : Nat) : Nat :=
  365 * year + (year + 3) / 4 - (year + 99) / 100 + (year + 399) / 400

/-- The lengths of the months. -/
def monthLengths (leap : Bool) : List Nat :=
  [31, if leap then 29 else 28, 31, 30, 31, 30, 31, 31, 30, 31, 30, 31]

/-- The year that a day lies in: the average length of a year gives it up to one. -/
def yearOf (day : Nat) : Nat :=
  let guess := 400 * day / 146097
  if daysBefore (guess + 1) ≤ day then guess + 1
  else if daysBefore guess ≤ day then guess
  else guess - 1

/-- A date of the calendar, months and days counted from one. -/
structure Date where
  year : Nat
  month : Nat
  day : Nat
  deriving DecidableEq, Repr

/-- Month and day of a day counted from the first of the month with the given number. -/
def monthAndDay (month : Nat) : List Nat → Nat → Nat × Nat
  | [], day => (month, day + 1)
  | length :: rest, day =>
    if day < length then (month, day + 1) else monthAndDay (month + 1) rest (day - length)

/-- The date of a day. -/
def Date.ofDay (day : Nat) : Date :=
  let year := yearOf day
  let (month, d) := monthAndDay 1 (monthLengths (isLeap year)) (day - daysBefore year)
  ⟨year, month, d⟩

/-- The days of the year that precede a day of a month, if the month has that day. -/
def dayOfYear? : List Nat → Nat → Nat → Option Nat
  | length :: _, 1, day => if 1 ≤ day && day ≤ length then some (day - 1) else none
  | length :: rest, month + 1, day => (dayOfYear? rest month day).map (length + ·)
  | _, _, _ => none

/-- The day of a date. -/
def Date.day? (date : Date) : Option Nat :=
  (dayOfYear? (monthLengths (isLeap date.year)) date.month date.day).map (daysBefore date.year + ·)

/-- Whether a month ends with a day. -/
def endsMonth (day : Nat) : Bool := (Date.ofDay (day + 1)).day == 1

end ProcessTest.Calendar
