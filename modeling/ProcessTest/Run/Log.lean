import ProcessTest.Json.Reader
import ProcessTest.Json.Text
import ProcessTest.Run.Event
import ProcessTest.Text.Blank
import ProcessTest.Text.Cut

/-!
# Event logs

A log is a text with one entry a line, to which entries are only ever appended.  Blank lines do
not count.
-/

set_option autoImplicit false

namespace ProcessTest.Log

/-- The line of an entry. -/
def line (entry : LogEntry) : String := entry.encode.json ++ "\n"

/-- The log with one more entry. -/
def append (log : String) (entry : LogEntry) : String := log ++ line entry

/-- A line without the carriage return at its end. -/
def dropReturn (cs : List Char) : List Char :=
  if cs.getLast? = some '\r' then cs.dropLast else cs

/-- The lines of a text; a carriage return belongs to the line break behind it, and a line break at
the end begins no further line. -/
def lines (s : String) : List String :=
  let pieces := Text.splitAt '\n' s.toList
  let unended := pieces.getLast?.getD []
  (pieces.dropLast.map dropReturn ++ if unended.isEmpty then [] else [unended]).map String.ofList

/-- The entry of a line, which has none of its fields twice. -/
def readLine? (line : String) : Option LogEntry := do
  let (v, repeated) ← Json.readWithRepeats? line
  let entry ← (LogEntry.decode v).toOption
  if repeated.any (Entries.keys entry.fields).contains then none else some entry

/-- The entries of lines, numbered from the given number, or the number of the first line without
one. -/
def readLines : Nat → List String → Except Nat (List LogEntry)
  | _, [] => .ok []
  | number, line :: rest =>
    match readLine? line with
    | none => .error number
    | some entry => do
      let more ← readLines (number + 1) rest
      pure (entry :: more)

/-- The entries of a log, or the number of the first line without one. -/
def read (log : String) : Except Nat (List LogEntry) :=
  readLines 1 ((lines log).filter fun line => !Text.allBlank line)

end ProcessTest.Log
