import ProcessTest.Rule.Equation

/-!
# Balanced journals

The debits of a journal are its credits, up to a tolerance.

* `checkJournal` — the totals of both sides and their difference.
* `journalOf` — the journal of the lines of a transaction that name a side.
-/

set_option autoImplicit false

namespace ProcessTest.Rule

/-- One line of a journal; either side may be zero. -/
structure JournalLine where
  debit : Decimal
  credit : Decimal

/-- Verdict on a journal. -/
structure JournalVerdict where
  valid : Bool
  totalDebits : Decimal
  totalCredits : Decimal
  /-- Debits less credits. -/
  difference : Decimal
  lines : Nat

/-- The sum of the amounts of one side, added in order. -/
def total (side : Side) : Decimal → List Decimal → Except Error Decimal
  | sum, [] => .ok sum
  | sum, amount :: rest =>
    match sum.add? amount with
    | some sum => total side sum rest
    | none => .error (.total side)

/-- Compares the sides of a journal; the sign of the tolerance does not count. -/
def checkJournal (lines : List JournalLine) (tolerance : Decimal) :
    Except Error JournalVerdict := do
  let debits ← total .debit Decimal.zero (lines.map JournalLine.debit)
  let credits ← total .credit Decimal.zero (lines.map JournalLine.credit)
  match debits.sub? credits with
  | none => .error (.balance debits credits)
  | some difference =>
    .ok { valid := difference.abs.le tolerance.abs
          totalDebits := debits, totalCredits := credits, difference, lines := lines.length }

/-- The journal line of an amount on a side. -/
def lineOn (side : Side) (amount : Decimal) : JournalLine :=
  match side with
  | .debit => ⟨amount, Decimal.zero⟩
  | .credit => ⟨Decimal.zero, amount⟩

/-- The journal line of a transaction line; none for a line without a side. -/
def lineOf (index : Nat) (item : LineItem) : Except Error (Option JournalLine) :=
  match item.side with
  | none => .ok none
  | some side =>
    match item.amount with
    | none => .error (.noAmount index side)
    | some v =>
      match decimal v with
      | .ok amount => .ok (some (lineOn side amount))
      | .error cause => .error (.line index cause)

/-- The journal lines of transaction lines, numbered from the given index. -/
def journalLines : Nat → List LineItem → Except Error (List JournalLine)
  | _, [] => .ok []
  | index, item :: rest => do
    let line ← lineOf index item
    let more ← journalLines (index + 1) rest
    pure (line.toList ++ more)

/-- The journal of a transaction, if one of its lines names a side. -/
def journalOf (items : List LineItem) : Except Error (Option (List JournalLine)) := do
  let lines ← journalLines 0 items
  pure (if lines.isEmpty then none else some lines)

end ProcessTest.Rule
