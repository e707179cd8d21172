import ProcessTest.Rule.Journal
import ProcessTest.Rule.Tax
import ProcessTest.Rule.Transition
import ProcessTest.SmartCode

/-!
# Verdicts of rules

`Rule.evaluate` decides a rule whose templates have been filled, and explains the decision.
-/

set_option autoImplicit false

namespace ProcessTest.Rule

/-- Whether a rule is met, and why. -/
structure Verdict where
  passed : Bool
  explanation : String
  deriving DecidableEq

/-- An operand, with its error as the error of the rule. -/
def operand (v : Value) : Except Error Decimal := (decimal v).mapError .operand

/-- An operand that may be missing. -/
def optional (v : Option Value) : Except Error (Option Decimal) :=
  (optionalDecimal v).mapError .operand

/-- The journal lines of a rule; a missing side is zero. -/
def entriesOf : List JournalEntry → Except Error (List JournalLine)
  | [] => .ok []
  | e :: rest => do
    let debit ← optional e.debit
    let credit ← optional e.credit
    let more ← entriesOf rest
    pure (⟨debit.getD Decimal.zero, credit.getD Decimal.zero⟩ :: more)

/-- The explanation of an equation. -/
def EquationVerdict.explain (v : EquationVerdict) : String :=
  s!"assets {v.assets.text} - liabilities {v.liabilities.text} - equity {v.equity.text}" ++
    s!" = {v.difference.text} (tolerance {v.tolerance.text})"

/-- The explanation of a journal. -/
def JournalVerdict.explain (v : JournalVerdict) : String :=
  s!"debits {v.totalDebits.text} vs credits {v.totalCredits.text} across {v.lines} line(s)" ++
    s!", difference {v.difference.text}"

/-- The explanation of a tax. -/
def TaxVerdict.explain (v : TaxVerdict) : String :=
  let b := v.breakdown
  s!"net {b.net.text} + tax {b.tax.text} = gross {b.gross.text} at rate {b.rate.text}" ++
    s!" ({b.mode.name})" ++
    if v.mismatches.isEmpty then ""
    else ": " ++ "; ".intercalate (v.mismatches.map TaxMismatch.message)

/-- The explanation of a transition. -/
def TransitionVerdict.explain (v : TransitionVerdict) : String :=
  match v.fault with
  | some fault => fault.message
  | none => s!"transition '{v.source}' -> '{v.target}' is allowed"

/-- Decides a rule. -/
def evaluate : Rule → Except Error Verdict
  | .accountingEquation assets liabilities equity tolerance => do
    let assets ← operand assets
    let liabilities ← operand liabilities
    let equity ← operand equity
    let tolerance ← optional tolerance
    let v ← checkEquation assets liabilities equity (tolerance.getD defaultTolerance)
    pure ⟨v.valid, v.explain⟩
  | .journalBalance lines tolerance => do
    let lines ← entriesOf lines
    let tolerance ← optional tolerance
    let v ← checkJournal lines (tolerance.getD defaultTolerance)
    pure ⟨v.valid, v.explain⟩
  | .taxCalculation amount rate inclusive expectedTax expectedGross => do
    let amount ← operand amount
    let rate ← operand rate
    let expectedTax ← optional expectedTax
    let expectedGross ← optional expectedGross
    let v ← checkTax amount rate (.of inclusive) expectedTax expectedGross
    pure ⟨v.valid, v.explain⟩
  | .statusTransition source target transitions =>
    let v := checkTransition transitions source target
    .ok ⟨v.valid, v.explain⟩
  | .smartCode code =>
    let v := SmartCode.check code
    .ok ⟨v.valid, v.describe⟩

end ProcessTest.Rule
