import ProcessTest.Definition
import ProcessTest.Number.DecimalText
import ProcessTest.Template

/-!
# Operands of rules

A rule computes with decimals.  Its operands are numbers, or texts that hold one.

* `Rule.Error` — why a rule has no verdict.
* `Rule.decimal` — the decimal of an operand.
-/

set_option autoImplicit false

namespace ProcessTest.Rule

/-- Why an operand is no decimal. -/
inductive OperandError where
  /-- A placeholder is left in it. -/
  | unresolved (text : String)
  | noNumber (text : String)
  /-- It is neither a number nor a text. -/
  | noScalar (value : Value)
  deriving DecidableEq

/-- The wording of an operand error. -/
def OperandError.message : OperandError → String
  | .unresolved text => s!"unresolved operand '{text}'"
  | .noNumber text => s!"'{text}' is not a number"
  | .noScalar value => s!"expected a number, got {value.json}"

/-- Why a rule has no verdict. -/
inductive Error where
  | operand (cause : OperandError)
  /-- The difference of an accounting equation has no decimal. -/
  | equation (assets liabilities equity : Decimal)
  /-- A total of one side of a journal has no decimal. -/
  | total (side : Side)
  /-- The difference of the totals of a journal has no decimal. -/
  | balance (debits credits : Decimal)
  | negativeAmount (amount : Decimal)
  | rateOutside (rate : Decimal)
  | tax (amount rate : Decimal)
  | net (amount rate : Decimal)
  /-- A transaction line names a side and no amount. -/
  | noAmount (index : Nat) (side : Side)
  /-- The amount of a transaction line is no decimal. -/
  | line (index : Nat) (cause : OperandError)
  deriving DecidableEq

/-- A side as it is written in messages. -/
def sideWord : Side → String
  | .debit => "Debit"
  | .credit => "Credit"

/-- The wording of a rule error. -/
def Error.message : Error → String
  | .operand cause => cause.message
  | .equation assets liabilities equity =>
    s!"assets {assets.text} - liabilities {liabilities.text} - equity {equity.text} overflows"
  | .total side => s!"total {side.name}s overflow"
  | .balance debits credits => s!"debits {debits.text} - credits {credits.text} overflows"
  | .negativeAmount amount => s!"taxable amount {amount.text} is negative"
  | .rateOutside rate => s!"tax rate {rate.text} is outside [0, 1]"
  | .tax amount rate => s!"tax on {amount.text} at rate {rate.text} overflows"
  | .net amount rate => s!"cannot extract tax from {amount.text} at rate {rate.text}"
  | .noAmount index side => s!"line {index} declares {sideWord side} without line_amount"
  | .line index cause => s!"line {index}: {cause.message}"

/-- The decimal of a number text. -/
def decimalOfText (text : String) : Except OperandError Decimal :=
  match Decimal.read? text with
  | some d => .ok d
  | none => .error (.noNumber text)

/-- The decimal of an operand. -/
def decimal : Value → Except OperandError Decimal
  | .number n => decimalOfText n.text
  | .text s =>
    if Template.hasPlaceholder s then .error (.unresolved s) else decimalOfText (Text.strip s)
  | v => .error (.noScalar v)

/-- The decimal of an operand that may be missing. -/
def optionalDecimal : Option Value → Except OperandError (Option Decimal)
  | none => .ok none
  | some v => (decimal v).map some

end ProcessTest.Rule
