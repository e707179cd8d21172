import ProcessTest.Rule.Operand

/-!
# Tax

Rates are fractions between 0 and 1.  Computed amounts have two places; a tie is rounded away
from zero.

* `computeTax` — net, tax and gross of an amount.
* `checkTax` — the same compared with what was expected.
-/

set_option autoImplicit false

namespace ProcessTest.Rule

/-- Whether an amount contains its tax. -/
inductive TaxMode where
  | exclusive
  | inclusive
  deriving DecidableEq

/-- The mode of a rule. -/
def TaxMode.of (inclusive : Bool) : TaxMode := if inclusive then .inclusive else .exclusive

/-- The name in messages. -/
def TaxMode.name : TaxMode → String
  | .exclusive => "exclusive"
  | .inclusive => "inclusive"

/-- Net, tax and gross of one amount. -/
structure TaxBreakdown where
  net : Decimal
  tax : Decimal
  gross : Decimal
  rate : Decimal
  mode : TaxMode

/-- The places of computed amounts. -/
def taxPlaces : Nat := 2

/-- An amount with the places of computed amounts. -/
def rounded (amount : Decimal) : Decimal := amount.toPlaces taxPlaces

/-- A result, or the error that there is none. -/
def orError {α : Type} (error : Error) : Option α → Except Error α
  | some a => .ok a
  | none => .error error

/-- Net, tax and gross of an amount that is not negative at a rate between 0 and 1. -/
def computeTax (amount rate : Decimal) (mode : TaxMode) : Except Error TaxBreakdown :=
  if amount.lt Decimal.zero then .error (.negativeAmount amount)
  else if rate.lt Decimal.zero || Decimal.one.lt rate then .error (.rateOutside rate)
  else match mode with
    | .exclusive => do
      let net := rounded amount
      let tax ← orError (.tax amount rate) ((amount.mul? rate).map rounded)
      let gross ← orError (.tax amount rate) (net.add? tax)
      pure ⟨net, tax, gross, rate, mode⟩
    | .inclusive => do
      let net ← orError (.net amount rate)
        (((Decimal.one.add? rate).bind amount.div?).map rounded)
      let gross := rounded amount
      let tax ← orError (.tax amount rate) (gross.sub? net)
      pure ⟨net, tax, gross, rate, mode⟩

/-- A computed amount that differs from the expected one. -/
structure TaxMismatch where
  /-- `tax` or `gross`. -/
  what : String
  expected : Decimal
  computed : Decimal

/-- The wording of a mismatch. -/
def TaxMismatch.message (m : TaxMismatch) : String :=
  s!"expected {m.what} {m.expected.text}, computed {m.computed.text}"

/-- Verdict on a tax rule. -/
structure TaxVerdict where
  breakdown : TaxBreakdown
  mismatches : List TaxMismatch

/-- Whether every expectation was met. -/
def TaxVerdict.valid (v : TaxVerdict) : Bool := v.mismatches.isEmpty

/-- The mismatch of one expectation. -/
def mismatch (what : String) (expected : Option Decimal) (computed : Decimal) :
    List TaxMismatch :=
  match expected with
  | some e => if (rounded e).agrees computed then [] else [⟨what, e, computed⟩]
  | none => []

/-- Computes tax and compares it with the expected tax and gross amount. -/
def checkTax (amount rate : Decimal) (mode : TaxMode) (expectedTax expectedGross : Option Decimal) :
    Except Error TaxVerdict := do
  let b ← computeTax amount rate mode
  pure ⟨b, mismatch "tax" expectedTax b.tax ++ mismatch "gross" expectedGross b.gross⟩

end ProcessTest.Rule
