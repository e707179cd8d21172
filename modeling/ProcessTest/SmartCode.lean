import ProcessTest.Text.Cut
import ProcessTest.Text.Digits

/-!
# Smart codes

A smart code is five segments of capital letters, digits and underscores and a version, joined by
points: `HERA.SALON.CRM.ENT.CUST.v1`.  No segment begins with an underscore, and the version is a
number of 32 bits.

* `SmartCode.check` — the segments and the version of a text, and all that is wrong with it.
* `SmartCode.Verdict.describe` — the findings in words.
-/

set_option autoImplicit false

namespace ProcessTest.SmartCode

/-- The number of segments before the version. -/
def segmentCount : Nat := 5

/-- What can be wrong with a smart code. -/
inductive Issue where
  | tooFewSegments (found : Nat)
  | tooManySegments (found : Nat)
  | emptySegment (index : Nat)
  | badSegment (index : Nat) (segment : String)
  | badVersion (segment : String)
  deriving DecidableEq, Repr

/-- The wording of an issue. -/
def Issue.message : Issue → String
  | .tooFewSegments found => s!"insufficient segments: found {found}, expected {segmentCount}"
  | .tooManySegments found => s!"too many segments: found {found}, expected {segmentCount}"
  | .emptySegment index => s!"segment {index} is empty"
  | .badSegment index segment =>
    s!"segment {index} '{segment}' must be uppercase letters, digits or '_'"
  | .badVersion segment => s!"invalid version '{segment}', expected v<number>"

/-- What is known of a text that was checked. -/
structure Verdict where
  code : String
  segments : List String
  version : Option Nat
  issues : List Issue
  deriving DecidableEq, Repr

/-- Whether nothing is wrong. -/
def Verdict.valid (v : Verdict) : Bool := v.issues.isEmpty

/-- The findings in words. -/
def Verdict.describe (v : Verdict) : String :=
  if v.valid then s!"smart code '{v.code}' conforms"
  else s!"smart code '{v.code}': " ++ "; ".intercalate (v.issues.map Issue.message)

/-- The characters that a segment may begin with. -/
def isLead (c : Char) : Bool := c.isUpper || c.isDigit

/-- Whether a text is a segment. -/
def isSegment : List Char → Bool
  | [] => false
  | c :: cs => isLead c && cs.all fun d => isLead d || d == '_'

/-- The number of a version. -/
def version? : List Char → Option Nat
  | 'v' :: ds => (Text.readNat? ds).bind fun n => if n < Nat.pow 2 32 then some n else none
  | _ => none

/-- The issue of the number of segments. -/
def countIssues (found : Nat) : List Issue :=
  if found < segmentCount then [.tooFewSegments found]
  else if segmentCount < found then [.tooManySegments found]
  else []

/-- The issues of segments, numbered from the given index. -/
def segmentIssues : Nat → List (List Char) → List Issue
  | _, [] => []
  | index, segment :: rest =>
    let more := segmentIssues (index + 1) rest
    if segment.isEmpty then .emptySegment index :: more
    else if !isSegment segment then .badSegment index (String.ofList segment) :: more
    else more

/-- The issue of the version. -/
def versionIssues (segment : List Char) : List Issue :=
  if (version? segment).isNone then [.badVersion (String.ofList segment)] else []

/-- Checks a text: what stands behind its last point is the version. -/
def check (code : String) : Verdict :=
  let parts := Text.splitAt '.' code.toList
  let segments := parts.dropLast
  let last := parts.getLast?.getD []
  { code
    segments := segments.map String.ofList
    version := version? last
    issues := countIssues segments.length ++ segmentIssues 0 segments ++ versionIssues last }

/-- Whether a text is a smart code. -/
def isValid (code : String) : Bool := (check code).valid

end ProcessTest.SmartCode
