import ProcessTest.Definition
import ProcessTest.Text.Blank

/-!
# Lines of an artifact

What all artifacts share: the banner, indentation, and texts brought onto one line.
-/

set_option autoImplicit false

namespace ProcessTest

/-- The name of the program in its output. -/
def programName : String := "flowcheck"

/-- The version of the program in its output. -/
def programVersion : String := "0.3.0"

namespace Artifact

/-- Content of the first line of every artifact. -/
def banner (d : Definition) : String :=
  s!"Generated by {programName} {programVersion} from '{d.id}'. Do not edit."

/-- The words of a text: the longest pieces without blanks. -/
def words : List Char → List (List Char)
  | [] => []
  | [c] => if Text.isBlank c then [] else [[c]]
  | c :: d :: rest =>
    if Text.isBlank c then words (d :: rest)
    else if Text.isBlank d then [c] :: words (d :: rest)
    else match words (d :: rest) with
      | word :: more => (c :: word) :: more
      | [] => [[c]]

/-- The words of a text with single spaces between them. -/
def oneLine (s : String) : String := " ".intercalate ((words s.toList).map String.ofList)

/-- Lines with blanks in front of each that is not empty. -/
def indented (width : Nat) (lines : List String) : List String :=
  lines.map fun line => if line = "" then line else "".pushn ' ' width ++ line

/-- Lines as a text that ends with a line break. -/
def unlines (lines : List String) : String := "\n".intercalate lines ++ "\n"

/-- Calls a function on every item with its index, from the given index on. -/
def numbered {α β : Type} (f : Nat → α → β) : Nat → List α → List β
  | _, [] => []
  | index, a :: rest => f index a :: numbered f (index + 1) rest

end Artifact

end ProcessTest
