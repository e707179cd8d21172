/-!
# Blank characters

The characters with the Unicode property White_Space, and text without them at its ends.
-/

set_option autoImplicit false

namespace ProcessTest.Text

/-- The characters with the Unicode property White_Space. -/
def isBlank (c : Char) : Bool :=
  let n := c.toNat
  (9 ≤ n && n ≤ 13) || n == 0x20 || n == 0x85 || n == 0xA0 || n == 0x1680 ||
    (0x2000 ≤ n && n ≤ 0x200A) || n == 0x2028 || n == 0x2029 || n == 0x202F ||
    n == 0x205F || n == 0x3000

/-- The characters from the first one that is not blank. -/
def trimLeft (cs : List Char) : List Char := cs.dropWhile isBlank

/-- The characters up to the last one that is not blank. -/
def trimRight (cs : List Char) : List Char := (cs.reverse.dropWhile isBlank).reverse

/-- The characters between the first and the last one that is not blank. -/
def trim (cs : List Char) : List Char := trimRight (trimLeft cs)

/-- Text without the blanks at its ends. -/
def strip (s : String) : String := String.ofList (trim s.toList)

/-- Text that holds nothing but blanks. -/
def allBlank (s : String) : Bool := s.toList.all isBlank

theorem trimRight_append_of_not_blank {c : Char} (h : isBlank c = false) (cs : List Char) :
    trimRight (cs ++ [c]) = cs ++ [c] := by
  simp [trimRight, h]

end ProcessTest.Text
