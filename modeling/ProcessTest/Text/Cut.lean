/-!
# Cutting text at a mark

The first place where a mark occurs, and what stands before and behind it.
-/

set_option autoImplicit false

namespace ProcessTest.Text

/-- What stands behind a leading mark. -/
def dropMark? : List Char → List Char → Option (List Char)
  | [], cs => some cs
  | _ :: _, [] => none
  | m :: ms, c :: cs => if m = c then dropMark? ms cs else none

/-- What stands before and behind the first occurrence of a mark. -/
def cut? (mark : List Char) : List Char → Option (List Char × List Char)
  | [] => if mark = [] then some ([], []) else none
  | c :: cs =>
    match dropMark? mark (c :: cs) with
    | some rest => some ([], rest)
    | none => (cut? mark cs).map fun (before, rest) => (c :: before, rest)

/-- Whether a mark occurs. -/
def holds (mark cs : List Char) : Bool := (cut? mark cs).isSome

/-- What stands before a closing mark. -/
def dropEnd? (mark cs : List Char) : Option (List Char) :=
  (dropMark? mark.reverse cs.reverse).map List.reverse

/-- The pieces between the occurrences of a separator; there is always at least one. -/
def splitAt (sep : Char) : List Char → List (List Char)
  | [] => [[]]
  | c :: cs =>
    if c = sep then [] :: splitAt sep cs
    else match splitAt sep cs with
      | piece :: rest => (c :: piece) :: rest
      | [] => [[c]]

/-- Lower case for the ASCII letters; all else stays. -/
def lowerAscii (s : String) : String := String.ofList (s.toList.map Char.toLower)

theorem dropMark?_eq_some_iff {mark cs rest : List Char} :
    dropMark? mark cs = some rest ↔ cs = mark ++ rest := by
  induction mark generalizing cs with
  | nil => simp [dropMark?]
  | cons m ms ih =>
    cases cs with
    | nil => simp [dropMark?]
    | cons c cs =>
      by_cases h : m = c
      · simp [dropMark?, h, ih]
      · simp [dropMark?, h, Ne.symm h]

theorem append_of_cut? {mark cs before rest : List Char} (h : cut? mark cs = some (before, rest)) :
    cs = before ++ mark ++ rest := by
  induction cs generalizing before with
  | nil =>
    simp only [cut?] at h
    split at h
    · simp_all
    · cases h
  | cons c cs ih =>
    simp only [cut?] at h
    split at h
    · rename_i r hr
      obtain ⟨rfl, rfl⟩ : before = [] ∧ r = rest := by simp_all
      simpa using dropMark?_eq_some_iff.1 hr
    · obtain ⟨⟨b, r⟩, hb, he⟩ := Option.map_eq_some_iff.1 h
      simp only [Prod.mk.injEq] at he
      obtain ⟨rfl, rfl⟩ := he
      simpa using ih hb

theorem splitAt_ne_nil (sep : Char) (cs : List Char) : splitAt sep cs ≠ [] := by
  cases cs with
  | nil => simp [splitAt]
  | cons c cs =>
    simp only [splitAt]
    split
    · simp
    · split <;> simp

end ProcessTest.Text
