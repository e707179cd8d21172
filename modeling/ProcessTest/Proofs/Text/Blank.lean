import Mathlib.Data.List.DropRight
import Mathlib.Data.List.TakeWhile
import ProcessTest.Text.Blank

/-!
# Trimmed texts

* `mem_trim`, `mem_of_mem_trim` — the characters that trimming keeps.
* `trim_append_blank` — blanks at the end do not count.
* `trim_trim` — what has been trimmed stays as it is.
-/

set_option autoImplicit false

namespace ProcessTest.Text

variable {cs : List Char} {c : Char}

theorem mem_dropWhile {p : Char → Bool} (h : c ∈ cs) (hp : p c = false) : c ∈ cs.dropWhile p := by
  rw [← List.takeWhile_append_dropWhile (p := p) (l := cs)] at h
  rcases List.mem_append.1 h with h | h
  · rw [List.mem_takeWhile_imp h] at hp
    cases hp
  · exact h

/-- Trimming keeps every character that is not blank. -/
theorem mem_trim (h : c ∈ cs) (hc : isBlank c = false) : c ∈ trim cs := by
  unfold trim trimRight trimLeft
  rw [List.mem_reverse]
  exact mem_dropWhile (List.mem_reverse.2 (mem_dropWhile h hc)) hc

theorem mem_of_mem_trim (h : c ∈ trim cs) : c ∈ cs := by
  unfold trim trimRight at h
  have hleft : c ∈ trimLeft cs :=
    List.mem_reverse.1 ((List.dropWhile_suffix _).subset (List.mem_reverse.1 h))
  exact (List.dropWhile_suffix _).subset hleft

theorem trim_append_blank (cs : List Char) : trim (cs ++ [' ']) = trim cs := by
  unfold trim trimLeft
  rw [List.dropWhile_append]
  split
  · rename_i hempty
    rw [List.isEmpty_iff.1 hempty]
    rfl
  · unfold trimRight
    rw [List.reverse_append]
    rfl

theorem trimRight_trimRight (cs : List Char) : trimRight (trimRight cs) = trimRight cs :=
  List.rdropWhile_idempotent isBlank cs

/-- What has been trimmed on the left still is once it is trimmed on the right. -/
theorem trimLeft_trim (cs : List Char) : trimLeft (trim cs) = trim cs := by
  have hprefix : trim cs <+: trimLeft cs := List.rdropWhile_prefix isBlank (trimLeft cs)
  cases hcs : trim cs with
  | nil => rfl
  | cons c rest =>
    obtain ⟨behind, hleft⟩ := hprefix
    rw [hcs] at hleft
    have hhead := List.head?_dropWhile_not isBlank cs
    rw [← trimLeft, ← hleft] at hhead
    exact List.dropWhile_cons_of_neg (by simpa using hhead)

/-- What has been trimmed stays as it is. -/
theorem trim_trim (cs : List Char) : trim (trim cs) = trim cs := by
  rw [trim, trimLeft_trim, trim, trimRight_trimRight]

end ProcessTest.Text
