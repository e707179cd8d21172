import ProcessTest.Condition
import ProcessTest.Proofs.Template.Pieces
import ProcessTest.Proofs.Text.Blank

/-!
# How conditions are read

A condition is filled first and read then.  What has been put in is read along with what was
written, so a value with an operator in it can move the place at which the condition is split.

* `reading` — a filled condition as an inequality, an equality or a single text.
* `reading_equation_iff`, `reading_inequation_iff` — when two texts with an operator between them
  are split there.
* `complementary` — where both are, one of equality and inequality holds, and not the other.
* `equation_and_inequation_hold` — a value with an operator in it makes both hold.
-/

set_option autoImplicit false

namespace ProcessTest

namespace Condition

open Template (Piece pieces keys fill fillFrom lookup? hasPlaceholder written)

variable {b : Bindings} {cs left right : List Char} {s l r : String}

theorem operand_cons_blank (cs : List Char) : operand (' ' :: cs) = operand cs := rfl

theorem operand_append_blank (cs : List Char) : operand (cs ++ [' ']) = operand cs := by
  unfold operand
  rw [Text.trim_append_blank]

/-! ## Readings -/

/-- What a filled condition is read as. -/
inductive Reading where
  | inequality (left right : List Char)
  | equality (left right : List Char)
  | single
  deriving DecidableEq, Repr

/-- A filled condition is split at the first sign of inequality, or else at the first one of
equality. -/
def reading (cs : List Char) : Reading :=
  match Text.cut? ['!', '='] cs with
  | some (left, right) => .inequality left right
  | none =>
    match Text.cut? ['=', '='] cs with
    | some (left, right) => .equality left right
    | none => .single

theorem decided_of_equality (h : reading s.toList = .equality left right) :
    decided s = (operand left == operand right) := by
  unfold reading at h
  unfold decided
  grind

theorem decided_of_inequality (h : reading s.toList = .inequality left right) :
    decided s = (operand left != operand right) := by
  unfold reading at h
  unfold decided
  grind

theorem reading_eq_equality_iff : reading cs = .equality left right ↔
    Text.cut? ['!', '='] cs = none ∧ Text.cut? ['=', '='] cs = some (left, right) := by
  unfold reading
  grind

theorem reading_eq_inequality_iff : reading cs = .inequality left right ↔
    Text.cut? ['!', '='] cs = some (left, right) := by
  unfold reading
  grind

/-- Two texts with a sign of equality between them are split there exactly if no sign stands in
front of it, and no sign of inequality behind it. -/
theorem reading_equation_iff :
    reading (left ++ ([' ', '=', '=', ' '] ++ right)) =
        .equality (left ++ [' ']) (' ' :: right) ↔
      ¬ ['=', '='] <:+: left ∧ ¬ ['!', '='] <:+: left ∧ ¬ ['!', '='] <:+: right := by
  have hinequality : ['!', '='] <:+: left ++ ([' ', '=', '=', ' '] ++ right) ↔
      ['!', '='] <:+: left ∨ ['!', '='] <:+: right := by
    have hsign : ¬ ['!', '='] <:+: ['=', '='] := by decide
    have hbehind : ['!', '='] <:+: ['=', '='] ++ ' ' :: right ↔ ['!', '='] <:+: right := by
      rw [Text.infix_append_cons_iff (by decide), or_iff_right hsign]
    rw [← hbehind]
    exact Text.infix_append_cons_iff (by decide)
  have hequality : ['=', '='] <:+: left ++ [' '] ++ ['='] ↔ ['=', '='] <:+: left := by
    have hsign : ¬ ['=', '='] <:+: ['='] := by decide
    rw [List.append_assoc, List.singleton_append, Text.infix_append_cons_iff (by decide),
      or_iff_left hsign]
  have htext : left ++ ([' ', '=', '=', ' '] ++ right) =
      left ++ [' '] ++ ['=', '='] ++ ' ' :: right := by simp
  rw [reading_eq_equality_iff, Text.cut?_eq_none_iff_absent, hinequality,
    Text.cut?_eq_some_iff_first (List.cons_ne_nil _ _), and_iff_right htext]
  change _ ∧ ¬ ['=', '='] <:+: left ++ [' '] ++ ['='] ↔ _
  rw [hequality]
  tauto

/-- Two texts with a sign of inequality between them are split there exactly if no other one stands
in front of it. -/
theorem reading_inequation_iff :
    reading (left ++ ([' ', '!', '=', ' '] ++ right)) =
        .inequality (left ++ [' ']) (' ' :: right) ↔ ¬ ['!', '='] <:+: left := by
  have hinequality : ['!', '='] <:+: left ++ [' '] ++ ['!'] ↔ ['!', '='] <:+: left := by
    have hsign : ¬ ['!', '='] <:+: ['!'] := by decide
    rw [List.append_assoc, List.singleton_append, Text.infix_append_cons_iff (by decide),
      or_iff_left hsign]
  have htext : left ++ ([' ', '!', '=', ' '] ++ right) =
      left ++ [' '] ++ ['!', '='] ++ ' ' :: right := by simp
  rw [reading_eq_inequality_iff, Text.cut?_eq_some_iff_first (List.cons_ne_nil _ _),
    and_iff_right htext]
  change ¬ ['!', '='] <:+: left ++ [' '] ++ ['!'] ↔ _
  rw [hinequality]

/-! ## Operands -/

/-- A text that can stand beside an operator: it has no opening brace outside its placeholders, and
these have values without one. -/
structure IsOperand (b : Bindings) (s : String) : Prop where
  verbatim : ∀ cs, .verbatim cs ∈ pieces s.toList → '{' ∉ cs
  values : ∀ key ∈ keys s, ∃ v, lookup? b key.toList = some v ∧ '{' ∉ v.plain.toList

/-- A text that is one placeholder can stand beside an operator, if its value can. -/
theorem isOperand_of_placeholder {key : List Char} {v : Value}
    (h : pieces s.toList = [.verbatim [], .placeholder key, .verbatim []])
    (hv : lookup? b (Text.trim key) = some v) (hbrace : '{' ∉ v.plain.toList) :
    IsOperand b s where
  verbatim := by
    intro cs hcs
    obtain rfl : cs = [] := by simpa [h] using hcs
    exact List.not_mem_nil
  values := by
    intro k hk
    obtain ⟨key', hpiece, rfl⟩ := Template.mem_keys_iff.1 hk
    obtain rfl : key' = key := by simpa [h] using hpiece
    exact ⟨v, by rwa [String.toList_ofList], hbrace⟩

/-- So can a text without braces. -/
theorem isOperand_of_not_mem (h : '{' ∉ s.toList) : IsOperand b s := by
  have hpieces := Template.pieces_verbatim (Text.single_append_of_not_mem h).of_append.1
  refine ⟨?_, ?_⟩
  · intro cs hcs
    rw [hpieces, List.mem_singleton] at hcs
    cases hcs
    exact h
  · intro k hk
    obtain ⟨key, hpiece, -⟩ := Template.mem_keys_iff.1 hk
    rw [hpieces, List.mem_singleton] at hpiece
    cases hpiece

theorem IsOperand.not_mem_fill (h : IsOperand b s) : '{' ∉ (fill s b).toList := by
  intro hmem
  rw [Template.fill_eq, String.toList_ofList, Template.fillFrom_eq_flatMap,
    List.mem_flatMap] at hmem
  obtain ⟨cs | key, hpiece, hmem⟩ := hmem
  · exact h.verbatim cs hpiece hmem
  · obtain ⟨v, hv, hbrace⟩ := h.values _ (Template.mem_keys_iff.2 ⟨key, hpiece, rfl⟩)
    rw [String.toList_ofList] at hv
    rw [Piece.filled, Template.filling, written, hv] at hmem
    exact hbrace hmem

/-- Two texts with an operator between them are filled one by one. -/
theorem IsOperand.toList_fill {operator : String} (hl : IsOperand b l)
    (hoperator : '{' ∉ operator.toList) (r : String) :
    (fill (l ++ operator ++ r) b).toList =
      (fill l b).toList ++ (operator.toList ++ (fill r b).toList) := by
  simp only [Template.fill_eq, String.toList_ofList, String.toList_append, List.append_assoc]
  rw [Template.fillFrom_append_closed hl.verbatim,
    Template.fillFrom_append (Text.single_append_of_not_mem hoperator)]

/-- Text without an opening brace has no placeholder. -/
theorem hasPlaceholder_of_not_mem (h : '{' ∉ s.toList) : hasPlaceholder s = false := by
  have hnone : Text.cut? ['{', '{'] s.toList = none :=
    Text.cut?_eq_none_iff_absent.2 fun hmark => h (hmark.subset List.mem_cons_self)
  unfold hasPlaceholder
  rw [hnone]

/-- The condition that two texts are equal. -/
def equation (l r : String) : String := l ++ " == " ++ r

/-- The condition that two texts differ. -/
def inequation (l r : String) : String := l ++ " != " ++ r

/-- Such a condition has all its values, and is decided as it is read. -/
theorem holds_of_operands {operator : String} (hl : IsOperand b l) (hr : IsOperand b r)
    (hoperator : '{' ∉ operator.toList) :
    holds (l ++ operator ++ r) b = decided (fill (l ++ operator ++ r) b) := by
  have hfilled : '{' ∉ (fill (l ++ operator ++ r) b).toList := by
    rw [hl.toList_fill hoperator]
    simp [hl.not_mem_fill, hr.not_mem_fill, hoperator]
  simp [holds, hasPlaceholder_of_not_mem hfilled]

/-- **Equality and inequality are complementary**, as far as what has been put in does not move the
place at which they are split.  The condition that two texts are equal is split at its operator
exactly if the left text, once it is filled, has no operator in it and the right one no sign of
inequality; the condition that they differ, if the left one has no sign of inequality.  If both are,
one of them holds and the other does not, according to whether the operands are equal. -/
theorem complementary (hl : IsOperand b l) (hr : IsOperand b r) :
    let left := (fill l b).toList
    let right := (fill r b).toList
    (reading (fill (equation l r) b).toList = .equality (left ++ [' ']) (' ' :: right) ↔
        ¬ "==".toList <:+: left ∧ ¬ "!=".toList <:+: left ∧ ¬ "!=".toList <:+: right) ∧
      (reading (fill (inequation l r) b).toList = .inequality (left ++ [' ']) (' ' :: right) ↔
        ¬ "!=".toList <:+: left) ∧
      (¬ "==".toList <:+: left → ¬ "!=".toList <:+: left → ¬ "!=".toList <:+: right →
        (holds (equation l r) b = true ↔ operand left = operand right) ∧
          holds (inequation l r) b = !holds (equation l r) b) := by
  intro left right
  have hequation : (fill (equation l r) b).toList = left ++ ([' ', '=', '=', ' '] ++ right) :=
    hl.toList_fill (by decide) r
  have hinequation : (fill (inequation l r) b).toList = left ++ ([' ', '!', '=', ' '] ++ right) :=
    hl.toList_fill (by decide) r
  rw [hequation, hinequation]
  refine ⟨reading_equation_iff, reading_inequation_iff, fun hequality hleft hright => ?_⟩
  have hequal : holds (equation l r) b = (operand left == operand right) := by
    rw [equation, holds_of_operands hl hr (by decide)]
    rw [decided_of_equality (hequation ▸ reading_equation_iff.2 ⟨hequality, hleft, hright⟩),
      operand_append_blank, operand_cons_blank]
  have hdiffer : holds (inequation l r) b = (operand left != operand right) := by
    rw [inequation, holds_of_operands hl hr (by decide)]
    rw [decided_of_inequality (hinequation ▸ reading_inequation_iff.2 hleft),
      operand_append_blank, operand_cons_blank]
  rw [hequal, hdiffer, beq_iff_eq]
  exact ⟨Iff.rfl, rfl⟩

/-- What is bound when a note has been taken on a paid order. -/
def noted : Bindings :=
  (Bindings.empty.bind "status" (.text "paid")).bind "note" (.text "a != b")

theorem complementary_noted :
    let l := "\x7b\x7b status \x7d\x7d"
    IsOperand noted l ∧ IsOperand noted "'paid'" ∧ holds (equation l "'paid'") noted = true ∧
      holds (inequation l "'paid'") noted = false := by
  intro l
  have hpieces : pieces l.toList =
      [.verbatim [], .placeholder " status ".toList, .verbatim []] := by decide +kernel
  have hl : IsOperand noted l := isOperand_of_placeholder hpieces (v := .text "paid")
    (by decide +kernel) (by decide)
  have hr : IsOperand noted "'paid'" := isOperand_of_not_mem (by decide)
  obtain ⟨hequation, hinequation⟩ := (complementary hl hr).2.2 (by decide +kernel)
    (by decide +kernel) (by decide +kernel)
  have hholds := hequation.2 (by decide +kernel)
  exact ⟨hl, hr, hholds, by rw [hinequation, hholds]; rfl⟩

/-- A note with an operator in it makes equality and inequality hold at once, although neither
operand has an operator as it is written. -/
theorem equation_and_inequation_hold :
    let l := "\x7b\x7bnote\x7d\x7d"
    pieces l.toList = [.verbatim [], .placeholder "note".toList, .verbatim []] ∧
      (∀ s ∈ [l, "paid"], ¬ "==".toList <:+: s.toList ∧ ¬ "!=".toList <:+: s.toList) ∧
      IsOperand noted l ∧ IsOperand noted "paid" ∧
      holds (equation l "paid") noted = true ∧ holds (inequation l "paid") noted = true := by
  intro l
  have hpieces : pieces l.toList =
      [.verbatim [], .placeholder "note".toList, .verbatim []] := by decide +kernel
  refine ⟨hpieces, by decide +kernel, ?_, isOperand_of_not_mem (by decide), by decide +kernel,
    by decide +kernel⟩
  exact isOperand_of_placeholder hpieces (v := .text "a != b") (by decide +kernel) (by decide)

end Condition

end ProcessTest
