import ProcessTest.Condition
import ProcessTest.Proofs.Template.Keys
import ProcessTest.Proofs.Template.Pieces

/-!
# Conditions while bindings grow

Bindings only grow, and a placeholder without a value keeps a condition from holding.  So a
condition that holds has all its values, and goes on to hold.

* `Template.hasPlaceholder_of_append` — a placeholder is seen wherever it stands.
* `Template.resolves_of_filled` — if no placeholder is left, every key has a value.
* `Template.fill_mono` — text whose keys have values is filled the same by larger bindings.
* `Condition.holds_after` — what holds goes on to hold.
-/

set_option autoImplicit false

namespace ProcessTest

namespace Template

variable {b c : Bindings} {s : String} {v : Value} {front key rest : List Char}

/-- A placeholder is seen wherever it stands in a text, whatever is around it. -/
theorem hasPlaceholder_of_append
    (h : s.toList = front ++ ('{' :: '{' :: key ++ ['}', '}'] ++ rest)) :
    hasPlaceholder s = true := by
  have hsplit : s.toList = front ++ ['{', '{'] ++ (key ++ ['}', '}'] ++ rest) := by
    rw [h]
    simp
  unfold hasPlaceholder
  cases hopen : Text.cut? ['{', '{'] s.toList with
  | none =>
    rw [hsplit, Text.cut?_eq_none_iff_absent] at hopen
    exact absurd (List.infix_append _ _ _) hopen
  | some p =>
    obtain ⟨before, inner⟩ := p
    rw [hsplit] at hopen
    have hinner := Text.suffix_of_cut? (List.cons_ne_nil _ _) hopen
    exact Text.holds_iff_occurs.2 ((List.infix_append key _ rest).trans hinner.isInfix)

/-- **If no placeholder is left, every key has a value.** -/
theorem resolves_of_filled (h : hasPlaceholder (fill s b) = false) :
    ∀ key ∈ keys s, ∃ v, lookup? b key.toList = some v := by
  intro key hkey
  obtain ⟨key, hpiece, rfl⟩ := mem_keys_iff.1 hkey
  rw [String.toList_ofList, ← Option.ne_none_iff_exists']
  intro hnone
  obtain ⟨front, rest, hpieces⟩ := List.append_of_mem hpiece
  have hfilled : Piece.filled (written b) (.placeholder key) =
      '{' :: '{' :: key ++ ['}', '}'] := by
    rw [Piece.filled, filling, written, hnone]
    rfl
  -- The placeholder stands in the filled text as it is written.
  have hleft : hasPlaceholder (fill s b) = true := by
    apply hasPlaceholder_of_append
    rw [fill_eq, String.toList_ofList, fillFrom_eq_flatMap, hpieces, List.flatMap_append,
      List.flatMap_cons, hfilled]
  rw [h] at hleft
  cases hleft

/-- **Text whose keys have values is filled the same by larger bindings.** -/
theorem fill_mono (hc : ∀ name v, b.get? name = some v → c.get? name = some v)
    (h : ∀ key ∈ keys s, ∃ v, lookup? b key.toList = some v) : fill s c = fill s b := by
  rw [fill_eq, fill_eq, fillFrom_eq_flatMap, fillFrom_eq_flatMap]
  congr 1
  refine List.flatMap_congr fun p hp => ?_
  cases p with
  | verbatim cs => rfl
  | placeholder key =>
    obtain ⟨v, hv⟩ := h _ (mem_keys_iff.2 ⟨key, hp, rfl⟩)
    rw [String.toList_ofList] at hv
    rw [Piece.filled, Piece.filled, filling, filling, written, written, hv, lookup?_mono hc hv]

end Template

namespace Condition

open Template (lookup? fill keys hasPlaceholder)

variable {b : Bindings} {e : String}

theorem filled_of_holds (h : holds e b = true) : hasPlaceholder (fill e b) = false := by
  unfold holds at h
  simpa using (Bool.and_eq_true_iff.1 h).1

/-- **A condition that holds goes on to hold**, whatever is bound or absorbed.  What a key names, it
names from then on; a condition without placeholders left is filled the same; and one that holds has
a value for every key. -/
theorem holds_after (b : Bindings) (changes : List Bindings.Change) (e : String) :
    (∀ key v, lookup? b key = some v → lookup? (b.after changes) key = some v) ∧
      (hasPlaceholder (fill e b) = false → fill e (b.after changes) = fill e b) ∧
      (holds e b = true → ∀ key ∈ keys e, ∃ v, lookup? b key.toList = some v) ∧
      (holds e b = true → holds e (b.after changes) = true) := by
  have hgrown : ∀ name v, b.get? name = some v → (b.after changes).get? name = some v :=
    fun _ _ => Bindings.get?_of_prefix (Bindings.entries_prefix_after b changes)
  have hfilled : hasPlaceholder (fill e b) = false → fill e (b.after changes) = fill e b :=
    fun h => Template.fill_mono hgrown (Template.resolves_of_filled h)
  refine ⟨fun _ _ => Template.lookup?_mono hgrown, hfilled, ?_, ?_⟩
  · intro h
    exact Template.resolves_of_filled (filled_of_holds h)
  · intro h
    unfold holds at h ⊢
    rwa [hfilled (filled_of_holds h)]

/-- What is bound when an order has been paid. -/
def paid : Bindings := Bindings.empty.bind "order" (.map [("status", .text "paid")])

theorem paid_holds_after :
    let condition := "\x7b\x7border.status\x7d\x7d != draft"
    holds condition paid = true ∧
      holds condition (paid.after [.bind "order" .null, .absorb (.ofSetting
        { tenant := none, organization := "salon", currency := "AED", locale := "en-AE",
          fiscalYear := none, clock := none })]) = true := by
  have hholds : holds "\x7b\x7border.status\x7d\x7d != draft" paid = true := by decide +kernel
  exact ⟨hholds, (holds_after paid _ _).2.2.2 hholds⟩

end Condition

end ProcessTest
