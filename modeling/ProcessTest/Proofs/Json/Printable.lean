import ProcessTest.Proofs.Number.Layout

/-!
# Characters of JSON texts

Control characters are escaped in texts and occur nowhere else, so the text of a tree is one line.

* `isPrintable_escape`, `isPrintable_quoted` — texts in quotes.
* `isPrintable_compact` — by the structure of the value, together with its items and entries.
-/

set_option autoImplicit false

namespace ProcessTest.Json

variable {c : Char}

/-- No control character below U+0020, such as a line break. -/
def IsPrintable (cs : List Char) : Prop := ∀ c ∈ cs, 0x20 ≤ c.toNat

theorem isPrintable_append {cs ds : List Char} :
    IsPrintable (cs ++ ds) ↔ IsPrintable cs ∧ IsPrintable ds := List.forall_mem_append

theorem isPrintable_cons {cs : List Char} :
    IsPrintable (c :: cs) ↔ 0x20 ≤ c.toNat ∧ IsPrintable cs := List.forall_mem_cons

theorem isPrintable_of_all {cs : List Char} (h : cs.all (fun c => decide (0x20 ≤ c.toNat)) = true) :
    IsPrintable cs := by
  simpa [IsPrintable] using h

theorem isPrintable_escape (c : Char) : IsPrintable (escape c) := by
  have hhex : ∀ n < 16, 0x20 ≤ (hexDigit n).toNat := by decide
  unfold escape IsPrintable
  split_ifs with h₁ h₂ h₃ h₄ h₅ h₆ h₇ h₈
  all_goals simp only [List.forall_mem_cons, List.not_mem_nil, false_implies, implies_true,
    and_true]
  all_goals try decide
  · have hhigh := hhex (c.toNat / 16) (by omega)
    have hlow := hhex (c.toNat % 16) (by omega)
    exact ⟨by decide, by decide, by decide, by decide, hhigh, hlow⟩
  · omega

theorem isPrintable_quoted (s : String) : IsPrintable (quoted s) := by
  unfold quoted
  rw [List.cons_append, isPrintable_cons, isPrintable_append]
  refine ⟨by decide, ?_, isPrintable_of_all rfl⟩
  intro c hc
  obtain ⟨d, -, hd⟩ := List.mem_flatMap.1 hc
  exact isPrintable_escape d c hd

theorem isPrintable_number (n : Number) : IsPrintable n.text.toList := by
  intro c hc
  have hnumeral := Number.isNumeral_of_mem_text hc
  simp only [isNumeral, Char.isDigit, UInt32.le_iff_toNat_le, Bool.or_eq_true, Bool.and_eq_true,
    decide_eq_true_eq, beq_iff_eq] at hnumeral
  rcases hnumeral with (((⟨hlow, -⟩ | rfl) | rfl) | rfl) | rfl
  · exact Nat.le_trans (by decide) hlow
  all_goals decide

mutual

/-- **The text of a tree on one line has no control characters.** -/
theorem isPrintable_compact : (v : Value) → IsPrintable (compact v)
  | .null => isPrintable_of_all rfl
  | .bool true => isPrintable_of_all rfl
  | .bool false => isPrintable_of_all rfl
  | .number n => isPrintable_number n
  | .text s => isPrintable_quoted s
  | .list items => by
    rw [compact, List.cons_append, isPrintable_cons, isPrintable_append]
    exact ⟨by decide, isPrintable_compactItems items, isPrintable_of_all rfl⟩
  | .map entries => by
    rw [compact, List.cons_append, isPrintable_cons, isPrintable_append]
    exact ⟨by decide, isPrintable_compactEntries entries, isPrintable_of_all rfl⟩

theorem isPrintable_compactItems : (items : List Value) → IsPrintable (compactItems items)
  | [] => List.forall_mem_nil _
  | [v] => isPrintable_compact v
  | v :: next :: items => by
    rw [compactItems, isPrintable_append, isPrintable_cons]
    · exact ⟨isPrintable_compact v, by decide, isPrintable_compactItems (next :: items)⟩
    · nofun

theorem isPrintable_compactEntries :
    (entries : List (String × Value)) → IsPrintable (compactEntries entries)
  | [] => List.forall_mem_nil _
  | [(k, v)] => by
    rw [compactEntries, isPrintable_append, isPrintable_cons]
    exact ⟨isPrintable_quoted k, by decide, isPrintable_compact v⟩
  | (k, v) :: next :: entries => by
    rw [compactEntries, isPrintable_append, isPrintable_append, isPrintable_cons, isPrintable_cons]
    · exact ⟨⟨isPrintable_quoted k, by decide, isPrintable_compact v⟩, by decide,
        isPrintable_compactEntries (next :: entries)⟩
    · nofun

end

end ProcessTest.Json
