import ProcessTest.Value

/-!
# Whole numbers of documents

* `Value.WordSized` — the whole numbers of a tree fit 64 bits.  The reader of every format gives
  such trees only.
-/

set_option autoImplicit false

namespace ProcessTest

namespace Value

mutual

/-- Every whole number of the tree fits 64 bits, with a sign or without. -/
def WordSized : Value → Prop
  | .number (.int n) => -(Nat.pow 2 63 : Int) ≤ n ∧ n < Nat.pow 2 64
  | .list items => WordSizedItems items
  | .map entries => WordSizedEntries entries
  | _ => True

/-- The same for every item. -/
def WordSizedItems : List Value → Prop
  | [] => True
  | v :: rest => WordSized v ∧ WordSizedItems rest

/-- The same for the value of every entry. -/
def WordSizedEntries : List (String × Value) → Prop
  | [] => True
  | (_, v) :: rest => WordSized v ∧ WordSizedEntries rest

end

theorem wordSizedItems_iff {items : List Value} :
    WordSizedItems items ↔ ∀ v ∈ items, v.WordSized := by
  induction items with
  | nil => exact ⟨fun _ _ h => absurd h List.not_mem_nil, fun _ => trivial⟩
  | cons v rest ih =>
    rw [List.forall_mem_cons, ← ih]
    exact Iff.rfl

theorem WordSizedItems.of_mem {items : List Value} (h : WordSizedItems items) {v : Value}
    (hv : v ∈ items) : v.WordSized :=
  wordSizedItems_iff.1 h v hv

theorem WordSizedEntries.of_mem {entries : Entries} (h : WordSizedEntries entries) {k : String}
    {v : Value} (hv : (k, v) ∈ entries) : v.WordSized := by
  induction entries with
  | nil => cases hv
  | cons e rest ih =>
    rcases List.mem_cons.1 hv with rfl | hv
    · exact h.1
    · exact ih h.2 hv

theorem wordSizedItems_reverse {items : List Value} (h : WordSizedItems items) :
    WordSizedItems items.reverse := by
  rw [wordSizedItems_iff] at h ⊢
  intro v hv
  exact h v (List.mem_reverse.1 hv)

theorem wordSizedEntries_put {key : String} {v : Value} {entries : Entries} (hv : v.WordSized)
    (h : WordSizedEntries entries) : WordSizedEntries (entries.put key v) := by
  induction entries with
  | nil => exact ⟨hv, trivial⟩
  | cons e rest ih =>
    obtain ⟨k, w⟩ := e
    unfold Entries.put
    split
    · exact ⟨hv, h.2⟩
    · exact ⟨h.1, ih h.2⟩

/-- A double is no whole number. -/
theorem wordSized_double (x : Binary64) : (number (.double x)).WordSized := trivial

end Value

theorem Entries.mem_of_get?_eq_some {key : String} {entries : Entries} {v : Value}
    (h : get? key entries = some v) : (key, v) ∈ entries := by
  induction entries with
  | nil => cases h
  | cons e rest ih =>
    obtain ⟨k, w⟩ := e
    by_cases hk : k = key
    · simp only [get?, hk, if_true, Option.some.injEq] at h
      rw [hk, h]
      exact List.mem_cons_self
    · simp only [get?, hk, if_false] at h
      exact List.mem_cons_of_mem _ (ih h)

theorem Value.WordSizedEntries.of_get? {entries : Entries} (h : WordSizedEntries entries)
    {key : String} {v : Value} (hv : Entries.get? key entries = some v) : v.WordSized :=
  h.of_mem (Entries.mem_of_get?_eq_some hv)

end ProcessTest
