import ProcessTest.Proofs.Document.Words
import ProcessTest.Yaml.Reader

/-!
# Whole numbers of YAML

A plain scalar is refused if it is a whole number that has no place in 64 bits, and so is a scalar
with the tag of whole numbers.  Collections only gather what their nodes come to, and an alias comes
to what a node with an anchor comes to.

* `wordSized_scalarValue?` — one scalar.
* `wordSized_value?` — one node, by induction on how deep collections may still be nested.
* `wordSized_read?` — the tree of a text.
-/

set_option autoImplicit false

namespace ProcessTest.Yaml

/-! ## Scalars -/

theorem wordSized_of_fitsWord {n : Int} (h : fitsWord n = true) :
    (Value.number (.int n)).WordSized := by
  simp only [fitsWord, Bool.and_eq_true, decide_eq_true_eq] at h
  exact h

theorem wordSized_realNumber? {cs : List Char} {v : Value} (h : realNumber? cs = some v) :
    v.WordSized := by
  unfold realNumber? at h
  split at h
  · cases h; exact trivial
  · obtain ⟨x, -, rfl⟩ := Option.map_eq_some_iff.1 h
    exact Value.wordSized_double x

theorem wordSized_realOrText (s : String) : (realOrText s).WordSized := by
  unfold realOrText
  split
  · exact trivial
  · cases h : realNumber? s.toList with
    | none => exact trivial
    | some v => exact wordSized_realNumber? h

theorem wordSized_plainValue {s : String} {v : Value} (h : plainValue s = .value v) :
    v.WordSized := by
  unfold plainValue at h
  split at h
  · cases h; exact trivial
  · split at h
    · cases h; exact trivial
    · split at h
      · split at h
        · rename_i hfits
          cases h
          exact wordSized_of_fitsWord hfits
        · split at h
          · cases h
          · cases h; exact wordSized_realOrText s
      · cases h; exact wordSized_realOrText s

theorem wordSized_taggedValue? {tag s : String} {v : Value} (h : taggedValue? tag s = some v) :
    v.WordSized := by
  unfold taggedValue? at h
  split at h
  · split at h
    · cases h; exact trivial
    · cases h
  · obtain ⟨b, -, rfl⟩ := Option.map_eq_some_iff.1 h
    exact trivial
  · obtain ⟨n, hn, rfl⟩ := Option.map_eq_some_iff.1 h
    exact wordSized_of_fitsWord (Option.filter_eq_some_iff.1 hn).2
  · exact wordSized_realNumber? h
  · cases h; exact trivial

theorem wordSized_scalarValue? {tag : Option String} {plain : Bool} {text : String} {v : Value}
    (h : scalarValue? tag plain text = some v) : v.WordSized := by
  unfold scalarValue? at h
  split at h
  · split at h
    · cases h
    · exact wordSized_taggedValue? h
  · split at h
    · split at h
      · rename_i hv
        cases h
        exact wordSized_plainValue hv
      · cases h
    · cases h; exact trivial

/-! ## Collections -/

/-- The reader gives word-sized values. -/
def GivesWords (value? : Nat → LinkedNode → Option (Value × Nat)) : Prop :=
  ∀ left n v rest, value? left n = some (v, rest) → v.WordSized

variable {anchored : Anchored} {value : Nat → LinkedNode → Option (Value × Nat)}

theorem wordSized_itemValues? (hv : GivesWords value) {left rest : Nat} {items : List LinkedNode}
    {vs : List Value} (h : itemValues? value left items = some (vs, rest)) :
    Value.WordSizedItems vs := by
  induction items generalizing left vs with
  | nil => cases h; exact trivial
  | cons n items ih =>
    obtain ⟨⟨v, left'⟩, hn, h⟩ := Option.bind_eq_some_iff.1 h
    obtain ⟨⟨ws, last⟩, hws, h⟩ := Option.bind_eq_some_iff.1 h
    cases h
    exact ⟨hv _ _ _ _ hn, ih hws⟩

theorem wordSized_entryValues? (hv : GivesWords value) {left rest : Nat}
    {entries : List (LinkedNode × LinkedNode)} {before es : Entries}
    (hb : Value.WordSizedEntries before)
    (h : entryValues? anchored value left before entries = some (es, rest)) :
    Value.WordSizedEntries es := by
  induction entries generalizing left before with
  | nil => cases h; exact hb
  | cons e entries ih =>
    obtain ⟨k, n⟩ := e
    obtain ⟨⟨scalar, left₁⟩, -, h⟩ := Option.bind_eq_some_iff.1 h
    obtain ⟨key, -, h⟩ := Option.bind_eq_some_iff.1 h
    obtain ⟨⟨v, left₂⟩, hn, h⟩ := Option.bind_eq_some_iff.1 h
    exact ih (Value.wordSizedEntries_put (hv _ _ _ _ hn) hb) h

theorem wordSized_value? (depth : Nat) : GivesWords (value? anchored depth) := by
  induction depth with
  | zero =>
    intro left n v rest h
    obtain ⟨⟨target, left'⟩, -, h⟩ := Option.bind_eq_some_iff.1 h
    simp only at h
    split at h
    · obtain ⟨w, hw, h⟩ := Option.map_eq_some_iff.1 h
      cases h
      exact wordSized_scalarValue? hw
    · cases h
  | succ depth ih =>
    intro left n v rest h
    obtain ⟨⟨target, left'⟩, -, h⟩ := Option.bind_eq_some_iff.1 h
    simp only at h
    split at h
    · cases h
    · obtain ⟨w, hw, h⟩ := Option.map_eq_some_iff.1 h
      cases h
      exact wordSized_scalarValue? hw
    · split at h
      · cases h
      · obtain ⟨⟨vs, last⟩, hvs, h⟩ := Option.bind_eq_some_iff.1 h
        cases h
        exact wordSized_itemValues? ih hvs
    · split at h
      · cases h
      · obtain ⟨⟨es, last⟩, hes, h⟩ := Option.bind_eq_some_iff.1 h
        cases h
        have hnil : Value.WordSizedEntries [] := trivial
        exact wordSized_entryValues? ih hnil hes

theorem wordSized_read? {s : String} {v : Value} (h : read? s = some v) : v.WordSized := by
  obtain ⟨spots, -, h⟩ := Option.bind_eq_some_iff.1 h
  obtain ⟨tokens, -, h⟩ := Option.bind_eq_some_iff.1 h
  obtain ⟨root, -, h⟩ := Option.bind_eq_some_iff.1 h
  cases root with
  | none => cases h; exact trivial
  | some root =>
    obtain ⟨linked, -, h⟩ := Option.bind_eq_some_iff.1 h
    obtain ⟨⟨w, left⟩, hw, rfl⟩ := Option.map_eq_some_iff.1 h
    exact wordSized_value? depthLimit _ _ _ _ hw

end ProcessTest.Yaml
