import ProcessTest.Document
import ProcessTest.Proofs.Json.Words
import ProcessTest.Proofs.Toml.Words
import ProcessTest.Proofs.Validation.Coverage
import ProcessTest.Proofs.Yaml.Words

/-!
# Texts without faults

The tree of a text has word-sized whole numbers whatever the format, which is all that the readers
of records ask of it beside the validator.

* `Format.wordSized_read?` — the tree of a text, in any of the formats.
* `Format.exists_parse_of_read?` — a text without faults becomes a definition.
-/

set_option autoImplicit false

namespace ProcessTest.Format

theorem wordSized_read? {format : Format} {text : String} {v : Value}
    (h : format.read? text = some v) : v.WordSized := by
  cases format with
  | yaml => exact Yaml.wordSized_read? h
  | json => exact Json.wordSized_read? h
  | toml => exact Toml.wordSized_read? h

/-- **From text to definition**: a text of any format that is a document without faults becomes a
definition, provided that its fiscal year fits 32 bits. -/
theorem exists_parse_of_read? {format : Format} {text : String} {v : Value}
    (h : format.read? text = some v) (hv : Validation.validate v = [])
    (hy : ∀ n, Validation.fiscalYear? v = some n → n ≤ Nat.pow 2 31 - 1) :
    ∃ d, Validation.parse v = .ok d := by
  obtain ⟨d, hd⟩ := Validation.succeeds_decode (wordSized_read? h) hv hy
  exact ⟨d, Validation.parse_eq_ok_iff.2 ⟨hv, hd⟩⟩

end ProcessTest.Format
