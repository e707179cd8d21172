import ProcessTest.Digest.Fingerprint
import ProcessTest.Proofs.Encoding.Lossless
import ProcessTest.Proofs.Json.Unique

/-!
# Fingerprints identify definitions

From the fingerprint back to the definition every step but the hash itself loses nothing: the
digits of the hash tell its bytes, the bytes of a text tell the text, the canonical text tells the
value tree, and the tree tells the definition that is written so.  That the hash loses nothing is
not assumed: where it does, two colliding inputs are at hand.

* `Digest.hash_eq_of_ofText` — equal digests are equal hashes.
* `Definition.canonical_injective` — definitions of one canonical text are equal.
* `Definition.eq_or_collides` — definitions of one fingerprint are equal, or the hash collides.
-/

set_option autoImplicit false

namespace ProcessTest

/-! ## Digests -/

/-- Two inputs of one hash. -/
structure Blake3.Collides (xs ys : List UInt8) : Prop where
  ne : xs ≠ ys
  hash_eq : hash xs = hash ys

namespace Digest

theorem hexDigit_inj {m n : Nat} (hm : m < 16) (hn : n < 16)
    (h : Json.hexDigit m = Json.hexDigit n) : m = n := by
  have hvalue := Json.hexValue?_hexDigit m hm
  rw [h, Json.hexValue?_hexDigit n hn] at hvalue
  exact (Option.some.inj hvalue).symm

theorem hexByte_injective : Function.Injective hexByte := by
  intro a b h
  have ha := a.toNat_lt
  have hb := b.toNat_lt
  obtain ⟨hhigh, hlow⟩ := List.cons.inj h
  have hdiv := hexDigit_inj (by omega) (by omega) hhigh
  have hmod := hexDigit_inj (by omega) (by omega) (List.cons.inj hlow).1
  exact UInt8.toNat_inj.1 (by omega)

theorem flatMap_hexByte_injective :
    Function.Injective fun bytes : List UInt8 => bytes.flatMap hexByte := by
  intro xs ys h
  induction xs generalizing ys with
  | nil =>
    cases ys with
    | nil => rfl
    | cons y ys => cases h
  | cons x xs ih =>
    cases ys with
    | nil => cases h
    | cons y ys =>
      have h : hexByte x ++ xs.flatMap hexByte = hexByte y ++ ys.flatMap hexByte := h
      obtain ⟨hbyte, hrest⟩ := List.append_inj h rfl
      rw [hexByte_injective hbyte, ih hrest]

/-- The digits of a digest tell the hash. -/
theorem hash_eq_of_ofText {s t : String} (h : ofText s = ofText t) :
    Blake3.hash s.toUTF8.toList = Blake3.hash t.toUTF8.toList := by
  have hchars := congrArg String.toList h
  simp only [ofText, String.toList_append, String.toList_ofList] at hchars
  exact flatMap_hexByte_injective (List.append_cancel_left hchars)

theorem toList_loop (bytes : ByteArray) (i : Nat) (acc : List UInt8) :
    ByteArray.toList.loop bytes i acc = acc.reverse ++ bytes.data.toList.drop i := by
  have hsize : bytes.data.toList.length = bytes.size := Array.length_toList
  induction hleft : bytes.size - i generalizing i acc with
  | zero =>
    rw [ByteArray.toList.loop, if_neg (by omega), List.drop_of_length_le (by omega),
      List.append_nil]
  | succ n ih =>
    have hlt : i < bytes.data.size := by
      rw [← Array.length_toList]
      omega
    have hdrop := List.drop_eq_getElem_cons (l := bytes.data.toList) (i := i) (by omega)
    have hget : bytes.get! i = bytes.data.toList[i] := getElem!_pos bytes.data i hlt
    rw [ByteArray.toList.loop, if_pos (by omega), ih _ _ (by omega), List.reverse_cons,
      List.append_assoc, hdrop, hget, List.singleton_append]

theorem toList_eq_data (bytes : ByteArray) : bytes.toList = bytes.data.toList := by
  rw [ByteArray.toList, toList_loop, List.reverse_nil, List.nil_append, List.drop_zero]

/-- The bytes of a text tell the text. -/
theorem utf8_injective : Function.Injective fun s : String => s.toUTF8.toList := by
  intro s t h
  simp only [toList_eq_data] at h
  exact String.toByteArray_inj.1 (ByteArray.ext (Array.toList_inj.1 h))

end Digest

/-! ## Definitions -/

namespace Definition

open Decode (map_eq_ok_iff)

variable {v w : Value} {a b : Definition}

/-- The canonical text tells the definition. -/
theorem eq_of_canonical (ha : decode v = .ok a) (hb : decode w = .ok b)
    (h : a.canonical = b.canonical) : a = b :=
  encode_injective ha hb (Value.json_injective h)

/-- **Fingerprints identify definitions**: definitions of one canonical text are equal, and those
of one fingerprint are equal unless their canonical texts are a collision of the hash. -/
theorem eq_or_collides (ha : decode v = .ok a) (hb : decode w = .ok b) :
    (a.canonical = b.canonical → a = b) ∧
      (a.fingerprint = b.fingerprint → a = b ∨
        Blake3.Collides a.canonical.toUTF8.toList b.canonical.toUTF8.toList) := by
  refine ⟨eq_of_canonical ha hb, fun h => ?_⟩
  by_cases hbytes : a.canonical.toUTF8.toList = b.canonical.toUTF8.toList
  · exact .inl (eq_of_canonical ha hb (Digest.utf8_injective hbytes))
  · exact .inr ⟨hbytes, Digest.hash_eq_of_ofText h⟩

/-- A shift of two people, in the given order. -/
def shiftDocument (people : List String) (more : Entries) : Value :=
  .map ([("id", .text "shift"), ("title", .text "A shift"),
    ("context", .map [("organization_id", .text "salon")]),
    ("personas", .map (people.map fun name => (name, .map [("role", .text "clerk")]))),
    ("steps", .list [.map [("id", .text "open"), ("persona", .text "ada"),
      ("actions", .list [.map [("type", .text "wait"), ("duration_ms", .number (.int 1))]])]])] ++
    more)

/-- An empty setup and a missing one are the same; people in another order are not. -/
theorem exists_canonical_shiftDocument :
    ∃ a b c, decode (shiftDocument ["ada", "bob"] []) = .ok a ∧
      decode (shiftDocument ["ada", "bob"] [("setup", .list [])]) = .ok b ∧
      decode (shiftDocument ["bob", "ada"] []) = .ok c ∧
      a.canonical = b.canonical ∧ a = b ∧ a ≠ c ∧ a.canonical ≠ c.canonical := by
  have hsame : (decode (shiftDocument ["ada", "bob"] [("setup", .list [])])).map encode =
      (decode (shiftDocument ["ada", "bob"] [])).map encode := by
    decide +kernel
  have hada : (decode (shiftDocument ["ada", "bob"] [])).map (·.personas.map Prod.fst) =
      .ok ["ada", "bob"] := by
    decide +kernel
  have hbob : (decode (shiftDocument ["bob", "ada"] [])).map (·.personas.map Prod.fst) =
      .ok ["bob", "ada"] := by
    decide +kernel
  obtain ⟨a, ha, hada⟩ := map_eq_ok_iff.1 hada
  obtain ⟨c, hc, hbob⟩ := map_eq_ok_iff.1 hbob
  rw [ha] at hsame
  obtain ⟨b, hb, hencode⟩ := map_eq_ok_iff.1 hsame
  have hcanonical : a.canonical = b.canonical := congrArg Value.json hencode.symm
  have hne : a ≠ c := by
    rintro rfl
    exact absurd (hada.symm.trans hbob) (by decide)
  exact ⟨a, b, c, ha, hb, hc, hcanonical, (eq_or_collides ha hb).1 hcanonical, hne,
    fun h => hne ((eq_or_collides ha hc).1 h)⟩

end Definition

end ProcessTest
