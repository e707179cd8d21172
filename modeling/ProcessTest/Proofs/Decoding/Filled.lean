import ProcessTest.Proofs.Encoding.Rows
import ProcessTest.Proofs.Template.Filling

/-!
# Filled parts can be read

What is written for a part of a definition can be read again after it has been filled, if its texts
have become what can be read as texts.  All other values are read as what they have become.

* `Reads` — when a filled part can be read, and as what.
* `Reads.bind`, `Reads.last` — a record, field by field; the texts of its fields add up.
* `Reads.requiredText`, `requiredAny`, `optionalText`, `optionalAny`, `optionalSteady`, `omitted` —
  single fields.
* `Reads.list`, `fields`, `transitions` — lists and maps.
-/

set_option autoImplicit false

namespace ProcessTest

open Decode Template

/-! ## Reading what has been filled -/

/-- A reading succeeds just where the texts of a part can be read as texts again, with the given
result. -/
def Reads {α : Type} (g : Filling) (b : Bindings) (x : Decoded α) (needed optional : List String)
    (a : α) : Prop :=
  ∀ y, x = .ok y ↔ g.fits b needed optional = true ∧ y = a

namespace Reads

variable {α β : Type} {g : Filling} {b : Bindings} {x : Decoded α} {a : α}
  {needed needed' optional optional' : List String}

theorem ok (a : α) : Reads g b (.ok a) [] [] a := by
  intro y
  simp [Filling.fits, eq_comm]

theorem of_eq (h : Reads g b x needed optional a) (hn : needed = needed')
    (ho : optional = optional') : Reads g b x needed' optional' a := by
  subst hn ho
  exact h

theorem bind {f : α → Decoded β} {c : β} (hx : Reads g b x needed optional a)
    (hf : Reads g b (f a) needed' optional' c) :
    Reads g b (x >>= f) (needed ++ needed') (optional ++ optional') c := by
  intro y
  rw [Filling.fits_append, bind_eq_ok_iff]
  constructor
  · rintro ⟨z, hz, hy⟩
    obtain ⟨hfits, rfl⟩ := (hx z).1 hz
    obtain ⟨hfits', rfl⟩ := (hf y).1 hy
    exact ⟨⟨hfits, hfits'⟩, rfl⟩
  · rintro ⟨⟨hfits, hfits'⟩, rfl⟩
    exact ⟨a, (hx a).2 ⟨hfits, rfl⟩, (hf y).2 ⟨hfits', rfl⟩⟩

/-- The last field of a record. -/
theorem last {f : α → β} (hx : Reads g b x needed optional a) :
    Reads g b (x >>= fun y => pure (f y)) needed optional (f a) :=
  (hx.bind (.ok (f a))).of_eq (List.append_nil _) (List.append_nil _)

theorem map (hx : Reads g b x needed optional a) (f : α → β) :
    Reads g b (x.map f) needed optional (f a) := by
  intro y
  rw [map_eq_ok_iff]
  constructor
  · rintro ⟨z, hz, rfl⟩
    obtain ⟨hfits, rfl⟩ := (hx z).1 hz
    exact ⟨hfits, rfl⟩
  · rintro ⟨hfits, rfl⟩
    exact ⟨a, (hx a).2 ⟨hfits, rfl⟩, rfl⟩

/-! ### Values -/

theorem text (s : String) : Reads g b (asText (g.tree b (.text s))) [s] [] (g.text b s) := by
  intro y
  simp only [Filling.fits, Filling.takes, Filling.text, List.all_cons, List.all_nil, Bool.and_true]
  cases g.tree b (.text s) with
  | text t => simp [asText, Value.text?, eq_comm]
  | _ => simp [asText, Value.text?]

theorem any (v : Value) : Reads g b (asIs v) [] [] v := .ok v

/-- A value without texts to fill is read as before. -/
theorem steady {read : Value → Decoded α} {v : Value} (hv : g.tree b v = v)
    (hread : read v = .ok a) : Reads g b (read (g.tree b v)) [] [] a := by
  rw [hv, hread]
  exact .ok a

section Lists

variable {read : Value → Decoded α} {write : α → Value} {fill : α → α}
  {neededOf optionalOf : α → List String}

theorem list {as : List α}
    (h : ∀ a ∈ as, Reads g b (read (g.tree b (write a))) (neededOf a) (optionalOf a) (fill a)) :
    Reads g b (asList read (g.tree b (.list (as.map write)))) (as.flatMap neededOf)
      (as.flatMap optionalOf) (as.map fill) := by
  rw [Filling.tree_list, asList]
  induction as with
  | nil => exact .ok []
  | cons a rest ih =>
    rw [List.forall_mem_cons] at h
    exact (h.1.bind ((ih h.2).bind (.ok (fill a :: rest.map fill)))).of_eq
      (by simp) (by simp)

/-- Any values under any keys. -/
theorem fields (es : Entries) :
    Reads g b (asMap asIs (g.tree b (.map es))) [] [] (g.entries b es) := by
  rw [Filling.tree_map, asMap]
  induction es with
  | nil => exact .ok []
  | cons e rest ih => exact (any (g.tree b e.2)).bind (ih.bind (.ok (g.entries b (e :: rest))))

theorem texts (ss : List String) :
    Reads g b (asList asText (g.tree b (Encode.texts ss))) ss [] (ss.map (g.text b)) :=
  (list fun s _ => text s).of_eq (List.flatMap_singleton' ss) (by simp)

/-- A table of transitions. -/
theorem transitions (rows : List (String × List String)) :
    Reads g b (asMap (asList asText) (g.tree b (Encode.map Encode.texts rows)))
      (rows.flatMap fun row => row.2) [] (rows.map fun row => (row.1, row.2.map (g.text b))) := by
  rw [Encode.map, Filling.tree_map, asMap]
  induction rows with
  | nil => exact .ok []
  | cons row rest ih =>
    exact ((texts row.2).bind (ih.bind (.ok ((row.1, row.2.map (g.text b)) ::
      rest.map fun row => (row.1, row.2.map (g.text b)))))).of_eq (by simp) rfl

end Lists

/-! ### Fields of a record -/

section Fields

variable {e : Entries} {name : String}

theorem required {read : Value → Decoded α} {v : Value} (he : Entries.get? name e = some v)
    (h : Reads g b (read (g.tree b v)) needed optional a) :
    Reads g b (Decode.required (g.entries b e) name read) needed optional a := by
  simp only [Decode.required, Filling.get?_entries, he, Option.map_some]
  exact h

theorem requiredText {s : String} (he : Entries.get? name e = some (.text s)) :
    Reads g b (Decode.required (g.entries b e) name asText) [s] [] (g.text b s) :=
  required he (text s)

theorem requiredAny {v : Value} (he : Entries.get? name e = some v) :
    Reads g b (Decode.required (g.entries b e) name asIs) [] [] (g.tree b v) :=
  required he (any _)

theorem optionalText {s : Option String} (he : Entries.get? name e = s.map .text) :
    Reads g b (Decode.optional (g.entries b e) name asText) [] s.toList (g.text? b s) := by
  intro y
  simp only [Decode.optional, Filling.get?_entries, he, Filling.fits, Filling.text?]
  cases s with
  | none => simp [eq_comm]
  | some s =>
    simp only [Option.map_some, Option.toList_some, List.all_cons, List.all_nil, Bool.and_true,
      Bool.true_and, Option.bind_some, Filling.allows, Filling.takes]
    cases g.tree b (.text s) with
    | text t => simp [asText, Value.text?, Except.map, eq_comm]
    -- What has become null is read as absent, so a text may become null where it may be missing.
    | null => simp [Value.text?, eq_comm]
    | _ => simp [asText, Value.text?, Except.map]

theorem optionalAny {v : Option Value} (he : Entries.get? name e = v.map id) :
    Reads g b (Decode.optional (g.entries b e) name asIs) [] [] (g.value? b v) := by
  intro y
  simp only [Decode.optional, Filling.get?_entries, he, Filling.fits, Filling.value?]
  cases v with
  | none => simp [eq_comm]
  | some v =>
    simp only [Option.map_some, id_eq, List.all_nil, Bool.and_true, true_and]
    cases g.tree b v <;> simp [asIs, Except.map, Option.filter, eq_comm]

theorem optionalSteady {read : Value → Decoded α} {write : α → Value} {a : Option α}
    (he : Entries.get? name e = a.map write)
    (h : ∀ x ∈ a, g.tree b (write x) = write x ∧ write x ≠ .null ∧ read (write x) = .ok x) :
    Reads g b (Decode.optional (g.entries b e) name read) [] [] a := by
  cases a with
  | none =>
    have hnone : Entries.get? name e = none := he
    simp only [Decode.optional, Filling.get?_entries, hnone, Option.map_none]
    exact .ok none
  | some x =>
    obtain ⟨htree, hnull, hread⟩ := h x rfl
    have hfilled : Entries.get? name (g.entries b e) = some (write x) := by
      rw [Filling.get?_entries, he, Option.map_some, Option.map_some, htree]
    rw [Validation.optional_of_some _ hfilled hnull hread]
    exact .ok (some x)

theorem defaulted {read : Value → Decoded α} {v : Value} {default : α}
    (h : Reads g b (read (g.tree b v)) needed optional a) (he : Entries.get? name e = some v) :
    Reads g b (Decode.defaulted (g.entries b e) name default read) needed optional a := by
  simp only [Decode.defaulted, Filling.get?_entries, he, Option.map_some]
  exact h

/-- A field that is left out where it has its default. -/
theorem omitted {read : Value → Decoded α} {v : Value} {default c : α}
    (h : Reads g b (read (g.tree b v)) needed optional c)
    (hempty : a = default →
      Entries.get? name e = none ∧ needed = [] ∧ optional = [] ∧ c = default)
    (hfull : a ≠ default → Entries.get? name e = some v) :
    Reads g b (Decode.defaulted (g.entries b e) name default read) needed optional c := by
  by_cases ha : a = default
  · obtain ⟨hnone, rfl, rfl, rfl⟩ := hempty ha
    simp only [Decode.defaulted, Filling.get?_entries, hnone, Option.map_none]
    exact .ok c
  · exact h.defaulted (hfull ha)

end Fields

end Reads

end ProcessTest
