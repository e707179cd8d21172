import ProcessTest.Proofs.Template.Walk

/-!
# Two ways to fill a tree

A tree is filled with values, where a text that is one placeholder becomes the value itself, or with
texts only.  Both ways keep the shape of the tree, its numbers and the names without placeholders.

* `Filling.tree` — the filled tree; `tree_map`, `get?_entries` and `tree_list` — its shape.
* `Filling.text`, `text?`, `value?` — the fields of a record, once filled.
* `Filling.fits` — what its texts become can be read as texts again.
-/

set_option autoImplicit false

namespace ProcessTest

/-- Rewriting the values of a map keeps its keys. -/
theorem Entries.get?_map (f : Value → Value) (key : String) (es : Entries) :
    Entries.get? key (es.map fun e => (e.1, f e.2)) = (Entries.get? key es).map f := by
  induction es with
  | nil => rfl
  | cons e rest ih =>
    by_cases hk : e.1 = key
    · simp [Entries.get?, hk]
    · simp [Entries.get?, hk, ih]

namespace Template

variable {b : Bindings} {s : String} {v : Value}

/-! ## One text -/

/-- What a key puts into a text. -/
def written (b : Bindings) (key : List Char) : Option (List Char) :=
  (lookup? b key).map (·.plain.toList)

theorem fill_eq (s : String) (b : Bindings) :
    fill s b = String.ofList (fillFrom (written b) none s.toList) := rfl

theorem fill_of_keys_eq_nil (h : keys s = []) : fill s b = s := by
  rw [fill, fillFrom_of_keysFrom_eq_nil h, String.ofList_toList]

theorem value_of_sole (h : (sole? s).bind (lookup? b) = some v) : value s b = v := by
  unfold value
  rw [h]
  rfl

theorem value_of_no_sole (h : (sole? s).bind (lookup? b) = none) :
    value s b = .text (fill s b) := by
  unfold value
  rw [h]
  rfl

/-- Text without keys is filled already. -/
theorem value_of_keys_eq_nil (h : keys s = []) : value s b = .text s := by
  have hsole : (sole? s).bind (lookup? b) = none := by
    rw [sole?_eq_none_of_keys_eq_nil h]
    rfl
  rw [value_of_no_sole hsole, fill_of_keys_eq_nil h]

/-! ## Trees -/

theorem resolveItems_eq_map (b : Bindings) (vs : List Value) :
    resolveItems b vs = vs.map (resolve b) := by
  induction vs with
  | nil => rfl
  | cons v rest ih => rw [resolveItems, ih, List.map_cons]

theorem resolveEntries_eq_map (b : Bindings) (es : Entries) :
    resolveEntries b es = es.map fun e => (e.1, resolve b e.2) := by
  induction es with
  | nil => rfl
  | cons e rest ih => rw [resolveEntries, ih, List.map_cons]

theorem resolveTextItems_eq_map (b : Bindings) (vs : List Value) :
    resolveTextItems b vs = vs.map (resolveText b) := by
  induction vs with
  | nil => rfl
  | cons v rest ih => rw [resolveTextItems, ih, List.map_cons]

theorem resolveTextEntries_eq_map (b : Bindings) (es : Entries) :
    resolveTextEntries b es = es.map fun e => (e.1, resolveText b e.2) := by
  induction es with
  | nil => rfl
  | cons e rest ih => rw [resolveTextEntries, ih, List.map_cons]

/-- The two ways to fill a tree. -/
inductive Filling where
  /-- A text that is one placeholder becomes the value itself. -/
  | typed
  /-- Every text stays a text. -/
  | plain
  deriving DecidableEq

namespace Filling

/-- The filled tree. -/
def tree : Filling → Bindings → Value → Value
  | .typed => resolve
  | .plain => resolveText

/-- The filled entries of a map. -/
def entries (g : Filling) (b : Bindings) (es : Entries) : Entries :=
  es.map fun e => (e.1, g.tree b e.2)

section Shape

variable (g : Filling) (b : Bindings)

theorem tree_map (es : Entries) : g.tree b (.map es) = .map (g.entries b es) := by
  cases g with
  | typed => exact congrArg Value.map (resolveEntries_eq_map b es)
  | plain => exact congrArg Value.map (resolveTextEntries_eq_map b es)

theorem tree_list (vs : List Value) : g.tree b (.list vs) = .list (vs.map (g.tree b)) := by
  cases g with
  | typed => exact congrArg Value.list (resolveItems_eq_map b vs)
  | plain => exact congrArg Value.list (resolveTextItems_eq_map b vs)

/-- Filling keeps the keys of a map. -/
theorem get?_entries (key : String) (es : Entries) :
    Entries.get? key (g.entries b es) = (Entries.get? key es).map (g.tree b) :=
  Entries.get?_map (g.tree b) key es

theorem tree_number (n : Number) : g.tree b (.number n) = .number n := by
  cases g <;> rfl

theorem tree_bool (c : Bool) : g.tree b (.bool c) = .bool c := by
  cases g <;> rfl

/-- A name without placeholders stays as it is. -/
theorem tree_text_of_keys_eq_nil (h : keys s = []) : g.tree b (.text s) = .text s := by
  cases g with
  | typed => exact value_of_keys_eq_nil h
  | plain => exact congrArg Value.text (fill_of_keys_eq_nil h)

/-- So does a name of a kind in a map. -/
theorem get?_entries_of_keys_eq_nil {key : String} {es : Entries}
    (he : Entries.get? key es = some (.text s)) (h : keys s = []) :
    Entries.get? key (g.entries b es) = some (.text s) := by
  rw [get?_entries, he, Option.map_some, tree_text_of_keys_eq_nil g b h]

end Shape

/-! ## Fields of a record -/

section Fields

variable (g : Filling) (b : Bindings)

/-- The text that a text becomes. -/
def text (s : String) : String := (g.tree b (.text s)).text?.getD (fill s b)

/-- The text of an optional field; what has become null is absent. -/
def text? (s : Option String) : Option String := s.bind fun s => (g.tree b (.text s)).text?

/-- The value of an optional field; what has become null is absent. -/
def value? (v : Option Value) : Option Value := (v.map (g.tree b)).filter (· ≠ .null)

/-- Whether a text becomes a text. -/
def takes (s : String) : Bool := (g.tree b (.text s)).text?.isSome

/-- Whether a text becomes a text or null. -/
def allows (s : String) : Bool := g.takes b s || g.tree b (.text s) = .null

/-- Whether the texts of a record can be read as texts again: those that must be there, and those
that may be missing. -/
def fits (needed optional : List String) : Bool :=
  needed.all (g.takes b) && optional.all (g.allows b)

end Fields

theorem fits_plain (b : Bindings) (needed optional : List String) :
    plain.fits b needed optional = true := by
  have htakes : ∀ s, plain.takes b s = true := fun _ => rfl
  simp [fits, allows, htakes]

@[simp] theorem fits_append (g : Filling) (b : Bindings) (needed needed' optional optional' :
    List String) : g.fits b (needed ++ needed') (optional ++ optional') = true ↔
      g.fits b needed optional = true ∧ g.fits b needed' optional' = true := by
  simp only [fits, List.all_append, Bool.and_eq_true]
  tauto

end Filling

end Template

end ProcessTest
