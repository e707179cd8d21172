import ProcessTest.Proofs.Template.Filling

/-!
# Texts that are one placeholder

Whether a text is one placeholder is read off its ends, while the walk ends a placeholder at the
first closing mark.  The two differ in a text with three braces at its end: the walk takes the last
one for verbatim text, the other reading takes the first one for the end of the key.  It matters
only if that key has a value, which a name with a brace at its end can bring about.

* `Value.mapTexts` — a tree with other values in place of its texts.
* `Overreads` — a text that is read with a brace in its key, and finds a value.
* `plain_value_eq_iff` — when the value of a text is, as a text, what the text is filled to.
* `resolveText_eq_iff` — a tree filled with texts is the tree filled with values, text by text,
  exactly if this is so for each of its texts.
-/

set_option autoImplicit false

namespace ProcessTest

/-! ## Trees by their texts -/

namespace Value

variable {f g : String → Value}

mutual

/-- The tree with other values in place of its texts.  Lists and maps keep their items and keys in
their order, and all other values stay. -/
def mapTexts (f : String → Value) : Value → Value
  | .text s => f s
  | .list items => .list (mapTextsItems f items)
  | .map entries => .map (mapTextsEntries f entries)
  | v => v

/-- Every item. -/
def mapTextsItems (f : String → Value) : List Value → List Value
  | [] => []
  | v :: rest => mapTexts f v :: mapTextsItems f rest

/-- The value of every entry. -/
def mapTextsEntries (f : String → Value) : List (String × Value) → List (String × Value)
  | [] => []
  | (k, v) :: rest => (k, mapTexts f v) :: mapTextsEntries f rest

end

open Template (texts textsOfItems textsOfEntries)

mutual

/-- Two trees with values in place of the same texts are equal if these are, text by text. -/
theorem mapTexts_inj : ∀ v, mapTexts f v = mapTexts g v ↔ ∀ s ∈ texts v, f s = g s
  | .null => by simp [mapTexts, texts]
  | .bool _ => by simp [mapTexts, texts]
  | .number _ => by simp [mapTexts, texts]
  | .text s => by simp [mapTexts, texts]
  | .list items => by simp [mapTexts, texts, mapTextsItems_inj items]
  | .map entries => by simp [mapTexts, texts, mapTextsEntries_inj entries]

theorem mapTextsItems_inj :
    ∀ vs, mapTextsItems f vs = mapTextsItems g vs ↔ ∀ s ∈ textsOfItems vs, f s = g s
  | [] => by simp [mapTextsItems, textsOfItems]
  | v :: rest => by
    rw [mapTextsItems, mapTextsItems, textsOfItems, List.forall_mem_append, List.cons.injEq,
      mapTexts_inj v, mapTextsItems_inj rest]

theorem mapTextsEntries_inj :
    ∀ es, mapTextsEntries f es = mapTextsEntries g es ↔ ∀ s ∈ textsOfEntries es, f s = g s
  | [] => by simp [mapTextsEntries, textsOfEntries]
  | (k, v) :: rest => by
    rw [mapTextsEntries, mapTextsEntries, textsOfEntries, List.forall_mem_append, List.cons.injEq,
      Prod.mk.injEq, mapTexts_inj v, mapTextsEntries_inj rest]
    simp

end

end Value

namespace Template

open Text (Single trim)

variable {b : Bindings} {s : String} {key : List Char} {v : Value}

mutual

/-- Both ways to fill a tree fill its texts one by one. -/
theorem Filling.tree_eq_mapTexts (g : Filling) (b : Bindings) :
    ∀ v, g.tree b v = v.mapTexts fun s => g.tree b (.text s)
  | .null => by cases g <;> rfl
  | .bool c => g.tree_bool b c
  | .number n => g.tree_number b n
  | .text _ => rfl
  | .list items => by rw [g.tree_list, g.items_eq_mapTexts b items, Value.mapTexts]
  | .map entries => by rw [g.tree_map, g.entries_eq_mapTexts b entries, Value.mapTexts]

theorem Filling.items_eq_mapTexts (g : Filling) (b : Bindings) :
    ∀ vs, vs.map (g.tree b) = Value.mapTextsItems (fun s => g.tree b (.text s)) vs
  | [] => rfl
  | v :: rest => by
    rw [List.map_cons, g.tree_eq_mapTexts b v, g.items_eq_mapTexts b rest, Value.mapTextsItems]

theorem Filling.entries_eq_mapTexts (g : Filling) (b : Bindings) :
    ∀ es, g.entries b es = Value.mapTextsEntries (fun s => g.tree b (.text s)) es
  | [] => rfl
  | (k, v) :: rest => by
    have hrest := g.entries_eq_mapTexts b rest
    unfold Filling.entries at hrest ⊢
    rw [List.map_cons, hrest, g.tree_eq_mapTexts b v, Value.mapTextsEntries]

end

/-! ## Keys with a brace at the end -/

/-- The text is a placeholder and a brace behind it, but its ends are those of one placeholder,
whose key has the brace at its end and names a value. -/
structure Overreads (b : Bindings) (s : String) (key : List Char) (v : Value) : Prop where
  text : s.toList = '{' :: '{' :: key ++ ['}', '}', '}']
  opening : Single '{' (key ++ ['}'])
  closing : Single '}' (key ++ ['}'])
  value : lookup? b (trim (key ++ ['}'])) = some v

theorem Overreads.value_eq (h : Overreads b s key v) : Template.value s b = v := by
  have hsole : sole? s = some (trim (key ++ ['}'])) :=
    sole?_eq_some_iff.2 ⟨key ++ ['}'], by rw [h.text]; simp, h.opening, h.closing, rfl⟩
  apply value_of_sole
  rw [hsole]
  exact h.value

/-- Such a text is filled without the last brace. -/
theorem Overreads.fill_eq (h : Overreads b s key v) :
    (fill s b).toList = filling (written b) key ++ ['}'] := by
  have htext : s.toList = '{' :: '{' :: key ++ ['}', '}'] ++ ['}'] := by
    rw [h.text]
    simp
  rw [Template.fill_eq, String.toList_ofList, htext, fillFrom_placeholder h.closing]
  rfl

/-- All other texts have, as texts, the value that they are filled to. -/
theorem plain_value_or (b : Bindings) (s : String) :
    (value s b).plain = fill s b ∨ ∃ key v, Overreads b s key v := by
  cases hsole : (sole? s).bind (lookup? b) with
  | none =>
    rw [value_of_no_sole hsole]
    exact .inl rfl
  | some v =>
    rw [value_of_sole hsole]
    obtain ⟨key, hkey, hv⟩ := Option.bind_eq_some_iff.1 hsole
    obtain ⟨inner, hs, hopen, hi, rfl⟩ := sole?_eq_some_iff.1 hkey
    obtain ⟨key, rest, heq, hk, ⟨rfl, rfl⟩ | ⟨rfl, rfl⟩⟩ := exists_placeholder_of_sole hi
    · left
      have hfilled : fillFrom (written b) none s.toList = filling (written b) key := by
        rw [hs, ← List.append_nil ('{' :: '{' :: key ++ ['}', '}']), fillFrom_placeholder hk,
          fillFrom, List.append_nil]
      rw [fill_eq, hfilled, filling, written, hv, Option.map_some, Option.getD_some,
        String.ofList_toList]
    · right
      exact ⟨key, v, by rw [hs]; simp, hopen, hk, hv⟩

/-- The two readings of a text come to the same text. -/
def Agrees (b : Bindings) (s : String) : Prop :=
  ∀ key v, Overreads b s key v → v.plain.toList = filling (written b) key ++ ['}']

/-- **The value of a text is, as a text, what the text is filled to**, unless it is read with a
brace in its key and finds another text that way. -/
theorem plain_value_eq_iff : (value s b).plain = fill s b ↔ Agrees b s := by
  constructor
  · intro h key v hover
    rw [← hover.fill_eq, ← h, hover.value_eq]
  · intro h
    rcases plain_value_or b s with heq | ⟨key, v, hover⟩
    · exact heq
    · rw [← String.toList_inj, hover.value_eq, h key v hover, hover.fill_eq]

/-- **Filling with texts follows filling with values, but for the texts that are misread.**  The
plain text of the value of a text is what the text is filled to exactly if its readings agree.  Both
ways to fill a tree put values in place of its texts and keep all else; the ways agree at every text
of the tree exactly if the readings of all its texts do. -/
theorem resolveText_eq_iff (b : Bindings) :
    (∀ s, (value s b).plain = fill s b ↔ Agrees b s) ∧
      ∀ v, resolve b v = v.mapTexts (fun s => value s b) ∧
        resolveText b v = v.mapTexts (fun s => .text (fill s b)) ∧
        (resolveText b v = v.mapTexts (fun s => .text (value s b).plain) ↔
          ∀ s ∈ texts v, Agrees b s) := by
  have htree : ∀ v, resolveText b v = v.mapTexts fun s => .text (fill s b) :=
    Filling.plain.tree_eq_mapTexts b
  refine ⟨fun s => plain_value_eq_iff, fun v => ⟨Filling.typed.tree_eq_mapTexts b v, htree v, ?_⟩⟩
  rw [htree v, Value.mapTexts_inj]
  refine forall₂_congr fun s _ => ?_
  rw [Value.text.injEq, eq_comm, plain_value_eq_iff]

/-- Two kinds of tea; the name of one ends in a brace. -/
def teas : Bindings :=
  (Bindings.empty.bind "tea" (.text "green")).bind "tea\x7d" (.text "black")

/-- A text whose value is not what it is filled to. -/
theorem plain_value_ne_fill :
    let s := "\x7b\x7btea\x7d\x7d\x7d"
    value s teas = .text "black" ∧ fill s teas = "green\x7d" ∧
      (value s teas).plain ≠ fill s teas := by
  decide +kernel

end Template

end ProcessTest
