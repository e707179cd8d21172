import ProcessTest.Proofs.Template.Filling

/-!
# Templates, piece by piece

A template is cut at the leftmost opening mark and the first closing mark behind it, and again
behind that.  It is filled piece by piece, in one pass.

* `flatMap_written_pieces` — the pieces of a text, one behind the other, are the text.
* `fillFrom_eq_flatMap`, `keysFrom_eq_filterMap` — filling and keys, piece by piece.
* `hasPlaceholder_iff` — a text has a placeholder if it has keys.
* `Scan.result_eq` — filling a text in place, round by round, comes to the same.
* `keysFrom_fillFrom` — the keys of what has been filled are those that have not resolved.
* `isSinglePass` — all this, for every template.
-/

set_option autoImplicit false

namespace ProcessTest.Template

open Text (Single trim)

variable {value? : List Char → Option (List Char)} {b : Bindings}
  {cs before inner key rest : List Char} {s : String}

/-! ## Pieces -/

namespace Piece

/-- A piece as it stands in the text. -/
def written : Piece → List Char
  | .verbatim cs => cs
  | .placeholder key => '{' :: '{' :: key ++ ['}', '}']

/-- The key of a placeholder, without the blanks around it. -/
def key? : Piece → Option String
  | .verbatim _ => none
  | .placeholder key => some (String.ofList (trim key))

/-- A piece once it is filled: a placeholder gives way to the value of its key, if it has one. -/
def filled (value? : List Char → Option (List Char)) : Piece → List Char
  | .verbatim cs => cs
  | .placeholder key => filling value? key

end Piece

theorem cut?_opening (hb : Single '{' (before ++ ['{'])) (inner : List Char) :
    Text.cut? ['{', '{'] (before ++ ('{' :: '{' :: inner)) = some (before, inner) :=
  Text.cut?_eq_some_iff.2 ⟨by simp, hb⟩

theorem cut?_closing (hk : Single '}' (key ++ ['}'])) (rest : List Char) :
    Text.cut? ['}', '}'] (key ++ ['}', '}'] ++ rest) = some (key, rest) :=
  Text.cut?_eq_some_iff.2 ⟨rfl, hk⟩

theorem pieces_verbatim (h : Single '{' cs) : pieces cs = [.verbatim cs] := by
  have hopen := Text.cut?_eq_none_iff.2 h
  unfold pieces
  grind

theorem pieces_unclosed (hb : Single '{' (before ++ ['{'])) (hi : Single '}' inner) :
    pieces (before ++ ('{' :: '{' :: inner)) = [.verbatim (before ++ ('{' :: '{' :: inner))] := by
  have hopen := cut?_opening hb inner
  have hclose := Text.cut?_eq_none_iff.2 hi
  unfold pieces
  grind

theorem pieces_placeholder (hb : Single '{' (before ++ ['{'])) (hk : Single '}' (key ++ ['}']))
    (rest : List Char) :
    pieces (before ++ ('{' :: '{' :: key ++ ['}', '}'] ++ rest)) =
      .verbatim before :: .placeholder key :: pieces rest := by
  have hopen := cut?_opening hb (key ++ ['}', '}'] ++ rest)
  have hclose := cut?_closing hk rest
  rw [pieces]
  grind

/-- **The pieces of a text, one behind the other, are the text.** -/
theorem flatMap_written_pieces (cs : List Char) : (pieces cs).flatMap Piece.written = cs := by
  induction layout cs with
  | verbatim h => simp [pieces_verbatim h, Piece.written]
  | unclosed hb hi => simp [pieces_unclosed hb hi, Piece.written]
  | placeholder hb hk hr ih =>
    rw [pieces_placeholder hb hk]
    simp [Piece.written, ih]

/-- **A text is filled piece by piece.** -/
theorem fillFrom_eq_flatMap (value? : List Char → Option (List Char)) (cs : List Char) :
    fillFrom value? none cs = (pieces cs).flatMap (Piece.filled value?) := by
  induction layout cs with
  | verbatim h => simp [pieces_verbatim h, fillFrom_verbatim h, Piece.filled]
  | unclosed hb hi =>
    simp [pieces_unclosed hb hi, fillFrom_append hb, fillFrom_unclosed hi, Piece.filled]
  | placeholder hb hk hr ih =>
    rw [pieces_placeholder hb hk, fillFrom_append hb, fillFrom_placeholder hk, ih]
    simp [Piece.filled]

/-- What follows a text without an opening brace outside its placeholders is filled on its own. -/
theorem fillFrom_append_closed (h : ∀ verbatim, .verbatim verbatim ∈ pieces cs → '{' ∉ verbatim)
    (ds : List Char) :
    fillFrom value? none (cs ++ ds) = fillFrom value? none cs ++ fillFrom value? none ds := by
  induction layout cs with
  | verbatim hs =>
    rw [pieces_verbatim hs] at h
    have hbrace := h _ (List.mem_singleton.2 rfl)
    rw [fillFrom_append (Text.single_append_of_not_mem hbrace), fillFrom_verbatim hs]
  | unclosed hb hi =>
    rw [pieces_unclosed hb hi] at h
    exact absurd (by simp) (h _ (List.mem_singleton.2 rfl))
  | placeholder hb hk hr ih =>
    rw [pieces_placeholder hb hk] at h
    have hrest := ih fun verbatim hmem =>
      h verbatim (List.mem_cons_of_mem _ (List.mem_cons_of_mem _ hmem))
    rw [List.append_assoc, List.append_assoc, fillFrom_append hb, fillFrom_append hb,
      fillFrom_placeholder hk, fillFrom_placeholder hk, hrest, List.append_assoc, List.append_assoc]

/-- **The keys of a text are those of its pieces.** -/
theorem keysFrom_eq_filterMap (cs : List Char) :
    keysFrom none cs = (pieces cs).filterMap Piece.key? := by
  induction layout cs with
  | verbatim h => simp [pieces_verbatim h, keysFrom_verbatim h, Piece.key?]
  | unclosed hb hi =>
    rw [pieces_unclosed hb hi, keysFrom_append hb, keysFrom_unclosed hi]
    simp [Piece.key?]
  | placeholder hb hk hr ih =>
    rw [pieces_placeholder hb hk, keysFrom_append hb, keysFrom_placeholder hk, ih]
    rfl

theorem mem_keys_iff {k : String} :
    k ∈ keys s ↔ ∃ key, .placeholder key ∈ pieces s.toList ∧ k = String.ofList (trim key) := by
  rw [keys, keysFrom_eq_filterMap, List.mem_filterMap]
  constructor
  · rintro ⟨_ | key, hpiece, hkey⟩
    · cases hkey
    · exact ⟨key, hpiece, (Option.some.inj hkey).symm⟩
  · rintro ⟨key, hpiece, rfl⟩
    exact ⟨_, hpiece, rfl⟩

/-- **A text has a placeholder if it has keys.** -/
theorem hasPlaceholder_iff : hasPlaceholder s = true ↔ keys s ≠ [] := by
  unfold hasPlaceholder keys
  generalize s.toList = cs
  cases layout cs with
  | verbatim h => simp [Text.cut?_eq_none_iff.2 h, keysFrom_verbatim h]
  | unclosed hb hi =>
    rw [cut?_opening hb, keysFrom_append hb, keysFrom_unclosed hi]
    simp [Text.holds_eq_false_iff.2 hi]
  | @placeholder before key rest hb hk hr =>
    have hopen := cut?_opening hb (key ++ ['}', '}'] ++ rest)
    have hclose : Text.holds ['}', '}'] (key ++ ['}', '}'] ++ rest) = true := by
      rw [Text.holds, cut?_closing hk]
      rfl
    rw [keysFrom_append hb, keysFrom_placeholder hk]
    simp only [List.cons_append] at hopen ⊢
    rw [hopen]
    exact iff_of_true hclose (List.cons_ne_nil _ _)

/-! ## Filling in place -/

/-- A text that is being filled in place, and where its unfilled rest starts. -/
structure Scan where
  text : List Char
  start : Nat

namespace Scan

/-- One round: the first placeholder of the rest gives way to its value and the rest starts behind
that, or it stays and the rest starts behind it.  There is no round without a placeholder. -/
def next? (value? : List Char → Option (List Char)) (s : Scan) : Option Scan := do
  let (before, inner) ← Text.cut? ['{', '{'] (s.text.drop s.start)
  let (key, _) ← Text.cut? ['}', '}'] inner
  let opening := s.start + before.length
  let closing := opening + key.length + 4
  match value? (trim key) with
  | some w => pure ⟨s.text.take opening ++ w ++ s.text.drop closing, opening + w.length⟩
  | none => pure { s with start := closing }

/-- The rest gets shorter with every round, however long the values are. -/
theorem rest_lt_of_next? {s later : Scan} (h : s.next? value? = some later) :
    later.text.length - later.start < s.text.length - s.start := by
  unfold next? at h
  obtain ⟨⟨before, inner⟩, hopen, h⟩ := Option.bind_eq_some_iff.1 h
  obtain ⟨⟨key, rest⟩, hclose, h⟩ := Option.bind_eq_some_iff.1 h
  have hlength := length_of_cut? hopen
  have hinner := length_of_cut? hclose
  simp only [List.length_cons, List.length_nil, List.length_drop] at hlength hinner
  dsimp only at h
  split at h
  · cases h
    simp only [List.length_append, List.length_take, List.length_drop]
    omega
  · cases h
    dsimp only
    omega

/-- The text after all rounds. -/
def result (value? : List Char → Option (List Char)) (s : Scan) : List Char :=
  match h : s.next? value? with
  | some later =>
    have := rest_lt_of_next? h
    later.result value?
  | none => s.text
termination_by s.text.length - s.start

theorem result_of_none {s : Scan} (h : s.next? value? = none) : s.result value? = s.text := by
  rw [result]
  split
  · rename_i hnext
    rw [h] at hnext
    cases hnext
  · rfl

theorem result_of_some {s later : Scan} (h : s.next? value? = some later) :
    s.result value? = later.result value? := by
  rw [result]
  split
  · rename_i hnext
    rw [h] at hnext
    cases hnext
    rfl
  · rename_i hnext
    rw [h] at hnext
    cases hnext

/-- A text whose front is filled, up to where the rest starts. -/
def behind (front rest : List Char) : Scan := ⟨front ++ rest, front.length⟩

theorem drop_behind (front rest : List Char) :
    (behind front rest).text.drop (behind front rest).start = rest :=
  List.drop_left

/-- A round fills what stands up to the end of the first placeholder. -/
theorem next?_placeholder (front : List Char) (hb : Single '{' (before ++ ['{']))
    (hk : Single '}' (key ++ ['}'])) (rest : List Char) :
    (behind front (before ++ ('{' :: '{' :: key ++ ['}', '}'] ++ rest))).next? value? =
      some (behind (front ++ before ++ filling value? key) rest) := by
  have hopen := cut?_opening hb (key ++ ['}', '}'] ++ rest)
  have htake : (front ++ (before ++ ('{' :: '{' :: key ++ ['}', '}'] ++ rest))).take
      (front.length + before.length) = front ++ before := by
    rw [← List.append_assoc]
    exact List.take_left' List.length_append
  have hdrop : (front ++ (before ++ ('{' :: '{' :: key ++ ['}', '}'] ++ rest))).drop
      (front.length + before.length + key.length + 4) = rest := by
    rw [← List.append_assoc, ← List.append_assoc]
    exact List.drop_left' (by simp; omega)
  unfold next?
  rw [drop_behind]
  simp only [List.cons_append] at hopen htake hdrop ⊢
  rw [hopen]
  simp only [Option.bind_eq_bind, Option.bind_some]
  rw [cut?_closing hk]
  simp only [Option.bind_some, behind, filling]
  cases hw : value? (trim key) with
  | some w =>
    simp only [htake, hdrop, Option.getD_some, List.length_append]
    rfl
  | none =>
    simp only [Option.getD_none]
    simp
    omega

/-- **Filling in place comes to the same as filling in one walk.** -/
theorem result_eq (front cs : List Char) :
    (behind front cs).result value? = front ++ fillFrom value? none cs := by
  induction layout cs generalizing front with
  | @verbatim cs h =>
    have hnone : (behind front cs).next? value? = none := by
      unfold next?
      rw [drop_behind, Text.cut?_eq_none_iff.2 h]
      rfl
    rw [result_of_none hnone, fillFrom_verbatim h]
    rfl
  | @unclosed before inner hb hi =>
    have hnone : (behind front (before ++ ('{' :: '{' :: inner))).next? value? = none := by
      unfold next?
      rw [drop_behind, cut?_opening hb]
      simp only [Option.bind_eq_bind, Option.bind_some]
      rw [Text.cut?_eq_none_iff.2 hi]
      rfl
    rw [result_of_none hnone, fillFrom_append hb, fillFrom_unclosed hi]
    rfl
  | placeholder hb hk hr ih =>
    rw [result_of_some (next?_placeholder front hb hk _), ih, fillFrom_append hb,
      fillFrom_placeholder hk]
    simp only [List.append_assoc]

end Scan

/-! ## Filling again -/

/-- **The keys of what has been filled are those that have not resolved**, if nothing that has been
put in opens a placeholder. -/
theorem keysFrom_fillFrom (hbrace : ∀ key, String.ofList key ∈ keysFrom none cs →
    ∀ w, value? key = some w → '{' ∉ w) :
    keysFrom none (fillFrom value? none cs) =
      (keysFrom none cs).filter fun key => (value? key.toList).isNone := by
  induction layout cs with
  | verbatim h => simp [fillFrom_verbatim h, keysFrom_verbatim h]
  | unclosed hb hi =>
    rw [fillFrom_append hb, fillFrom_unclosed hi, keysFrom_append hb, keysFrom_unclosed hi]
    rfl
  | @placeholder before key rest hb hk hr ih =>
    rw [keysFrom_append hb, keysFrom_placeholder hk] at hbrace ⊢
    have hbehind := ih fun more hmem => hbrace more (List.mem_cons_of_mem _ hmem)
    rw [fillFrom_append hb, fillFrom_placeholder hk, keysFrom_append hb]
    unfold filling
    cases hw : value? (trim key) with
    | none =>
      rw [Option.getD_none, keysFrom_placeholder hk, hbehind, List.filter_cons_of_pos]
      rw [String.toList_ofList, hw]
      rfl
    | some w =>
      have hopen := Text.single_append_of_not_mem (hbrace _ List.mem_cons_self w hw)
      rw [Option.getD_some, keysFrom_append hopen, hbehind, List.filter_cons_of_neg]
      rw [String.toList_ofList, hw]
      exact Bool.false_ne_true

/-- A template is filled in a single pass over its pieces. -/
structure IsSinglePass (b : Bindings) (s : String) : Prop where
  /-- The pieces are the text. -/
  cut : (pieces s.toList).flatMap Piece.written = s.toList
  /-- Placeholders give way to their values, and all else is verbatim. -/
  filled : (fill s b).toList = (pieces s.toList).flatMap (Piece.filled (written b))
  /-- Round after round in place comes to the same. -/
  inPlace : (Scan.mk s.toList 0).result (written b) = (fill s b).toList
  keys : keys s = (pieces s.toList).filterMap Piece.key?
  hasPlaceholder : hasPlaceholder s = true ↔ Template.keys s ≠ []
  /-- If no value opens a placeholder, the keys without a value are left, and nothing is filled any
  more. -/
  again : (∀ key ∈ Template.keys s, ∀ v, lookup? b key.toList = some v → '{' ∉ v.plain.toList) →
    Template.keys (fill s b) =
        (Template.keys s).filter (fun key => (lookup? b key.toList).isNone) ∧
      fill (fill s b) b = fill s b

/-- **Every template is filled in a single pass.** -/
theorem isSinglePass (b : Bindings) (s : String) : IsSinglePass b s where
  cut := flatMap_written_pieces s.toList
  filled := by rw [fill_eq, String.toList_ofList, fillFrom_eq_flatMap]
  inPlace := by
    rw [fill_eq, String.toList_ofList]
    exact Scan.result_eq [] s.toList
  keys := keysFrom_eq_filterMap s.toList
  hasPlaceholder := hasPlaceholder_iff
  again := by
    intro hvalues
    have hbrace : ∀ key, String.ofList key ∈ keysFrom none s.toList →
        ∀ w, written b key = some w → '{' ∉ w := by
      intro key hkey w hw
      obtain ⟨v, hv, rfl⟩ := Option.map_eq_some_iff.1 hw
      exact hvalues _ hkey v (by rwa [String.toList_ofList])
    constructor
    · unfold Template.keys
      rw [fill_eq, String.toList_ofList, keysFrom_fillFrom hbrace]
      simp only [written, Option.isNone_map]
    · rw [fill_eq (fill s b), fill_eq s, String.toList_ofList,
        fillFrom_fillFrom fun key hkey w hw => ⟨hbrace key hkey w hw, hw⟩]

/-- What is bound when a guest is greeted. -/
def guest : Bindings :=
  Bindings.empty.bind "customer" (.map [("name", .text "Jane \x7d\x7d")])

/-- A greeting with an order that is not there yet. -/
def greeting : String :=
  "Dear \x7b\x7b customer.name \x7d\x7d\x7d, \x7b\x7border.id\x7d\x7d \x7b\x7bis open"

theorem fill_greeting :
    fill greeting guest =
      "Dear Jane \x7d\x7d\x7d, \x7b\x7border.id\x7d\x7d \x7b\x7bis open" ∧
    keys (fill greeting guest) = ["order.id"] ∧
    fill (fill greeting guest) guest = fill greeting guest := by
  have hfill : fill greeting guest =
      "Dear Jane \x7d\x7d\x7d, \x7b\x7border.id\x7d\x7d \x7b\x7bis open" := by decide +kernel
  have hkeys : keys greeting = ["customer.name", "order.id"] := by decide +kernel
  have hname : lookup? guest "customer.name".toList = some (.text "Jane \x7d\x7d") := by
    decide +kernel
  have horder : lookup? guest "order.id".toList = none := by decide +kernel
  have hvalues : ∀ key ∈ keys greeting, ∀ v, lookup? guest key.toList = some v →
      '{' ∉ v.plain.toList := by
    rw [hkeys]
    intro key hkey v hv
    rcases List.mem_pair.1 hkey with rfl | rfl
    · rw [hname] at hv
      cases hv
      decide
    · rw [horder] at hv
      cases hv
  obtain ⟨hleft, hfilled⟩ := (isSinglePass guest greeting).again hvalues
  exact ⟨hfill, hleft.trans (by decide +kernel), hfilled⟩

end ProcessTest.Template
