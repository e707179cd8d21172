import ProcessTest.Json.Reader
import ProcessTest.Proofs.Number.Layout

/-!
# Unique readability of JSON texts

The text of a value on one line ends where the value ends: behind it stands a comma, a closing
bracket or nothing, and none of these continues a number.  So no text is that of two values.

* `quoted_append_inj` — a text in quotes ends at its closing quote.
* `compact_append_inj` — by the structure of the value, together with its items and entries.
* `Value.json_injective` — values of one text are equal, the order of map entries included.
-/

set_option autoImplicit false

namespace ProcessTest

namespace Json

variable {r s : List Char}

/-! ## Texts in quotes -/

theorem hexValue?_hexDigit : ∀ n < 16, Text.hexValue? (hexDigit n) = some n := by decide

/-- Reads one character of a text in quotes. -/
def unescape? : List Char → Option (Char × List Char)
  | '\\' :: 'u' :: '0' :: '0' :: high :: low :: rest => do
    pure (Char.ofNat (16 * (← Text.hexValue? high) + (← Text.hexValue? low)), rest)
  | '\\' :: c :: rest => (shortEscape? c).map (·, rest)
  | '"' :: _ => none
  | c :: rest => some (c, rest)
  | [] => none

theorem unescape?_escape (c : Char) (r : List Char) : unescape? (escape c ++ r) = some (c, r) := by
  unfold escape
  split_ifs with h₁ h₂ h₃ h₄ h₅ h₆ h₇ h₈
  · simp [unescape?, shortEscape?, h₁]
  · simp [unescape?, shortEscape?, h₂]
  · simp [unescape?, shortEscape?, h₃]
  · simp [unescape?, shortEscape?, h₄]
  · simp [unescape?, shortEscape?, h₅]
  · simp [unescape?, shortEscape?, h₆]
  · simp [unescape?, shortEscape?, h₇]
  · have hc : 16 * (c.toNat / 16) + c.toNat % 16 = c.toNat := Nat.div_add_mod _ _
    simp only [List.cons_append, List.nil_append, unescape?,
      hexValue?_hexDigit (c.toNat / 16) (by omega),
      hexValue?_hexDigit (c.toNat % 16) (by omega)]
    simp [hc]
  · simp only [List.cons_append, List.nil_append]
    unfold unescape?
    split <;> simp_all

theorem flatMap_escape_append_inj {cs ds : List Char}
    (h : cs.flatMap escape ++ '"' :: r = ds.flatMap escape ++ '"' :: s) : cs = ds ∧ r = s := by
  have hquote (r : List Char) : unescape? ('"' :: r) = none := rfl
  induction cs generalizing ds with
  | nil =>
    cases ds with
    | nil => exact ⟨rfl, (List.cons.inj h).2⟩
    | cons d ds =>
      have hread := congrArg unescape? h
      rw [List.flatMap_cons, List.append_assoc, unescape?_escape] at hread
      cases hread
  | cons c cs ih =>
    have hread := congrArg unescape? h
    rw [List.flatMap_cons, List.append_assoc, unescape?_escape] at hread
    cases ds with
    | nil => cases hread
    | cons d ds =>
      rw [List.flatMap_cons, List.append_assoc, unescape?_escape] at hread
      obtain ⟨rfl, hrest⟩ := Prod.mk.inj (Option.some.inj hread)
      obtain ⟨rfl, rfl⟩ := ih hrest
      exact ⟨rfl, rfl⟩

/-- A text in quotes ends at its closing quote. -/
theorem quoted_append_inj {k l : String} (h : quoted k ++ r = quoted l ++ s) : k = l ∧ r = s := by
  simp only [quoted, List.cons_append, List.append_assoc, List.nil_append, List.cons.injEq,
    true_and] at h
  obtain ⟨hchars, hrest⟩ := flatMap_escape_append_inj h
  exact ⟨String.toList_inj.1 hchars, hrest⟩

/-! ## Numbers -/

/-- What follows does not continue a number. -/
def EndsNumber (r : List Char) : Prop := ∀ c ∈ r.head?, isNumeral c = false

theorem takeWhile_number (n : Number) (hr : EndsNumber r) :
    (n.text.toList ++ r).takeWhile isNumeral = n.text.toList ∧
      (n.text.toList ++ r).dropWhile isNumeral = r :=
  Text.span_append (fun _ => Number.isNumeral_of_mem_text) hr

theorem number_append_inj {m n : Number} (hr : EndsNumber r) (hs : EndsNumber s)
    (h : m.text.toList ++ r = n.text.toList ++ s) : m = n ∧ r = s := by
  obtain ⟨htake, hdrop⟩ := takeWhile_number m hr
  obtain ⟨htake', hdrop'⟩ := takeWhile_number n hs
  rw [h] at htake hdrop
  exact ⟨Number.text_injective (String.toList_inj.1 (htake.symm.trans htake')),
    hdrop.symm.trans hdrop'⟩

/-! ## Values -/

/-- The form of a value that begins with a character: truth values begin with two letters, and
numbers with a digit or a sign. -/
def initial (c : Char) : Char := if c = 'f' then 't' else if isNumeral c then '0' else c

/-- The form of a value, as its text shows it. -/
def kind : Value → Char
  | .null => 'n'
  | .bool _ => 't'
  | .number _ => '0'
  | .text _ => '"'
  | .list _ => '['
  | .map _ => '{'

theorem exists_compact_eq (v : Value) : ∃ c cs, compact v = c :: cs ∧ initial c = kind v := by
  cases v with
  | null => exact ⟨'n', _, rfl, rfl⟩
  | bool b => cases b with
    | true => exact ⟨'t', _, rfl, rfl⟩
    | false => exact ⟨'f', _, rfl, rfl⟩
  | number n =>
    obtain ⟨c, cs, h⟩ := List.exists_cons_of_ne_nil n.toList_text_ne_nil
    have hc := Number.isNumeral_of_mem_text (h ▸ List.mem_cons_self : c ∈ n.text.toList)
    refine ⟨c, cs, h, ?_⟩
    rw [initial, if_neg, if_pos hc]
    · rfl
    · rintro rfl
      cases hc
  | text s => exact ⟨'"', _, rfl, rfl⟩
  | list items => exact ⟨'[', _, by rw [compact]; rfl, rfl⟩
  | map entries => exact ⟨'{', _, by rw [compact]; rfl, rfl⟩

theorem kind_eq {v w : Value} (h : compact v ++ r = compact w ++ s) : kind v = kind w := by
  obtain ⟨c, cs, hv, hkind⟩ := exists_compact_eq v
  obtain ⟨d, ds, hw, hkind'⟩ := exists_compact_eq w
  rw [hv, hw] at h
  obtain rfl := (List.cons.inj h).1
  exact hkind.symm.trans hkind'

theorem compact_append_ne {v : Value} : compact v ++ r ≠ ']' :: s := by
  intro h
  obtain ⟨c, cs, hv, hkind⟩ := exists_compact_eq v
  rw [hv] at h
  obtain rfl := (List.cons.inj h).1
  have hkind : ']' = kind v := hkind
  unfold kind at hkind
  split at hkind <;> cases hkind

/-- What follows an item of a list that goes on with the given items. -/
def afterItem : List Value → List Char → List Char
  | [], r => ']' :: r
  | v :: rest, r => ',' :: (compactItems (v :: rest) ++ ']' :: r)

theorem compactItems_cons (v : Value) (items : List Value) (r : List Char) :
    compactItems (v :: items) ++ ']' :: r = compact v ++ afterItem items r := by
  cases items with
  | nil => simp [compactItems, afterItem]
  | cons w items => simp [compactItems, afterItem]

theorem endsNumber_afterItem (items : List Value) (r : List Char) :
    EndsNumber (afterItem items r) := by
  rintro c hc
  cases items <;> cases hc <;> rfl

/-- What follows an entry of a map that goes on with the given entries. -/
def afterEntry : List (String × Value) → List Char → List Char
  | [], r => '}' :: r
  | e :: rest, r => ',' :: (compactEntries (e :: rest) ++ '}' :: r)

theorem compactEntries_cons (k : String) (v : Value) (entries : List (String × Value))
    (r : List Char) : compactEntries ((k, v) :: entries) ++ '}' :: r =
      quoted k ++ ':' :: (compact v ++ afterEntry entries r) := by
  cases entries with
  | nil => simp [compactEntries, afterEntry]
  | cons e entries => simp [compactEntries, afterEntry]

theorem endsNumber_afterEntry (entries : List (String × Value)) (r : List Char) :
    EndsNumber (afterEntry entries r) := by
  rintro c hc
  cases entries <;> cases hc <;> rfl

mutual

/-- The text of a value ends where the value ends. -/
theorem compact_append_inj {r s : List Char} (hr : EndsNumber r) (hs : EndsNumber s) :
    (v w : Value) → compact v ++ r = compact w ++ s → v = w ∧ r = s
  | .null, w, h => by
    have hkind := kind_eq h
    cases w with
    | null => exact ⟨rfl, List.append_cancel_left h⟩
    | _ => cases hkind
  | .bool b, w, h => by
    have hkind := kind_eq h
    cases w with
    | bool c =>
      cases b <;> cases c <;> first | exact ⟨rfl, List.append_cancel_left h⟩ | cases h
    | _ => cases hkind
  | .number m, w, h => by
    have hkind := kind_eq h
    cases w with
    | number n =>
      obtain ⟨rfl, rfl⟩ := number_append_inj hr hs h
      exact ⟨rfl, rfl⟩
    | _ => cases hkind
  | .text k, w, h => by
    have hkind := kind_eq h
    cases w with
    | text l =>
      obtain ⟨rfl, rfl⟩ := quoted_append_inj h
      exact ⟨rfl, rfl⟩
    | _ => cases hkind
  | .list xs, w, h => by
    have hkind := kind_eq h
    cases w with
    | list ys =>
      simp only [compact, List.cons_append, List.append_assoc, List.nil_append, List.cons.injEq,
        true_and] at h
      obtain ⟨rfl, rfl⟩ := compactItems_append_inj xs ys h
      exact ⟨rfl, rfl⟩
    | _ => cases hkind
  | .map es, w, h => by
    have hkind := kind_eq h
    cases w with
    | map fs =>
      simp only [compact, List.cons_append, List.append_assoc, List.nil_append, List.cons.injEq,
        true_and] at h
      obtain ⟨rfl, rfl⟩ := compactEntries_append_inj es fs h
      exact ⟨rfl, rfl⟩
    | _ => cases hkind

/-- A list ends at its closing bracket. -/
theorem compactItems_append_inj {r s : List Char} : (xs ys : List Value) →
    compactItems xs ++ ']' :: r = compactItems ys ++ ']' :: s → xs = ys ∧ r = s
  | [], [], h => ⟨rfl, (List.cons.inj h).2⟩
  | [], y :: ys, h => by
    rw [compactItems_cons] at h
    exact absurd h.symm compact_append_ne
  | x :: xs, [], h => by
    rw [compactItems_cons] at h
    exact absurd h compact_append_ne
  | x :: xs, y :: ys, h => by
    rw [compactItems_cons, compactItems_cons] at h
    obtain ⟨rfl, hafter⟩ :=
      compact_append_inj (endsNumber_afterItem xs r) (endsNumber_afterItem ys s) x y h
    cases xs with
    | nil =>
      cases ys with
      | nil => exact ⟨rfl, (List.cons.inj hafter).2⟩
      | cons y ys => cases hafter
    | cons x xs =>
      cases ys with
      | nil => cases hafter
      | cons y ys =>
        obtain ⟨hitems, hrest⟩ :=
          compactItems_append_inj (x :: xs) (y :: ys) (List.cons.inj hafter).2
        rw [hitems]
        exact ⟨rfl, hrest⟩

/-- A map ends at its closing brace. -/
theorem compactEntries_append_inj {r s : List Char} : (es fs : List (String × Value)) →
    compactEntries es ++ '}' :: r = compactEntries fs ++ '}' :: s → es = fs ∧ r = s
  | [], [], h => ⟨rfl, (List.cons.inj h).2⟩
  | [], (l, w) :: fs, h => by
    rw [compactEntries_cons] at h
    cases h
  | (k, v) :: es, [], h => by
    rw [compactEntries_cons] at h
    cases h
  | (k, v) :: es, (l, w) :: fs, h => by
    rw [compactEntries_cons, compactEntries_cons] at h
    obtain ⟨rfl, hvalue⟩ := quoted_append_inj h
    obtain ⟨rfl, hafter⟩ := compact_append_inj (endsNumber_afterEntry es r)
      (endsNumber_afterEntry fs s) v w (List.cons.inj hvalue).2
    cases es with
    | nil =>
      cases fs with
      | nil => exact ⟨rfl, (List.cons.inj hafter).2⟩
      | cons f fs => cases hafter
    | cons e es =>
      cases fs with
      | nil => cases hafter
      | cons f fs =>
        obtain ⟨hentries, hrest⟩ :=
          compactEntries_append_inj (e :: es) (f :: fs) (List.cons.inj hafter).2
        rw [hentries]
        exact ⟨rfl, hrest⟩

end

end Json

/-- **Values of one text are equal**, the order of map entries included. -/
theorem Value.json_injective : Function.Injective Value.json := by
  intro v w h
  have hnil : Json.EndsNumber [] := fun c hc => by cases hc
  have hchars := String.ofList_injective h
  rw [← List.append_nil (Json.compact v), ← List.append_nil (Json.compact w)] at hchars
  exact (Json.compact_append_inj hnil hnil v w hchars).1

end ProcessTest
