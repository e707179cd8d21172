import ProcessTest.Proofs.Artifact.Quoting
import ProcessTest.Proofs.Text.Cut
import ProcessTest.Proofs.Text.Digits

/-!
# Tokens that nothing escapes from

However a text is quoted, SQL reads the token up to its end and no further, and takes the text
from it.

* `readString?`, `readName?` — how SQL reads a string literal and a name.
* `readString?_quoted`, `readName?_enclosed`, `readName?_bare` — what was written is read, and what
  follows is left.
* `toLower_eq_of_isBare` — a name without quotes is in lower case.
* `sealed_tokens` — all this for every text; so no two texts have the same token.
-/

set_option autoImplicit false

namespace ProcessTest.Artifact.Sql

variable {cs rest more : List Char} {c quote : Char} {s t : String}

/-! ## Reading tokens -/

/-- The text of the string literal in front, and what follows it. -/
def readString? : List Char → Option (List Char × List Char)
  | '\'' :: rest => unquote? '\'' rest
  | _ => none

/-- The characters that begin a name without quotes. -/
def startsName (c : Char) : Bool := c.isAlpha || c == '_' || 128 ≤ c.toNat

/-- The characters that go on with a name without quotes. -/
def continuesName (c : Char) : Bool := startsName c || c.isDigit || c == '$'

/-- The name in front, and what follows it.  In quotes a name stands as it is written; without
them it goes on as long as it can, and its letters count as small ones. -/
def readName? : List Char → Option (List Char × List Char)
  | [] => none
  | c :: rest =>
    if c = '"' then unquote? '"' rest
    else if startsName c then
      some ((c :: rest.takeWhile continuesName).map Char.toLower, rest.dropWhile continuesName)
    else none

/-! ## Tokens in quotes -/

theorem readString?_quoted (h : rest.head? ≠ some '\'') (s : String) :
    readString? ((quoted s).toList ++ rest) = some (s.toList, rest) := by
  unfold quoted
  rw [toList_enclosed, List.cons_append, List.append_assoc]
  exact unquote?_doubled h s.toList

theorem readName?_enclosed (h : rest.head? ≠ some '"') (s : String) :
    readName? ((enclosed '"' s).toList ++ rest) = some (s.toList, rest) := by
  rw [toList_enclosed, List.cons_append, List.append_assoc, readName?, if_pos rfl]
  exact unquote?_doubled h s.toList

/-! ## Names without quotes -/

theorem startsName_of_isLead (h : isLead c = true) : startsName c = true := by
  unfold isLead at h
  unfold startsName Char.isAlpha
  rcases Bool.or_eq_true_iff.1 h with h | h
  · simp [h]
  · simp [h]

theorem continuesName_of_isBare (h : (isLead c || c.isDigit) = true) :
    continuesName c = true := by
  unfold continuesName
  rcases Bool.or_eq_true_iff.1 h with h | h
  · simp [startsName_of_isLead h]
  · simp [h]

theorem isLower_iff : c.isLower = true ↔ 97 ≤ c.val.toNat ∧ c.val.toNat ≤ 122 :=
  Bool.and_eq_true_iff.trans (and_congr (decide_eq_true_iff.trans UInt32.le_iff_toNat_le)
    (decide_eq_true_iff.trans UInt32.le_iff_toNat_le))

/-- What is no capital letter stays as it is in lower case. -/
theorem toLower_eq_of_isBare (h : (isLead c || c.isDigit) = true) : c.toLower = c := by
  unfold Char.toLower
  apply dif_neg
  rintro ⟨hlow, hhigh⟩
  have hlow : 65 ≤ c.val.toNat := UInt32.le_iff_toNat_le.1 hlow
  have hhigh : c.val.toNat ≤ 90 := UInt32.le_iff_toNat_le.1 hhigh
  rcases Bool.or_eq_true_iff.1 h with h | hdigit
  · rcases Bool.or_eq_true_iff.1 h with hlower | hline
    · have := (isLower_iff.1 hlower).1
      omega
    · have hvalue : c.val.toNat = 95 := by rw [beq_iff_eq.1 hline]; rfl
      omega
  · have := (Text.isDigit_iff.1 hdigit).2
    omega

theorem exists_of_isBare (h : isBare cs = true) :
    ∃ c rest, cs = c :: rest ∧ isLead c = true ∧
      ∀ d ∈ cs, (isLead d || d.isDigit) = true := by
  cases cs with
  | nil => cases h
  | cons c rest =>
    obtain ⟨hc, hrest⟩ := Bool.and_eq_true_iff.1 h
    refine ⟨c, rest, rfl, hc, List.forall_mem_cons.2 ⟨?_, List.all_eq_true.1 hrest⟩⟩
    rw [hc]
    rfl

theorem map_toLower_of_isBare (h : isBare cs = true) : cs.map Char.toLower = cs := by
  obtain ⟨-, -, -, -, hall⟩ := exists_of_isBare h
  exact (List.map_congr_left fun d hd => toLower_eq_of_isBare (hall d hd)).trans (List.map_id' cs)

/-- A name without quotes is read, unless a character follows that goes on with it. -/
theorem readName?_bare (h : isBare cs = true)
    (hrest : ∀ c ∈ rest.head?, continuesName c = false) :
    readName? (cs ++ rest) = some (cs, rest) := by
  have hlower := map_toLower_of_isBare h
  obtain ⟨c, ds, rfl, hc, hall⟩ := exists_of_isBare h
  have hquote : c ≠ '"' := by
    rintro rfl
    cases hc
  have hcontinues : ∀ d ∈ ds, continuesName d = true :=
    fun d hd => continuesName_of_isBare (hall d (List.mem_cons_of_mem c hd))
  obtain ⟨htake, hdrop⟩ := Text.span_append hcontinues hrest
  rw [List.cons_append, readName?, if_neg hquote, if_pos (startsName_of_isLead hc), htake, hdrop,
    hlower]

/-! ## All texts -/

/-- What can follow a name of either kind. -/
def EndsName (rest : List Char) : Prop :=
  ∀ c ∈ rest.head?, c ≠ '"' ∧ continuesName c = false

theorem identifier_of_isBare (h : isBare s.toList = true) : identifier s = s := if_pos h

theorem identifier_of_not_isBare (h : isBare s.toList ≠ true) : identifier s = enclosed '"' s :=
  if_neg h

/-- A name is in quotes exactly if it is not a plain one. -/
theorem head?_identifier (s : String) :
    (identifier s).toList.head? = some '"' ↔ isBare s.toList ≠ true := by
  by_cases h : isBare s.toList = true
  · rw [identifier_of_isBare h]
    obtain ⟨c, rest, hs, hc, -⟩ := exists_of_isBare h
    refine iff_of_false (fun hhead => ?_) (not_not_intro h)
    rw [hs] at hhead
    cases hhead
    cases hc
  · rw [identifier_of_not_isBare h, toList_enclosed]
    exact iff_of_true rfl h

theorem readName?_identifier (h : EndsName rest) (s : String) :
    readName? ((identifier s).toList ++ rest) = some (s.toList, rest) := by
  by_cases hs : isBare s.toList = true
  · rw [identifier_of_isBare hs]
    exact readName?_bare hs fun c hc => (h c hc).2
  · rw [identifier_of_not_isBare hs]
    exact readName?_enclosed (fun hc => (h _ hc).1 rfl) s

/-- A name in lower case that needs no quotes. -/
structure IsPlainName (cs : List Char) : Prop where
  ne_nil : cs ≠ []
  lower : ∀ c ∈ cs, c.isLower = true ∨ c.isDigit = true ∨ c = '_'
  head : ∀ c ∈ cs.head?, c.isDigit = false
  folded : cs.map Char.toLower = cs

theorem isPlainName_of_isBare (h : isBare cs = true) : IsPlainName cs := by
  have hfolded := map_toLower_of_isBare h
  obtain ⟨c, rest, rfl, hc, hall⟩ := exists_of_isBare h
  refine ⟨List.cons_ne_nil c rest, fun d hd => ?_, fun d hd => ?_, hfolded⟩
  · rcases Bool.or_eq_true_iff.1 (hall d hd) with hlead | hdigit
    · exact (Bool.or_eq_true_iff.1 hlead).imp_right fun h => .inr (beq_iff_eq.1 h)
    · exact .inr (.inl hdigit)
  · cases hd
    rcases Bool.or_eq_true_iff.1 hc with hlower | hline
    · have := (isLower_iff.1 hlower).1
      rw [Bool.eq_false_iff, Ne, Text.isDigit_iff]
      omega
    · rw [beq_iff_eq.1 hline]
      rfl

/-- In the literal of a list or of a map, its JSON text stands in quotes. -/
theorem readString?_literal {v : Value}
    (h : (∃ items, v = .list items) ∨ ∃ entries, v = .map entries) (rest : List Char) :
    readString? ((literal v).toList ++ rest) = some (v.json.toList, "::jsonb".toList ++ rest) := by
  have hliteral : literal v = quoted v.json ++ "::jsonb" := by
    rcases h with ⟨items, rfl⟩ | ⟨entries, rfl⟩ <;> rfl
  rw [hliteral, String.toList_append, List.append_assoc]
  exact readString?_quoted (by simp) v.json

/-- The tokens of a text: they are read up to their end and no further, and give the text. -/
structure Sealed (s : String) : Prop where
  literal : ∀ rest, rest.head? ≠ some '\'' →
    readString? ((quoted s).toList ++ rest) = some (s.toList, rest)
  /-- A name in quotes. -/
  quotedName : (identifier s).toList.head? = some '"' → ∀ rest, rest.head? ≠ some '"' →
    readName? ((identifier s).toList ++ rest) = some (s.toList, rest)
  /-- A name without quotes. -/
  plainName : (identifier s).toList.head? ≠ some '"' → identifier s = s ∧ IsPlainName s.toList
  name : ∀ rest, EndsName rest → readName? ((identifier s).toList ++ rest) = some (s.toList, rest)
  /-- No other literal has this one in front, unless a quote follows. -/
  literal_unique : ∀ t rest more, rest.head? ≠ some '\'' → more.head? ≠ some '\'' →
    (quoted s).toList ++ rest = (quoted t).toList ++ more → s = t ∧ rest = more
  name_unique : ∀ t rest more, EndsName rest → EndsName more →
    (identifier s).toList ++ rest = (identifier t).toList ++ more → s = t ∧ rest = more

theorem literal_unique (hrest : rest.head? ≠ some '\'') (hmore : more.head? ≠ some '\'')
    (h : (quoted s).toList ++ rest = (quoted t).toList ++ more) : s = t ∧ rest = more := by
  have hread := readString?_quoted hrest s
  rw [h, readString?_quoted hmore t] at hread
  simpa [String.toList_inj, eq_comm] using hread

theorem name_unique (hrest : EndsName rest) (hmore : EndsName more)
    (h : (identifier s).toList ++ rest = (identifier t).toList ++ more) : s = t ∧ rest = more := by
  have hread := readName?_identifier hrest s
  rw [h, readName?_identifier hmore t] at hread
  simpa [String.toList_inj, eq_comm] using hread

theorem sealed_text (s : String) : Sealed s where
  literal := fun _ h => readString?_quoted h s
  quotedName := by
    intro h rest hrest
    rw [identifier_of_not_isBare ((head?_identifier s).1 h)]
    exact readName?_enclosed hrest s
  plainName := by
    intro h
    have hbare : isBare s.toList = true :=
      Decidable.of_not_not fun hno => h ((head?_identifier s).2 hno)
    exact ⟨identifier_of_isBare hbare, isPlainName_of_isBare hbare⟩
  name := fun _ h => readName?_identifier h s
  literal_unique := fun _ _ _ hrest hmore h => literal_unique hrest hmore h
  name_unique := fun _ _ _ hrest hmore h => name_unique hrest hmore h

/-- **Nothing escapes from its token**: whatever the text is, its literal and its name are read
back, and so is the text of a tree's literal.  No two texts have the same token. -/
theorem sealed_tokens : (∀ s, Sealed s) ∧
    (∀ v : Value, ((∃ items, v = .list items) ∨ ∃ entries, v = .map entries) → ∀ rest,
      readString? ((literal v).toList ++ rest) = some (v.json.toList, "::jsonb".toList ++ rest)) ∧
    Function.Injective quoted ∧ Function.Injective identifier := by
  refine ⟨sealed_text, fun v hv => readString?_literal hv, fun s t h => ?_, fun s t h => ?_⟩
  · have hend : ([] : List Char).head? ≠ some '\'' := nofun
    exact (literal_unique hend hend (by rw [h])).1
  · have hend : EndsName [] := nofun
    exact (name_unique hend hend (by rw [h])).1

end ProcessTest.Artifact.Sql
