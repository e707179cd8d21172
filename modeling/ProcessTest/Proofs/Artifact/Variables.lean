import ProcessTest.Artifact.DatabaseChecks
import ProcessTest.Proofs.Artifact.Expression
import ProcessTest.Proofs.Artifact.Settled
import ProcessTest.Proofs.Decoding.Success
import ProcessTest.Validation.Checker

/-!
# Variables of database checks

A result of the run that a condition refers to is not known when the script is written, so it has
to become a variable.  It does where the condition's value is a text.  Inside a list or a map its
placeholder stays in the literal, and keys that differ only in case and in punctuation share one
variable.

* `Sql.keysFrom_operands` — a text expression has no placeholder.
* `infix_compact` — the JSON of a tree shows every text of the tree.
* `predicates_eq`, `lines_eq` — the predicates and the variables of a script.
* `Alike`, `variableOf_eq_iff` — the keys that share a variable.
* `refers` — when each result that a check refers to has a variable of its own.
* `exists_merged_variables` — a document that was parsed in which not.
-/

set_option autoImplicit false

namespace ProcessTest.Artifact

open Text (Single)
open Decode (bind_eq_ok_iff)
open Template (Piece pieces keys keysFrom hasPlaceholder texts textsOfItems textsOfEntries resolve
  resolveEntries)

/-! ## No placeholder in an expression -/

namespace Sql

variable {a quote : Char} {cs ds : List Char}

theorem doubled_append (quote : Char) (cs ds : List Char) :
    doubled quote (cs ++ ds) = doubled quote cs ++ doubled quote ds := by
  induction cs with
  | nil => rfl
  | cons c cs ih =>
    rw [List.cons_append, doubled, doubled, ih]
    split <;> rfl

/-- A quote that is written twice does not double any other character. -/
theorem single_doubled (hquote : quote ≠ a) (h : Single a cs) : Single a (doubled quote cs) := by
  induction cs with
  | nil => exact h
  | cons c cs ih =>
    obtain ⟨hc, hcs⟩ := Text.single_cons.1 h
    have hrest := ih hcs
    unfold doubled
    split
    · exact Text.single_cons.2 ⟨fun heq => absurd heq hquote,
        Text.single_cons.2 ⟨fun heq => absurd heq hquote, hrest⟩⟩
    · refine Text.single_cons.2 ⟨fun heq => ?_, hrest⟩
      cases cs with
      | nil =>
        intro hhead
        cases hhead
      | cons d cs =>
        have hd := hc heq
        unfold doubled
        split
        · simpa using hquote
        · exact hd

/-- No mark begins in a literal whose text begins none, whatever follows it. -/
theorem single_quoted (h : Single '{' (cs ++ ['{'])) (hds : Single '{' ds) :
    Single '{' ((quoted (String.ofList cs)).toList ++ ds) := by
  rw [toList_quoted, String.toList_ofList, List.cons_append, List.append_assoc,
    List.singleton_append]
  refine Text.single_cons.2 ⟨fun heq => absurd heq (by decide), ?_⟩
  exact (Text.single_append_cons_iff (by decide)).2
    ⟨single_doubled (by decide) h.of_append.1, hds⟩

theorem single_reference (key : List Char) (hds : Single '{' ds) :
    Single '{' ((":" ++ quoted (variableOf key)).toList ++ ds) := by
  have hname : ∀ c ∈ (variableOf key).toList, c ≠ '{' ∧ c ≠ '\'' := by
    intro c hc
    have hpart := isNamePart_of_mem_variableOf hc
    constructor <;> (rintro rfl; revert hpart; decide)
  have hquote : '\'' ∉ (variableOf key).toList := fun hmem => (hname _ hmem).2 rfl
  have hbrace : '{' ∉ ':' :: '\'' :: (variableOf key).toList := by
    simp only [List.mem_cons, not_or]
    exact ⟨by decide, by decide, fun hmem => (hname _ hmem).1 rfl⟩
  have hsplit : (":" ++ quoted (variableOf key)).toList ++ ds =
      (':' :: '\'' :: (variableOf key).toList) ++ '\'' :: ds := by
    rw [String.toList_append, toList_quoted, doubled_of_not_mem hquote]
    simp
  rw [hsplit, Text.single_append_cons_iff (by decide)]
  exact ⟨(Text.single_append_of_not_mem hbrace).of_append.1, hds⟩

/-- The operands with operators between them. -/
def joined (operands : List String) : List Char := (" || ".intercalate operands).toList

theorem keysFrom_joined_cons {o : String} (h : ∀ {ds}, Single '{' ds → Single '{' (o.toList ++ ds))
    (os : List String) : keysFrom none (joined (o :: os)) = keysFrom none (joined os) := by
  cases os with
  | nil =>
    have hsingle : Single '{' o.toList := by
      have hnil : Single '{' (o.toList ++ []) := h List.isChain_nil
      rwa [List.append_nil] at hnil
    rw [joined, String.intercalate_singleton, Template.keysFrom_verbatim hsingle]
    rfl
  | cons p os =>
    have hsingle : Single '{' (o.toList ++ " || ".toList ++ ['{']) := by
      rw [List.append_assoc]
      exact h (Text.single_append_of_not_mem (by decide))
    unfold joined
    rw [String.intercalate_cons_cons, String.toList_append, String.toList_append,
      Template.keysFrom_append hsingle]

theorem joined_quoted (cs : List Char) :
    joined [quoted (String.ofList cs)] = '\'' :: (doubled '\'' cs ++ ['\'']) := by
  rw [joined, String.intercalate_singleton, toList_quoted, String.toList_ofList]

theorem operands_verbatim (h : cs ≠ []) (ps : List Piece) :
    operands (.verbatim cs :: ps) = quoted (String.ofList cs) :: operands ps := by
  cases cs with
  | nil => exact absurd rfl h
  | cons c cs => rw [operands]; nofun

/-- **A text expression has no placeholder.** -/
theorem keysFrom_operands (cs : List Char) :
    keysFrom none (joined (operands (pieces cs))) = [] := by
  induction Template.layout cs with
  | @verbatim cs h =>
    rw [Template.pieces_verbatim h]
    by_cases hcs : cs = []
    · rw [hcs]
      rfl
    · rw [operands_verbatim hcs]
      refine Template.keysFrom_verbatim ((congrArg (Single '{') (joined_quoted cs)).mpr ?_)
      exact Text.single_cons.2 ⟨fun heq => absurd heq (by decide),
        (Text.single_append_cons_iff (by decide)).2
          ⟨single_doubled (by decide) h, List.isChain_nil⟩⟩
  | @unclosed before inner hb hi =>
    have hopening : doubled '\'' (before ++ '{' :: '{' :: inner) ++ ['\''] =
        doubled '\'' before ++ '{' :: '{' :: (doubled '\'' inner ++ ['\'']) := by
      rw [doubled_append, List.append_assoc]
      rfl
    have hbefore : Single '{' ('\'' :: doubled '\'' before ++ ['{']) := by
      refine Text.single_cons.2 ⟨fun heq => absurd heq (by decide), ?_⟩
      have hne : '\'' ≠ '{' := by decide
      have hdoubled := single_doubled hne hb
      rwa [doubled_append] at hdoubled
    have hinner : Single '}' (doubled '\'' inner ++ ['\'']) :=
      (Text.single_append_cons_iff (by decide)).2 ⟨single_doubled (by decide) hi, List.isChain_nil⟩
    rw [Template.pieces_unclosed hb hi, operands_verbatim (by simp), operands, joined_quoted,
      hopening, ← List.cons_append, Template.keysFrom_append hbefore,
      Template.keysFrom_unclosed hinner]
  | @placeholder before key rest hb hk hr ih =>
    rw [Template.pieces_placeholder hb hk]
    have href : keysFrom none (joined (operands (.placeholder key :: pieces rest))) = [] := by
      rw [operands, keysFrom_joined_cons (single_reference key), ih]
    cases before with
    | nil => rwa [operands]
    | cons c before => rw [operands, keysFrom_joined_cons (single_quoted hb), href]; nofun

end Sql

/-! ## The literal of a tree -/

theorem infix_doubled {quote : Char} {cs ds : List Char} (h : cs <:+: ds) :
    Sql.doubled quote cs <:+: Sql.doubled quote ds := by
  obtain ⟨before, behind, rfl⟩ := h
  rw [Sql.doubled_append, Sql.doubled_append]
  exact List.infix_append _ _ _

mutual

/-- **The JSON of a tree shows every text of the tree.** -/
theorem infix_compact {s : String} :
    ∀ v : Value, s ∈ texts v → s.toList.flatMap Json.escape <:+: Json.compact v
  | .null, h => nomatch h
  | .bool _, h => nomatch h
  | .number _, h => nomatch h
  | .text t, h => by
    cases List.mem_singleton.1 h
    exact ⟨['"'], ['"'], rfl⟩
  | .list items, h => (infix_compactItems items h).trans (List.infix_append ['['] _ [']'])
  | .map entries, h => (infix_compactEntries entries h).trans (List.infix_append ['{'] _ ['}'])

theorem infix_compactItems {s : String} : ∀ items : List Value, s ∈ textsOfItems items →
    s.toList.flatMap Json.escape <:+: Json.compactItems items
  | [], h => nomatch h
  | [v], h => infix_compact v (by simpa [textsOfItems] using h)
  | v :: w :: rest, h => by
    rw [Json.compactItems]
    rcases List.mem_append.1 h with h | h
    · exact (infix_compact v h).trans (List.prefix_append _ _).isInfix
    · exact (infix_compactItems (w :: rest) h).trans
        ((List.suffix_cons _ _).trans (List.suffix_append _ _)).isInfix
    · nofun

theorem infix_compactEntries {s : String} : ∀ entries : Entries, s ∈ textsOfEntries entries →
    s.toList.flatMap Json.escape <:+: Json.compactEntries entries
  | [], h => nomatch h
  | [(k, v)], h => by
    have hv := infix_compact v (by simpa [textsOfEntries] using h)
    exact hv.trans ((List.suffix_cons _ _).trans (List.suffix_append _ _)).isInfix
  | (k, v) :: entry :: rest, h => by
    rw [Json.compactEntries]
    rcases List.mem_append.1 h with h | h
    · refine (infix_compact v h).trans (List.IsInfix.trans ?_ (List.prefix_append _ _).isInfix)
      exact ((List.suffix_cons _ _).trans (List.suffix_append _ _)).isInfix
    · exact (infix_compactEntries (entry :: rest) h).trans
        ((List.suffix_cons _ _).trans (List.suffix_append _ _)).isInfix
    · nofun

end

/-! ## Conditions -/

namespace DatabaseChecks

open Sql (doubled variableOf variablesOf)

variable {b : Bindings} {used : List String} {v : Value} {key l : List Char} {s : String}

/-- What follows the column in the predicate of a condition, by its filled value. -/
def comparison : Value → String
  | .null => " IS NULL"
  | .text s =>
    if hasPlaceholder s then " = " ++ " || ".intercalate (Sql.operands (pieces s.toList))
    else " = " ++ Sql.quoted s
  | v => " = " ++ Sql.literal v

/-- The keys that become variables: those of a text. -/
def referencesOf : Value → List String
  | .text s => keys s
  | _ => []

/-- The predicate of a filled condition. -/
def written (condition : String × Value) : String :=
  Sql.identifier condition.1 ++ comparison condition.2

theorem predicate_eq (b : Bindings) (used : List String) (condition : String × Value) :
    predicate b used condition = (written (condition.1, resolve b condition.2),
      Template.addNew used (variablesOf (referencesOf (resolve b condition.2)))) := by
  unfold predicate written
  cases resolve b condition.2 with
  | text s =>
    by_cases h : hasPlaceholder s = true
    · simp only [h, if_true, comparison, Sql.snd_expression, referencesOf, String.append_assoc]
      rfl
    · have hkeys : keys s = [] := by
        by_contra hne
        exact h (Template.hasPlaceholder_iff.2 hne)
      simp [h, comparison, referencesOf, hkeys, variablesOf, Template.addNew, String.append_assoc]
      rfl
  | _ => simp [comparison, referencesOf, variablesOf, Template.addNew, String.append_assoc]; rfl

theorem addNew_addNew (seen more later : List String) :
    Template.addNew (Template.addNew seen more) later = Template.addNew seen (more ++ later) := by
  unfold Template.addNew
  rw [List.foldl_append]

/-- The keys of filled conditions that become variables. -/
def referencesIn (conditions : Entries) : List String := conditions.flatMap (referencesOf ·.2)

theorem predicates_eq (b : Bindings) (used : List String) (conditions : Entries) :
    predicates b used conditions = ((resolveEntries b conditions).map written,
      Template.addNew used (variablesOf (referencesIn (resolveEntries b conditions)))) := by
  induction conditions generalizing used with
  | nil => rfl
  | cons condition rest ih =>
    rw [predicates, predicate_eq]
    simp only [ih, addNew_addNew, resolveEntries, referencesIn, List.map_cons, List.flatMap_cons,
      variablesOf, List.map_append]

/-- A predicate is a line of a restriction that begins before it. -/
def Stands (predicate : String) (lines : List String) : Prop :=
  s!"      AND {predicate}" ∈ lines ∨ s!"      AND {predicate})," ∈ lines

theorem Stands.mono {predicate : String} {lines more : List String} (h : Stands predicate lines)
    (hmore : lines ⊆ more) : Stands predicate more :=
  h.imp (@hmore _) (@hmore _)

theorem stands_restriction {p : String} {ps : List String} (h : p ∈ ps) :
    Stands p (restriction "      AND" ps) := by
  induction ps with
  | nil => cases h
  | cons q qs ih =>
    cases qs with
    | nil =>
      cases List.mem_singleton.1 h
      exact .inr List.mem_cons_self
    | cons next qs =>
      rcases List.mem_cons.1 h with rfl | h
      · exact .inl List.mem_cons_self
      · exact (ih h).mono (List.subset_cons_self _ _)

theorem stands_countLines {organization table : String} {description : Option String}
    {conditions : Entries} {expected : Nat} {c : String × Value}
    (h : c ∈ resolveEntries b conditions) :
    Stands (written c)
      (countLines b organization used description table conditions expected).1 := by
  have hmem : written c ∈ (predicates b used conditions).1 := by
    rw [predicates_eq]
    exact List.mem_map_of_mem h
  have hrest : Stands (written c) (restriction "    WHERE"
      (s!"organization_id = {Sql.quoted organization}" :: (predicates b used conditions).1)) := by
    cases hlines : (predicates b used conditions).1 with
    | nil =>
      rw [hlines] at hmem
      cases hmem
    | cons p ps =>
      rw [hlines] at hmem
      exact (stands_restriction hmem).mono (List.subset_cons_self _ _)
  refine hrest.mono fun line hline => ?_
  exact List.mem_append_left _ (List.mem_append_right _ hline)

/-- The conditions of a check. -/
def conditionsOf (a : Assertion) : Entries :=
  match a.check with
  | .database _ conditions _ => conditions
  | _ => []

theorem resolveEntries_append (b : Bindings) (conditions more : Entries) :
    resolveEntries b (conditions ++ more) =
      resolveEntries b conditions ++ resolveEntries b more := by
  simp only [Template.resolveEntries_eq_map, List.map_append]

theorem counts_eq {organization : String} {assertions : List Assertion}
    {found : List (List String)} {names : List String}
    (h : counts b organization used assertions = .ok (found, names)) :
    (∀ c ∈ resolveEntries b (assertions.flatMap conditionsOf), Stands (written c) found.flatten) ∧
      names = Template.addNew used
        (variablesOf (referencesIn (resolveEntries b (assertions.flatMap conditionsOf)))) := by
  induction assertions generalizing used found names with
  | nil =>
    cases h
    exact ⟨nofun, rfl⟩
  | cons a rest ih =>
    obtain ⟨description, check⟩ := a
    cases check with
    | database table conditions expected =>
      unfold counts at h
      split at h
      · cases h
      · simp only [bind_eq_ok_iff] at h
        obtain ⟨⟨more, names'⟩, hmore, h⟩ := h
        cases h
        obtain ⟨hstands, hnames⟩ := ih hmore
        rw [List.flatMap_cons, resolveEntries_append]
        constructor
        · intro c hc
          rw [List.flatten_cons]
          rcases List.mem_append.1 hc with hc | hc
          · exact (stands_countLines hc).mono (List.subset_append_left _ _)
          · exact (hstands c hc).mono (List.subset_append_right _ _)
        · have hused : (countLines b organization used description table conditions expected).2 =
              Template.addNew used (variablesOf (referencesIn (resolveEntries b conditions))) := by
            unfold countLines
            simp only [predicates_eq]
          rw [hnames, hused, addNew_addNew]
          simp only [referencesIn, variablesOf, List.flatMap_append, List.map_append]
          rfl
    | _ => exact ih h

variable {d : Definition} {script : List String}

/-- The conditions of all checks, filled with what the setting gives. -/
def conditions (d : Definition) : Entries :=
  resolveEntries d.bindings (d.assertions.flatMap conditionsOf)

/-- The keys that become variables, in the order of the document. -/
def references (d : Definition) : List String := referencesIn (conditions d)

/-- The line that names the variables to be passed. -/
def header (names : List String) : String :=
  "-- Requires psql variables (pass with -v name=value): " ++ ", ".intercalate names

theorem lines_eq (h : lines d = .ok script) :
    (∀ c ∈ conditions d, Stands (written c) script) ∧
      (references d ≠ [] → header (variablesOf (references d)).eraseDups ∈ script) := by
  simp only [lines, bind_eq_ok_iff] at h
  obtain ⟨⟨found, names⟩, hcounts, h⟩ := h
  cases h
  obtain ⟨hstands, hnames⟩ := counts_eq hcounts
  constructor
  · intro c hc
    refine (hstands c hc).mono fun line hline => ?_
    refine List.mem_append_left _ (List.mem_append_right _ ?_)
    cases found with
    | nil => cases hline
    | cons first rest => exact List.mem_cons_of_mem _ hline
  · intro hne
    have hdistinct : names = (variablesOf (references d)).eraseDups := by
      rw [hnames, Sql.addNew_eq]
      simp
      rfl
    have hnonempty : names.isEmpty = false := by
      obtain ⟨k, hk⟩ := List.exists_mem_of_ne_nil _ hne
      have hmem : variableOf k.toList ∈ names := by
        rw [hnames]
        exact Template.mem_addNew.2 (.inr (List.mem_map_of_mem hk))
      exact List.isEmpty_eq_false_iff_exists_mem.2 ⟨_, hmem⟩
    rw [← hdistinct, hnonempty]
    refine List.mem_append_left _ (List.mem_append_left _ (List.mem_append_left _ ?_))
    exact List.mem_append_right _ List.mem_cons_self

/-! ## Placeholders that are left -/

/-- Whether SQL shows a placeholder, as it stands in a text or in the JSON of one. -/
def Shows (sql : String) (key : List Char) : Prop :=
  doubled '\'' (Piece.placeholder key).written <:+: sql.toList ∨
    doubled '\'' ((Piece.placeholder key).written.flatMap Json.escape) <:+: sql.toList

/-- In a text without keys no closing mark follows an opening one. -/
theorem not_infix_of_keys_eq_nil (h : keys s = []) (inner : List Char) :
    ¬ '{' :: '{' :: (inner ++ ['}', '}']) <:+: s.toList := by
  rintro ⟨before, behind, hs⟩
  have hmarks : s.toList = before ++ ['{', '{'] ++ (inner ++ ['}', '}'] ++ behind) := by
    rw [← hs]
    simp
  refine Template.hasPlaceholder_iff.1 ?_ h
  cases hcut : Text.cut? ['{', '{'] s.toList with
  | none =>
    refine absurd ?_ (Text.cut?_eq_none_iff_absent.1 hcut)
    rw [hmarks]
    exact List.infix_append _ _ _
  | some parts =>
    obtain ⟨front, rest⟩ := parts
    have hrest : inner ++ ['}', '}'] ++ behind <:+ rest := by
      rw [hmarks] at hcut
      exact Text.suffix_of_cut? (List.cons_ne_nil _ _) hcut
    unfold hasPlaceholder
    rw [hcut]
    exact Text.holds_iff_occurs.2 ((List.infix_append _ _ _).trans hrest.isInfix)

theorem doubled_written (key : List Char) :
    doubled '\'' (Piece.placeholder key).written =
      '{' :: '{' :: (doubled '\'' key ++ ['}', '}']) := by
  simp [Piece.written, doubled, Sql.doubled_append]

theorem doubled_escaped (key : List Char) :
    doubled '\'' ((Piece.placeholder key).written.flatMap Json.escape) =
      '{' :: '{' :: (doubled '\'' (key.flatMap Json.escape) ++ ['}', '}']) := by
  simp [Piece.written, doubled, Sql.doubled_append, Json.escape]

theorem not_shows_of_keys_eq_nil (h : keys s = []) (key : List Char) : ¬Shows s key := by
  unfold Shows
  rw [doubled_written, doubled_escaped, not_or]
  exact ⟨not_infix_of_keys_eq_nil h _, not_infix_of_keys_eq_nil h _⟩

/-- **What is compared with a text shows no placeholder.** -/
theorem keys_comparison_text (h : keys s ≠ []) : keys (comparison (.text s)) = [] := by
  have hplaceholder := Template.hasPlaceholder_iff.2 h
  have hoperator : Single '{' (" = ".toList ++ ['{']) :=
    Text.single_append_of_not_mem (by decide)
  have htext : comparison (.text s) =
      " = " ++ " || ".intercalate (Sql.operands (pieces s.toList)) := if_pos hplaceholder
  rw [keys, htext, String.toList_append, Template.keysFrom_append hoperator]
  exact Sql.keysFrom_operands s.toList

/-- A placeholder of a text stands in the text of any literal that the text is a part of. -/
theorem shows_literal (h : s ∈ texts v) (hv : v ≠ .text s)
    (hkey : .placeholder key ∈ pieces s.toList) : Shows (comparison v) key := by
  have hliteral : comparison v = " = " ++ (Sql.quoted v.json ++ "::jsonb") := by
    cases v with
    | text t => exact absurd (by rw [List.mem_singleton.1 h]) hv
    | list items => rfl
    | map entries => rfl
    | _ => cases h
  have hpiece : (Piece.placeholder key).written <:+: s.toList := by
    have hmem : (Piece.placeholder key).written ∈ (pieces s.toList).map Piece.written :=
      List.mem_map_of_mem hkey
    rw [← Template.flatMap_written_pieces s.toList, List.flatMap_def]
    exact List.infix_of_mem_flatten hmem
  have hjson : (Piece.placeholder key).written.flatMap Json.escape <:+: v.json.toList := by
    obtain ⟨before, behind, hs⟩ := hpiece
    refine List.IsInfix.trans ?_ ((infix_compact v h).trans ?_)
    · rw [← hs, List.flatMap_append, List.flatMap_append]
      exact List.infix_append _ _ _
    · rw [Value.json, String.toList_ofList]
  refine .inr ((infix_doubled hjson).trans ?_)
  rw [hliteral, String.toList_append, String.toList_append, Sql.toList_quoted]
  exact ⟨" = ".toList ++ ['\''], '\'' :: "::jsonb".toList, by simp⟩

/-! ## Variables of their own -/

/-- Keys that differ only in case and in characters that are no letters or digits. -/
def Alike (k l : List Char) : Prop :=
  List.Forall₂ (fun c d => c.isAlphanum = d.isAlphanum ∧
    (c.isAlphanum = true → c.toLower = d.toLower)) k l

theorem fold_eq_iff (c d : Char) :
    (if c.isAlphanum then c.toLower else '_') = (if d.isAlphanum then d.toLower else '_') ↔
      c.isAlphanum = d.isAlphanum ∧ (c.isAlphanum = true → c.toLower = d.toLower) := by
  have hfold : ∀ {e : Char}, e.isAlphanum = true → e.toLower ≠ '_' := by
    intro e he heq
    have hlower := Sql.isAlphanum_toLower he
    rw [heq] at hlower
    cases hlower
  cases hc : c.isAlphanum with
  | true => cases hd : d.isAlphanum with
    | true => simp
    | false => simpa using hfold hc
  | false => cases hd : d.isAlphanum with
    | true => simpa using (hfold hd).symm
    | false => simp

/-- **The keys that share a variable.** -/
theorem variableOf_eq_iff {k l : List Char} :
    variableOf k = variableOf l ↔ Alike (Text.trim k) (Text.trim l) := by
  unfold variableOf Alike
  rw [String.ofList_inj, ← List.forall₂_eq_eq_eq]
  simp only [List.forall₂_map_left_iff, List.forall₂_map_right_iff, fold_eq_iff]

/-- Each result that a check refers to has a variable of its own. -/
structure OwnVariables (d : Definition) : Prop where
  /-- What a column is compared with shows no placeholder that the setting left. -/
  none_left : ∀ c ∈ conditions d, ∀ s ∈ texts c.2, ∀ key, .placeholder key ∈ pieces s.toList →
    ¬Shows (comparison c.2) key
  /-- Different keys have different variables. -/
  apart : ∀ k ∈ references d, ∀ l ∈ references d,
    variableOf k.toList = variableOf l.toList → k = l

/-- Results are referred to in whole texts, and by keys that do not resemble each other. -/
structure IsSeparated (d : Definition) : Prop where
  /-- Where the setting leaves a placeholder, the condition's value is a text. -/
  texts : ∀ c ∈ conditions d, ∀ s ∈ texts c.2, keys s ≠ [] → c.2 = .text s
  /-- Different keys do not differ in case and punctuation alone. -/
  unlike : ∀ k ∈ references d, ∀ l ∈ references d, Alike k.toList l.toList → k = l

theorem trim_of_mem_references {k : String} (h : k ∈ references d) :
    Text.trim k.toList = k.toList := by
  obtain ⟨c, -, hc⟩ := List.mem_flatMap.1 h
  unfold referencesOf at hc
  split at hc
  · obtain ⟨key, -, rfl⟩ := Template.mem_keys_iff.1 hc
    rw [String.toList_ofList, Text.trim_trim]
  · cases hc

theorem keys_ne_nil_iff : keys s ≠ [] ↔ ∃ key, .placeholder key ∈ pieces s.toList := by
  constructor
  · intro h
    obtain ⟨k, hk⟩ := List.exists_mem_of_ne_nil _ h
    obtain ⟨key, hkey, -⟩ := Template.mem_keys_iff.1 hk
    exact ⟨key, hkey⟩
  · rintro ⟨key, hkey⟩
    exact List.ne_nil_of_mem (Template.mem_keys_iff.2 ⟨key, hkey, rfl⟩)

theorem ownVariables_iff_isSeparated : OwnVariables d ↔ IsSeparated d := by
  have hapart : (∀ k ∈ references d, ∀ l ∈ references d,
        variableOf k.toList = variableOf l.toList → k = l) ↔
      ∀ k ∈ references d, ∀ l ∈ references d, Alike k.toList l.toList → k = l := by
    refine forall₂_congr fun k hk => forall₂_congr fun l hl => ?_
    rw [variableOf_eq_iff, trim_of_mem_references hk, trim_of_mem_references hl]
  constructor
  · intro h
    refine ⟨fun c hc s hs hkeys => ?_, hapart.1 h.apart⟩
    obtain ⟨key, hkey⟩ := keys_ne_nil_iff.1 hkeys
    by_contra hv
    exact h.none_left c hc s hs key hkey (shows_literal hs hv hkey)
  · intro h
    refine ⟨fun c hc s hs key hkey => ?_, hapart.2 h.unlike⟩
    have hkeys := keys_ne_nil_iff.2 ⟨key, hkey⟩
    rw [h.texts c hc s hs hkeys]
    exact not_shows_of_keys_eq_nil (keys_comparison_text hkeys) key

/-- What a script of database checks says about the results that its conditions refer to. -/
structure Refers (d : Definition) (script : List String) : Prop where
  /-- The predicate of each condition is a line. -/
  stands : ∀ c ∈ conditions d, Stands (written c) script
  /-- A line names the variables of the keys, each once and in order of first use. -/
  header : references d ≠ [] → header (variablesOf (references d)).eraseDups ∈ script
  /-- Each result has a variable of its own exactly if they are separated. -/
  own : OwnVariables d ↔ IsSeparated d

/-- **When each result that a check refers to has a variable of its own.** -/
theorem refers (h : lines d = .ok script) : Refers d script where
  stands := (lines_eq h).1
  header := (lines_eq h).2
  own := ownVariables_iff_isSeparated

/-! ## Documents -/

instance (k l : List Char) : Decidable (Alike k l) :=
  inferInstanceAs (Decidable (List.Forall₂ _ k l))

instance (d : Definition) : Decidable (IsSeparated d) :=
  decidable_of_iff
    ((∀ c ∈ conditions d, ∀ s ∈ texts c.2, keys s ≠ [] → c.2 = .text s) ∧
      ∀ k ∈ references d, ∀ l ∈ references d, Alike k.toList l.toList → k = l)
    ⟨fun ⟨htexts, hunlike⟩ => ⟨htexts, hunlike⟩, fun h => ⟨h.texts, h.unlike⟩⟩

/-- A document whose one check has the given conditions. -/
def checkedDocument (conditions : Entries) : Value :=
  .map [("id", .text "references"), ("title", .text "References to results"),
    ("context", .map [("organization_id", .text "salon")]),
    ("personas", .map [("clerk", .map [("role", .text "clerk")])]),
    ("steps", .list [.map [("id", .text "look"), ("persona", .text "clerk"),
      ("actions", .list [.map [("type", .text "wait"), ("duration_ms", .number (.int 1))]])]]),
    ("assertions", .list [.map [("type", .text "database"), ("table", .text "core_dynamic_data"),
      ("conditions", .map conditions), ("expected_count", .number (.int 1))]])]

/-- The document can be written as a script, and has these conditions once it is filled. -/
def hasConditions (document : Value) (filled : Entries) : Bool :=
  (Validation.parse document).toOption.any fun d =>
    (lines d).toOption.isSome && decide (conditions d = filled)

theorem exists_of_hasConditions (document : Value) (filled : Entries)
    (h : hasConditions document filled = true) :
    ∃ d script, Validation.parse document = .ok d ∧ lines d = .ok script ∧
      conditions d = filled := by
  unfold hasConditions at h
  cases hparse : Validation.parse document with
  | error e =>
    rw [hparse] at h
    cases h
  | ok d =>
    rw [hparse] at h
    obtain ⟨hsome, hfilled⟩ := Bool.and_eq_true_iff.1 h
    cases hlines : lines d with
    | error e =>
      rw [hlines] at hsome
      cases hsome
    | ok script => exact ⟨d, script, rfl, hlines, of_decide_eq_true hfilled⟩

/-- Two results in texts, and a list. -/
def separate (organization : String) : Entries :=
  [("entity_id", .text "\x7b\x7bguest.id\x7d\x7d"),
    ("field_name", .text "booking \x7b\x7b order.code \x7d\x7d"),
    ("field_value", .list [.text organization, .null])]

/-- Each of the two results has a variable of its own; the setting leaves nothing of the list. -/
theorem exists_own_variables :
    ∃ d script, Validation.parse (checkedDocument (separate "\x7b\x7borganization_id\x7d\x7d")) =
        .ok d ∧ lines d = .ok script ∧ Refers d script ∧ OwnVariables d ∧
      header ["guest_id", "order_code"] ∈ script := by
  obtain ⟨d, script, hd, hscript, hconditions⟩ :=
    exists_of_hasConditions (checkedDocument (separate "\x7b\x7borganization_id\x7d\x7d"))
      (separate "salon") (by decide +kernel)
  have hrefers := refers hscript
  have hreferences : references d = ["guest.id", "order.code"] := by
    rw [references, hconditions]
    decide +kernel
  have hseparated : IsSeparated d := by
    constructor
    · rw [hconditions]
      decide +kernel
    · rw [hreferences]
      decide +kernel
  have hheader := hrefers.header
  rw [hreferences] at hheader
  exact ⟨d, script, hd, hscript, hrefers, hrefers.own.2 hseparated, hheader (List.cons_ne_nil _ _)⟩

/-- Two results whose keys differ in punctuation, and one that stands inside a map. -/
def resembling : Entries :=
  [("entity_id", .text "\x7b\x7border.id\x7d\x7d"),
    ("field_name", .text "\x7b\x7border_id\x7d\x7d"),
    ("field_value", .map [("guest", .text "\x7b\x7bguest.id\x7d\x7d")])]

/-- One variable for two results, and a predicate that shows the placeholder of the third. -/
theorem exists_merged_variables :
    ∃ d script, Validation.parse (checkedDocument resembling) = .ok d ∧ lines d = .ok script ∧
      header ["order_id"] ∈ script ∧
      Stands "entity_id = :'order_id'" script ∧ Stands "field_name = :'order_id'" script ∧
      Stands "field_value = '\x7b\"guest\":\"\x7b\x7bguest.id\x7d\x7d\"\x7d'::jsonb" script ∧
      ¬OwnVariables d := by
  obtain ⟨d, script, hd, hscript, hconditions⟩ :=
    exists_of_hasConditions (checkedDocument resembling) resembling (by decide +kernel)
  obtain ⟨hstands, hheader⟩ := lines_eq hscript
  have hreferences : references d = ["order.id", "order_id"] := by
    rw [references, hconditions]
    decide +kernel
  rw [hconditions] at hstands
  rw [hreferences] at hheader
  have hpredicates : resembling.map written = ["entity_id = :'order_id'",
      "field_name = :'order_id'",
      "field_value = '\x7b\"guest\":\"\x7b\x7bguest.id\x7d\x7d\"\x7d'::jsonb"] := by
    decide +kernel
  have hall : ∀ p ∈ resembling.map written, Stands p script := List.forall_mem_map.2 hstands
  rw [hpredicates] at hall
  simp only [List.forall_mem_cons] at hall
  obtain ⟨hentity, hname, hvalue, -⟩ := hall
  have hnames : (variablesOf ["order.id", "order_id"]).eraseDups = ["order_id"] := by
    decide +kernel
  rw [hnames] at hheader
  refine ⟨d, script, hd, hscript, hheader (List.cons_ne_nil _ _), hentity, hname, hvalue, ?_⟩
  intro hown
  have hmerged := hown.apart "order.id" (by simp [hreferences]) "order_id" (by simp [hreferences])
    (by decide +kernel)
  revert hmerged
  decide

end DatabaseChecks

end ProcessTest.Artifact
