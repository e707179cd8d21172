import ProcessTest.Proofs.Artifact.Quoting
import ProcessTest.Proofs.Template.Pieces
import ProcessTest.Proofs.Text.Blank

/-!
# What a text expression means

A template becomes a concatenation of literals and variables.  Read as SQL with texts for the
variables, it comes to the template with these texts at the places of its placeholders.

* `Token`, `tokens?` — how SQL cuts an expression into tokens.
* `evaluate?` — the text of an expression.
* `tokens?_append` — a token that was written is read, unless a quote follows.
* `evaluate?_operands` — the expression of a template, piece by piece.
* `snd_expression`, `addNew_eq` — the variables in use, each once and in order of first use.
* `means_expression` — all this, for every template with a placeholder.
-/

set_option autoImplicit false

namespace ProcessTest.Artifact.Sql

open Template (Piece pieces keys hasPlaceholder)

/-! ## Reading an expression -/

/-- The tokens of text expressions. -/
inductive Token where
  | text (s : List Char)
  | reference (name : List Char)
  | concat
  deriving DecidableEq, Repr

/-- The characters of the name of a variable. -/
def isNamePart (c : Char) : Bool := c.isAlphanum || c == '_'

/-- The name of a variable from behind its opening quote, and what follows its closing quote.  The
name may be empty here, which psql does not allow: there two quotes behind a colon are no variable.
Only a blank key has such a name (`variableOf_eq_empty_iff`). -/
def name? (cs : List Char) : Option (List Char × List Char) :=
  match cs.dropWhile isNamePart with
  | '\'' :: rest => some (cs.takeWhile isNamePart, rest)
  | _ => none

theorem length_lt_of_name? {cs name rest : List Char} (h : name? cs = some (name, rest)) :
    rest.length < cs.length := by
  unfold name? at h
  split at h
  · rename_i heq
    cases h
    have hsuffix := (List.dropWhile_suffix (l := cs) isNamePart).length_le
    rw [heq] at hsuffix
    exact hsuffix
  · cases h

/-- The tokens of an expression: blanks part them, `:'name'` is a variable. -/
def tokens? (cs : List Char) : Option (List Token) :=
  match cs with
  | [] => some []
  | ' ' :: rest => tokens? rest
  | '|' :: '|' :: rest => (tokens? rest).map (.concat :: ·)
  | '\'' :: rest =>
    match h : unquote? '\'' rest with
    | some (s, more) =>
      have := length_lt_of_unquote? h
      (tokens? more).map (.text s :: ·)
    | none => none
  | ':' :: '\'' :: rest =>
    match h : name? rest with
    | some (name, more) =>
      have := length_lt_of_name? h
      (tokens? more).map (.reference name :: ·)
    | none => none
  | _ => none
termination_by cs.length

/-- The text of an operand. -/
def Token.value? (assign : String → String) : Token → Option (List Char)
  | .text s => some s
  | .reference name => some (assign (String.ofList name)).toList
  | .concat => none

/-- The text of operands with operators between them. -/
def concatenation? (assign : String → String) : List Token → Option (List Char)
  | [t] => t.value? assign
  | t :: .concat :: rest => do pure ((← t.value? assign) ++ (← concatenation? assign rest))
  | _ => none

/-- The text of an expression, if it is one. -/
def evaluate? (assign : String → String) (expression : String) : Option (List Char) :=
  (tokens? expression.toList).bind (concatenation? assign)

/-! ## Operands -/

namespace Token

/-- A token as it is written. -/
def written : Token → String
  | .text s => quoted (String.ofList s)
  | .reference name => ":" ++ quoted (String.ofList name)
  | .concat => "||"

/-- Tokens that can be operands. -/
def IsOperand : Token → Prop
  | .text _ => True
  | .reference name => ∀ c ∈ name, isNamePart c = true
  | .concat => False

end Token

variable {assign : String → String} {used : List String} {cs rest : List Char} {t : Token}
  {ts : List Token}

theorem toList_quoted (s : String) :
    (quoted s).toList = '\'' :: (doubled '\'' s.toList ++ ['\'']) :=
  toList_enclosed '\'' s

theorem doubled_of_not_mem {quote : Char} (h : quote ∉ cs) : doubled quote cs = cs := by
  induction cs with
  | nil => rfl
  | cons c cs ih =>
    rw [List.mem_cons, not_or] at h
    rw [doubled, if_neg (Ne.symm h.1), ih h.2]

theorem tokens?_text (h : rest.head? ≠ some '\'') (cs : List Char) :
    tokens? ('\'' :: (doubled '\'' cs ++ '\'' :: rest)) =
      (tokens? rest).map (.text cs :: ·) := by
  have hread := unquote?_doubled h cs
  rw [tokens?]
  split
  · rename_i heq
    rw [hread] at heq
    cases heq
    rfl
  · rename_i heq
    rw [hread] at heq
    cases heq

theorem name?_append (h : ∀ c ∈ cs, isNamePart c = true) (rest : List Char) :
    name? (cs ++ '\'' :: rest) = some (cs, rest) := by
  unfold name?
  rw [List.dropWhile_append_of_pos h, List.takeWhile_append_of_pos h,
    List.takeWhile_cons_of_neg (by decide), List.append_nil]
  rfl

theorem tokens?_reference (h : ∀ c ∈ cs, isNamePart c = true) (rest : List Char) :
    tokens? (':' :: '\'' :: (cs ++ '\'' :: rest)) = (tokens? rest).map (.reference cs :: ·) := by
  have hread := name?_append h rest
  rw [tokens?]
  split
  · rename_i heq
    rw [hread] at heq
    cases heq
    rfl
  · rename_i heq
    rw [hread] at heq
    cases heq

/-- An operand that was written is read, unless a quote follows. -/
theorem tokens?_append (ht : t.IsOperand) (h : rest.head? ≠ some '\'') :
    tokens? (t.written.toList ++ rest) = (tokens? rest).map (t :: ·) := by
  cases t with
  | text s =>
    rw [Token.written, toList_quoted, String.toList_ofList, List.cons_append, List.append_assoc]
    exact tokens?_text h s
  | reference name =>
    have hquote : '\'' ∉ name := fun hmem => absurd (ht _ hmem) (by decide)
    rw [Token.written, String.toList_append, toList_quoted, String.toList_ofList (l := name),
      doubled_of_not_mem hquote, List.append_assoc, List.cons_append, List.append_assoc]
    exact tokens?_reference ht rest
  | concat => exact ht.elim

theorem tokens?_operator (rest : List Char) :
    tokens? (" || ".toList ++ rest) = (tokens? rest).map (.concat :: ·) := by
  change tokens? (' ' :: '|' :: '|' :: ' ' :: rest) = _
  rw [tokens?, tokens?, tokens?]

theorem tokens?_nil : tokens? [] = some [] := by
  rw [tokens?]

/-- Operands with operators between them are read as they were written. -/
theorem tokens?_intercalate (h : ∀ t ∈ ts, t.IsOperand) :
    tokens? (" || ".intercalate (ts.map Token.written)).toList = some (ts.intersperse .concat) := by
  induction ts with
  | nil => exact tokens?_nil
  | cons t ts ih =>
    obtain ⟨ht, hts⟩ := List.forall_mem_cons.1 h
    cases ts with
    | nil =>
      have hend : ([] : List Char).head? ≠ some '\'' := nofun
      have hread := tokens?_append ht hend
      rw [List.append_nil, tokens?_nil] at hread
      rw [List.map_singleton, String.intercalate_singleton, hread]
      rfl
    | cons next ts =>
      have hblank : ∀ cs : List Char, (" || ".toList ++ cs).head? ≠ some '\'' := by
        intro cs
        simp
      rw [List.map_cons, List.map_cons, String.intercalate_cons_cons, String.toList_append,
        String.toList_append, List.append_assoc, tokens?_append ht (hblank _), tokens?_operator,
        ← List.map_cons, ih hts]
      rfl

/-- The text of an expression is that of its operands, one behind the other. -/
theorem concatenation?_intersperse (h : ∀ t ∈ ts, t.IsOperand) (hne : ts ≠ []) :
    concatenation? assign (ts.intersperse .concat) =
      some (ts.flatMap fun t => (t.value? assign).getD []) := by
  induction ts with
  | nil => exact absurd rfl hne
  | cons t ts ih =>
    obtain ⟨ht, hts⟩ := List.forall_mem_cons.1 h
    obtain ⟨value, hvalue⟩ : ∃ value, t.value? assign = some value := by
      cases t with
      | concat => exact ht.elim
      | _ => exact ⟨_, rfl⟩
    cases ts with
    | nil => simp [concatenation?, hvalue]
    | cons next ts =>
      rw [List.intersperse_cons_cons, concatenation?, ih hts (List.cons_ne_nil next ts), hvalue,
        List.flatMap_cons (x := t), hvalue]
      rfl

/-! ## Templates -/

/-- The operand of a piece, which has none if it is empty. -/
def operand? : Piece → Option Token
  | .verbatim cs => if cs = [] then none else some (.text cs)
  | .placeholder key => some (.reference (variableOf key).toList)

theorem filterMap_operand?_placeholder (key : List Char) (ps : List Piece) :
    (.placeholder key :: ps).filterMap operand? =
      .reference (variableOf key).toList :: ps.filterMap operand? := rfl

theorem operands_eq_map (ps : List Piece) :
    operands ps = (ps.filterMap operand?).map Token.written := by
  fun_induction operands ps with
  | case1 => rfl
  | case2 rest ih => simpa [operand?] using ih
  | case3 cs rest hne ih =>
    have hcs : cs ≠ [] := hne
    have hoperand : operand? (.verbatim cs) = some (.text cs) := if_neg hcs
    rw [List.filterMap_cons_some hoperand, List.map_cons, ih]
    rfl
  | case4 key rest ih =>
    rw [filterMap_operand?_placeholder, List.map_cons, ih, Token.written, String.ofList_toList]

theorem isAlphanum_of_small {c : Char} (hlow : 97 ≤ c.val.toNat) (hhigh : c.val.toNat ≤ 122) :
    c.isAlphanum = true := by
  have hlower : c.isLower = true :=
    Bool.and_eq_true_iff.2 ⟨decide_eq_true (UInt32.le_iff_toNat_le.2 hlow),
      decide_eq_true (UInt32.le_iff_toNat_le.2 hhigh)⟩
  exact Bool.or_eq_true_iff.2 (.inl (Bool.or_eq_true_iff.2 (.inr hlower)))

/-- Letters and digits stay letters and digits in lower case. -/
theorem isAlphanum_toLower {c : Char} (h : c.isAlphanum = true) : c.toLower.isAlphanum = true := by
  unfold Char.toLower
  split
  · rename_i hupper
    apply isAlphanum_of_small
    all_goals
      simp [UInt32.le_iff_toNat_le] at hupper ⊢
      omega
  · exact h

theorem isNamePart_of_mem_variableOf {key : List Char} {c : Char}
    (h : c ∈ (variableOf key).toList) : isNamePart c = true := by
  unfold variableOf at h
  rw [String.toList_ofList] at h
  obtain ⟨d, -, rfl⟩ := List.mem_map.1 h
  split
  · rename_i halnum
    exact Bool.or_eq_true_iff.2 (.inl (isAlphanum_toLower halnum))
  · rfl

theorem variableOf_eq_empty_iff {key : List Char} : variableOf key = "" ↔ Text.trim key = [] := by
  unfold variableOf
  rw [String.ofList_eq_empty_iff, List.map_eq_nil_iff]

theorem isOperand_of_operand? {p : Piece} (h : operand? p = some t) : t.IsOperand := by
  unfold operand? at h
  split at h
  · split at h
    · cases h
    · cases h
      exact trivial
  · cases h
    exact fun c => isNamePart_of_mem_variableOf

theorem variableOf_trim (key : List Char) : variableOf (Text.trim key) = variableOf key := by
  unfold variableOf
  rw [Text.trim_trim]

/-- The texts that stand for placeholders. -/
def substitute (assign : String → String) (key : List Char) : Option (List Char) :=
  some (assign (variableOf key)).toList

/-- The operands of the pieces come to the pieces, with texts for placeholders. -/
theorem flatMap_operands (assign : String → String) (ps : List Piece) :
    ((ps.filterMap operand?).flatMap fun t => (t.value? assign).getD []) =
      ps.flatMap (Piece.filled (substitute assign)) := by
  induction ps with
  | nil => rfl
  | cons p ps ih =>
    rw [List.flatMap_cons, ← ih]
    cases p with
    | verbatim cs =>
      cases cs with
      | nil => rfl
      | cons c cs => rfl
    | placeholder key =>
      rw [filterMap_operand?_placeholder, List.flatMap_cons, Piece.filled, Template.filling,
        substitute, variableOf_trim]
      simp [Token.value?]

/-- The expression of pieces that are not all empty comes to the pieces. -/
theorem evaluate?_operands {ps : List Piece} (h : ps.filterMap operand? ≠ []) :
    evaluate? assign (" || ".intercalate (operands ps)) =
      some (ps.flatMap (Piece.filled (substitute assign))) := by
  have hoperands : ∀ t ∈ ps.filterMap operand?, t.IsOperand := by
    intro t ht
    obtain ⟨p, -, hp⟩ := List.mem_filterMap.1 ht
    exact isOperand_of_operand? hp
  unfold evaluate?
  rw [operands_eq_map, tokens?_intercalate hoperands, Option.bind_some,
    concatenation?_intersperse hoperands h, flatMap_operands]

/-- A template with a placeholder has an operand. -/
theorem operands_ne_nil {s : String} (h : hasPlaceholder s = true) :
    (pieces s.toList).filterMap operand? ≠ [] := by
  have hkeys := Template.hasPlaceholder_iff.1 h
  obtain ⟨k, hk⟩ := List.exists_mem_of_ne_nil _ hkeys
  obtain ⟨key, hpiece, -⟩ := Template.mem_keys_iff.1 hk
  exact List.ne_nil_of_mem (List.mem_filterMap.2 ⟨_, hpiece, rfl⟩)

/-! ## Variables in use -/

/-- What is added is not there yet; each comes once, in the order in which it comes first. -/
theorem addNew_eq (seen more : List String) :
    Template.addNew seen more = seen ++ (more.filter (!seen.contains ·)).eraseDups := by
  unfold Template.addNew
  induction more generalizing seen with
  | nil => simp
  | cons n more ih =>
    rw [List.foldl_cons, ih]
    split
    · rename_i hseen
      rw [List.filter_cons_of_neg (by simpa using hseen)]
    · rename_i hseen
      rw [List.filter_cons_of_pos (by simpa using hseen), List.eraseDups_cons, List.filter_filter,
        List.append_assoc, List.singleton_append]
      congr 4
      funext m
      rw [Bool.eq_iff_iff]
      simp [and_comm]

/-- The variables of keys. -/
def variablesOf (keys : List String) : List String := keys.map fun k => variableOf k.toList

theorem variableNames_eq (used : List String) (ps : List Piece) :
    variableNames used ps = Template.addNew used (variablesOf (ps.filterMap Piece.key?)) := by
  fun_induction variableNames used ps with
  | case1 used => rfl
  | case2 used cs rest ih => exact ih
  | case3 used key rest name ih =>
    have hname : variableOf (Text.trim key) = name := variableOf_trim key
    have hkey : (.placeholder key :: rest).filterMap Piece.key? =
      String.ofList (Text.trim key) :: rest.filterMap Piece.key? := rfl
    have hnames : variablesOf ((.placeholder key :: rest).filterMap Piece.key?) =
        name :: variablesOf (rest.filterMap Piece.key?) := by
      rw [hkey, variablesOf, List.map_cons, String.toList_ofList, hname]
      rfl
    rw [ih, hnames]
    rfl

theorem snd_expression (used : List String) (s : String) :
    (expression used s).2 = Template.addNew used (variablesOf (keys s)) := by
  rw [keys, Template.keysFrom_eq_filterMap]
  exact variableNames_eq used (pieces s.toList)

/-! ## The expression of a template -/

/-- The text expression of a template means the template. -/
structure Means (assign : String → String) (used : List String) (s : String) : Prop where
  /-- The pieces of the template are the template. -/
  cut : (pieces s.toList).flatMap Piece.written = s.toList
  /-- Their keys are those of its placeholders. -/
  keys : keys s = (pieces s.toList).filterMap Piece.key?
  /-- Placeholders give way to the texts of their variables, and all else is kept. -/
  value : evaluate? assign (expression used s).1 =
    some ((pieces s.toList).flatMap (Piece.filled (substitute assign)))
  /-- The variables that were not in use before, each once and in order of first use. -/
  inUse : (expression used s).2 =
    used ++ ((variablesOf (Template.keys s)).filter (!used.contains ·)).eraseDups

/-- **The text expression means the template**, whatever texts the variables have. -/
theorem means_expression (assign : String → String) (used : List String) {s : String}
    (h : hasPlaceholder s = true) : Means assign used s where
  cut := Template.flatMap_written_pieces s.toList
  keys := Template.keysFrom_eq_filterMap s.toList
  value := evaluate?_operands (operands_ne_nil h)
  inUse := (snd_expression used s).trans (addNew_eq used _)

/-- The first key is in use already, the second one is named twice, and the last mark is not
closed. -/
def receipt : String :=
  "it\'s \x7b\x7b order.id \x7d\x7d\x7b\x7bguest.Name\x7d\x7d, \x7b\x7bguest.name\x7d\x7d: \x7b\x7b"

example : expression ["order_id"] receipt =
    ("'it''s ' || :'order_id' || :'guest_name' || ', ' || :'guest_name' || ': \x7b\x7b'",
      ["order_id", "guest_name"]) := by
  decide +kernel

theorem means_receipt : hasPlaceholder receipt = true ∧
    Means (fun name => if name = "order_id" then "O'7" else "Jane") ["order_id"] receipt :=
  ⟨by decide +kernel, means_expression _ _ (by decide +kernel)⟩

end ProcessTest.Artifact.Sql
