import ProcessTest.Proofs.Store.Effects
import ProcessTest.Proofs.Text.Digits

/-!
# Added rows

What the columns of a record hold, and the rows that an operation can add.

* `Store.identifier_inj` — an identifier tells its number.
* `Store.NewRow` — the rows that an operation adds, one constructor for each place of the store
  that adds a record; `newRow_of_mem` says that there are no others.
* `Store.numbered_newRows` — the identifiers of added rows count on from those given out before.
-/

set_option autoImplicit false

namespace ProcessTest

/-! ## Look-up in records -/

/-- The text in a column of a row. -/
def Row.text? (column : String) (row : Row) : Option String := Store.textAt? column row.content

namespace Store

@[simp] theorem get?_column (key name : String) (v : Option Value) :
    Entries.get? key (column name v) = if name = key then v else none := by
  cases v with
  | none => simp [column, Entries.get?]
  | some v => simp [column, Entries.get?]

@[simp] theorem get?_textColumn (key name : String) (s : Option String) :
    Entries.get? key (textColumn name s) = if name = key then s.map .text else none :=
  get?_column key name _

section Records

variable (id organization transaction : String) (number : Nat) (item : LineItem)
  (p : NewTransaction)

theorem get?_source : Entries.get? "source_entity_id" (transactionRecord id organization p) =
    p.sourceId.map .text := by
  simp [transactionRecord, heading, Entries.get?]

theorem get?_target : Entries.get? "target_entity_id" (transactionRecord id organization p) =
    p.targetId.map .text := by
  simp [transactionRecord, heading, Entries.get?]

theorem get?_lineCount : Entries.get? "line_count" (transactionRecord id organization p) =
    some (.ofNat p.lines.length) := by
  simp [transactionRecord, heading, Entries.get?]

theorem get?_lineEntity :
    Entries.get? "entity_id" (lineRecord id organization transaction number item.fields) =
      item.entityId.map .text := by
  simp [lineRecord, LineItem.fields, heading, Entries.get?]

theorem get?_lineCode :
    Entries.get? "smart_code" (lineRecord id organization transaction number item.fields) =
      item.smartCode.map .text := by
  simp [lineRecord, LineItem.fields, heading, Entries.get?]

theorem get?_lineSide :
    Entries.get? "line_type" (lineRecord id organization transaction number item.fields) =
      item.side.map fun side => .text side.name := by
  simp [lineRecord, LineItem.fields, heading, Entries.get?]

theorem get?_lineNumber :
    Entries.get? "line_number" (lineRecord id organization transaction number item.fields) =
      some (.ofNat number) := by
  simp [lineRecord, LineItem.fields, heading, Entries.get?]

theorem textAt?_lineTransaction :
    textAt? "transaction_id" (lineRecord id organization transaction number item.fields) =
      some transaction := by
  simp [textAt?, lineRecord, LineItem.fields, heading, Entries.get?, Value.text?]

end Records

/-! ## Identifiers -/

/-- The number of an identifier: the digits behind its first hyphen. -/
def numberOf (id : String) : Nat := Text.ofDigits ((id.toList.dropWhile (· ≠ '-')).drop 1)

theorem numberOf_identifier (t : Table) (n : Nat) : numberOf (identifier t n) = n := by
  have hmark : ∀ rest, (t.mark.toList ++ '-' :: rest).dropWhile (· ≠ '-') = '-' :: rest := by
    intro rest
    cases t <;> rfl
  have hlist : (identifier t n).toList = t.mark.toList ++ '-' :: (Text.padded 6 n).toList := by
    simp [identifier]
  rw [numberOf, hlist, hmark, List.drop_one, List.tail_cons, Text.ofDigits_padded]

theorem identifier_inj {t u : Table} {m n : Nat} (h : identifier t m = identifier u n) : m = n := by
  rw [← numberOf_identifier t m, h, numberOf_identifier]

/-- The identifiers of rows count on from a number. -/
def Numbered : Nat → List Row → Prop
  | _, [] => True
  | n, row :: rest => row.text? "id" = some (identifier row.table (n + 1)) ∧ Numbered (n + 1) rest

theorem numbered_append {n : Nat} {rows more : List Row} :
    Numbered n (rows ++ more) ↔ Numbered n rows ∧ Numbered (n + rows.length) more := by
  induction rows generalizing n with
  | nil => simp [Numbered]
  | cons row rest ih =>
    simp only [List.cons_append, Numbered, ih, List.length_cons, and_assoc,
      Nat.add_right_comm n 1, Nat.add_assoc]

/-- The number of a row is above the one that the count began from, and at most the last one. -/
theorem Numbered.of_mem {n : Nat} {rows : List Row} (h : Numbered n rows) {row : Row}
    (hrow : row ∈ rows) :
    ∃ m, n < m ∧ m ≤ n + rows.length ∧ row.text? "id" = some (identifier row.table m) := by
  induction rows generalizing n with
  | nil => cases hrow
  | cons first rest ih =>
    rcases List.mem_cons.1 hrow with rfl | hrow
    · exact ⟨n + 1, by omega, by simp only [List.length_cons]; omega, h.1⟩
    · obtain ⟨m, hlt, hle, hid⟩ := ih h.2 hrow
      exact ⟨m, by omega, by simp only [List.length_cons]; omega, hid⟩

theorem Numbered.nodup {n : Nat} {rows : List Row} (h : Numbered n rows) :
    (rows.map (Row.text? "id")).Nodup := by
  induction rows generalizing n with
  | nil => exact List.nodup_nil
  | cons row rest ih =>
    refine List.nodup_cons.2 ⟨?_, ih h.2⟩
    intro hmem
    obtain ⟨other, hother, heq⟩ := List.mem_map.1 hmem
    obtain ⟨m, hlt, -, hid⟩ := h.2.of_mem hother
    rw [hid, h.1] at heq
    have := identifier_inj (Option.some.inj heq)
    omega

/-! ## The rows of an operation -/

/-- The rows that an operation adds when `n` identifiers have been given out. -/
inductive NewRow (organization : String) (n : Nat) : Operation → Row → Prop
  | entity (p : NewEntity) : NewRow organization n (.entity p)
      ⟨.entities, entityRecord (identifier .entities (n + 1)) organization p⟩
  | fieldOfNew (p : NewEntity) (id name : String) (value : Value) :
      NewRow organization n (.entity p)
        ⟨.fields, fieldRecord id organization (identifier .entities (n + 1)) name value⟩
  | transaction (p : NewTransaction) : NewRow organization n (.transaction p)
      ⟨.transactions, transactionRecord (identifier .transactions (n + 1)) organization p⟩
  | line (p : NewTransaction) (id : String) (number : Nat) (item : LineItem) (h : item ∈ p.lines) :
      NewRow organization n (.transaction p)
        ⟨.lines, lineRecord id organization (identifier .transactions (n + 1)) number item.fields⟩
  | relationship (p : NewRelationship) (id : String) : NewRow organization n (.relationship p)
      ⟨.relationships, relationshipRecord id organization p⟩
  | field (p : NewField) (id : String) : NewRow organization n (.field p)
      ⟨.fields, fieldRecord id organization p.entityId p.name p.value⟩

section Rows

variable {organization : String} {n : Nat} {row : Row}

theorem mem_fieldRows {entity : String} {fields : Entries}
    (h : row ∈ fieldRows organization entity n fields) :
    ∃ id name value, row = ⟨.fields, fieldRecord id organization entity name value⟩ := by
  induction fields generalizing n with
  | nil => cases h
  | cons field rest ih =>
    rcases List.mem_cons.1 h with rfl | h
    · exact ⟨_, _, _, rfl⟩
    · exact ih h

theorem mem_lineRows {transaction : String} {number : Nat} {items : List LineItem}
    (h : row ∈ lineRows organization transaction n number items) :
    ∃ id k item, item ∈ items ∧
      row = ⟨.lines, lineRecord id organization transaction k item.fields⟩ := by
  induction items generalizing n number with
  | nil => cases h
  | cons item rest ih =>
    rcases List.mem_cons.1 h with rfl | h
    · exact ⟨_, _, item, List.mem_cons_self, rfl⟩
    · obtain ⟨id, k, other, hother, rfl⟩ := ih h
      exact ⟨id, k, other, List.mem_cons_of_mem item hother, rfl⟩

theorem newRow_of_mem {o : Operation} (h : row ∈ newRows organization n o) :
    NewRow organization n o row := by
  cases o with
  | entity p =>
    rcases List.mem_cons.1 h with rfl | h
    · exact .entity p
    · obtain ⟨id, name, value, rfl⟩ := mem_fieldRows h
      exact .fieldOfNew p id name value
  | transaction p =>
    rcases List.mem_cons.1 h with rfl | h
    · exact .transaction p
    · obtain ⟨id, number, item, hitem, rfl⟩ := mem_lineRows h
      exact .line p id number item hitem
  | relationship p =>
    obtain rfl := List.mem_singleton.1 h
    exact .relationship p _
  | field p =>
    obtain rfl := List.mem_singleton.1 h
    exact .field p _
  | interaction p => cases h
  | request p => cases h
  | wait ms => cases h

/-- An added row belongs to the organization in scope. -/
theorem NewRow.inScope {o : Operation} (h : NewRow organization n o row) :
    row.text? "organization_id" = some organization := by
  cases h <;>
    simp [Row.text?, textAt?, Entries.get?, heading, entityRecord, fieldRecord, transactionRecord,
      lineRecord, relationshipRecord, LineItem.fields, Value.text?]

theorem numbered_fieldRows (organization entity : String) (n : Nat) (fields : Entries) :
    Numbered n (fieldRows organization entity n fields) := by
  induction fields generalizing n with
  | nil => exact trivial
  | cons field rest ih => exact ⟨rfl, ih (n + 1)⟩

theorem numbered_lineRows (organization transaction : String) (n number : Nat)
    (items : List LineItem) :
    Numbered n (lineRows organization transaction n number items) := by
  induction items generalizing n number with
  | nil => exact trivial
  | cons item rest ih =>
    refine ⟨?_, ih (n + 1) (number + 1)⟩
    simp [Row.text?, textAt?, Entries.get?, heading, lineRecord, LineItem.fields, Value.text?]

theorem numbered_newRows (organization : String) (n : Nat) (o : Operation) :
    Numbered n (newRows organization n o) := by
  cases o with
  | entity p => exact ⟨rfl, numbered_fieldRows ..⟩
  | transaction p => exact ⟨rfl, numbered_lineRows ..⟩
  | relationship p => exact ⟨rfl, trivial⟩
  | field p => exact ⟨rfl, trivial⟩
  | interaction p => exact trivial
  | request p => exact trivial
  | wait ms => exact trivial

end Rows

end Store

end ProcessTest
