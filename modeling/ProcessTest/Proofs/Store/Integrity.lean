import Mathlib.Data.List.Forall2
import ProcessTest.Proofs.Store.History

/-!
# The records of a store hang together

What holds after any commands, however the calls of several parties interleave.

* `Store.Has` — a table has a record of an organization with an identifier.
* `Store.linesOf` — the lines of a transaction.
* `Store.Intact` — identifiers are distinct, references lead to records of the same organization,
  and every transaction has its lines.
* `Store.intact_after` — this holds after every history, and nothing stored changes later on.
-/

set_option autoImplicit false

namespace ProcessTest

/-- The columns in which the records of a table refer to entities. -/
def Table.references : Table → List String
  | .entities => []
  | .fields | .lines => ["entity_id"]
  | .relationships => ["from_entity_id", "to_entity_id"]
  | .transactions => ["source_entity_id", "target_entity_id"]

namespace Store

/-- A table has a record of an organization with the identifier. -/
def Has (s : Store) (t : Table) (organization id : String) : Prop :=
  ∃ row ∈ s.rows, row.table = t ∧ row.text? "id" = some id ∧
    row.text? "organization_id" = some organization

/-- Whether a row is a line of a transaction. -/
def isLineOf (transaction : String) (row : Row) : Bool :=
  row.table = .lines && row.text? "transaction_id" = some transaction

/-- The lines of a transaction. -/
def linesOf (s : Store) (transaction : String) : List Row := s.rows.filter (isLineOf transaction)

/-- The records of a store that has been filled by some transactions hang together. -/
structure Intact (transactions : NewTransaction → Prop) (s : Store) : Prop where
  /-- Every record has an identifier and an organization. -/
  identified : ∀ row ∈ s.rows, (row.text? "id").isSome ∧ (row.text? "organization_id").isSome
  /-- No two records of any tables have the same identifier. -/
  distinct : (s.rows.map (Row.text? "id")).Nodup
  /-- A reference leads to an entity of the organization of the referring record. -/
  references : ∀ row ∈ s.rows, ∀ column ∈ row.table.references, ∀ v,
    Entries.get? column row.content = some v → ∃ id organization, v = .text id ∧
      row.text? "organization_id" = some organization ∧ s.Has .entities organization id
  /-- Relationships and fields have all their references. -/
  complete : ∀ row ∈ s.rows, row.table = .relationships ∨ row.table = .fields →
    ∀ column ∈ row.table.references, (row.text? column).isSome
  /-- A line leads to a transaction of its own organization. -/
  lines : ∀ row ∈ s.rows, row.table = .lines → ∃ id organization,
    row.text? "transaction_id" = some id ∧ row.text? "organization_id" = some organization ∧
      s.Has .transactions organization id
  /-- The lines of a transaction are those that it was made with, in order, numbered from one on;
  the record tells how many they are. -/
  counted : ∀ row ∈ s.rows, row.table = .transactions → ∃ id organization p, transactions p ∧
    row.content = transactionRecord id organization p ∧
    Entries.get? "line_count" row.content = some (.ofNat (s.linesOf id).length) ∧
    List.Forall₂ (fun (item, number) line => item.fields <+: line.content ∧
      Entries.get? "line_number" line.content = some (.ofNat number)) (p.lines.zipIdx 1)
      (s.linesOf id)

/-! ## Records that exist -/

section Has

variable {s s' : Store} {t : Table} {organization id : String}

theorem hasEntity_iff : s.hasEntity organization id = true ↔ s.Has .entities organization id := by
  simp [hasEntity, Has, records, belongs, Row.text?]

theorem Has.mono (h : s.Has t organization id) (hrows : s.rows <+: s'.rows) :
    s'.Has t organization id := by
  obtain ⟨row, hrow, hall⟩ := h
  exact ⟨row, hrows.subset hrow, hall⟩

theorem Has.of_new {rows : List Row} {row : Row} (hrow : row ∈ rows)
    (hid : row.text? "id" = some id) (horg : row.text? "organization_id" = some organization) :
    (s.extend rows).Has row.table organization id :=
  ⟨row, List.mem_append_right _ hrow, rfl, hid, horg⟩

end Has

section Grown

variable {P : Operation → Prop} {s : Store} {organization : String} {n : Nat} {o : Operation}
  {row : Row}

/-- What holds of every added row holds of every row. -/
theorem Grown.forall_rows {Q : Row → Prop} (h : Grown P s)
    (hQ : ∀ organization n o row, P o → NewRow organization n o row → Q row) :
    ∀ row ∈ s.rows, Q row := by
  induction h with
  | empty => exact fun _ h => absurd h List.not_mem_nil
  | enter _ _ ih => exact ih
  | extend _ ho _ ih =>
    intro row hrow
    rcases List.mem_append.1 hrow with hrow | hrow
    · exact ih row hrow
    · exact hQ _ _ _ row ho (newRow_of_mem hrow)

theorem Grown.identified (h : Grown P s) :
    ∀ row ∈ s.rows, (row.text? "id").isSome ∧ (row.text? "organization_id").isSome := by
  intro row hrow
  obtain ⟨m, -, -, hid⟩ := h.numbered.of_mem hrow
  have horg : ∀ row ∈ s.rows, (row.text? "organization_id").isSome :=
    h.forall_rows fun _ _ _ _ _ hnew => by rw [hnew.inScope]; rfl
  exact ⟨by rw [hid]; rfl, horg row hrow⟩

/-! ## References -/

/-- An added row refers to entities that the operation needs, or to the one that it adds. -/
theorem NewRow.reference (h : NewRow organization n o row) {column : String}
    (hcolumn : column ∈ row.table.references) {v : Value}
    (hv : Entries.get? column row.content = some v) :
    ∃ id, v = .text id ∧
      (id ∈ needs o ∨ ∃ p, o = .entity p ∧ id = identifier .entities (n + 1)) := by
  cases h with
  | entity p => cases hcolumn
  | fieldOfNew p id name value =>
    obtain rfl := List.mem_singleton.1 hcolumn
    cases hv
    exact ⟨_, rfl, .inr ⟨p, rfl, rfl⟩⟩
  | transaction p =>
    simp only [Table.references, List.mem_cons, List.not_mem_nil, or_false] at hcolumn
    rcases hcolumn with rfl | rfl
    · rw [get?_source, Option.map_eq_some_iff] at hv
      obtain ⟨id, hid, rfl⟩ := hv
      exact ⟨id, rfl, .inl (by simp [needs, Store.references, hid])⟩
    · rw [get?_target, Option.map_eq_some_iff] at hv
      obtain ⟨id, hid, rfl⟩ := hv
      exact ⟨id, rfl, .inl (by simp [needs, Store.references, hid])⟩
  | line p id number item hitem =>
    obtain rfl := List.mem_singleton.1 hcolumn
    rw [get?_lineEntity, Option.map_eq_some_iff] at hv
    obtain ⟨id, hid, rfl⟩ := hv
    refine ⟨id, rfl, .inl (List.mem_append_right _ ?_)⟩
    exact List.mem_filterMap.2 ⟨item, hitem, hid⟩
  | relationship p id =>
    simp only [Table.references, List.mem_cons, List.not_mem_nil, or_false] at hcolumn
    rcases hcolumn with rfl | rfl
    · cases hv
      exact ⟨_, rfl, .inl (by simp [needs])⟩
    · cases hv
      exact ⟨_, rfl, .inl (by simp [needs])⟩
  | field p id =>
    obtain rfl := List.mem_singleton.1 hcolumn
    cases hv
    exact ⟨_, rfl, .inl (by simp [needs])⟩

theorem Grown.references (h : Grown P s) : ∀ row ∈ s.rows, ∀ column ∈ row.table.references, ∀ v,
    Entries.get? column row.content = some v → ∃ id organization, v = .text id ∧
      row.text? "organization_id" = some organization ∧ s.Has .entities organization id := by
  induction h with
  | empty => exact fun _ h => absurd h List.not_mem_nil
  | enter _ _ ih => exact ih
  | @extend s organization o _ _ hneeds ih =>
    intro row hrow column hcolumn v hv
    rcases List.mem_append.1 hrow with hrow | hrow
    · obtain ⟨id, organization, rfl, horg, hhas⟩ := ih row hrow column hcolumn v hv
      exact ⟨id, organization, rfl, horg, hhas.mono (List.prefix_append _ _)⟩
    · have hnew := newRow_of_mem hrow
      obtain ⟨id, rfl, hid | ⟨p, rfl, rfl⟩⟩ := hnew.reference hcolumn hv
      · have hhas := hasEntity_iff.1 (hneeds id hid)
        exact ⟨id, organization, rfl, hnew.inScope, hhas.mono (List.prefix_append _ _)⟩
      · exact ⟨_, organization, rfl, hnew.inScope, .of_new List.mem_cons_self rfl rfl⟩

theorem Grown.complete (h : Grown P s) : ∀ row ∈ s.rows,
    row.table = .relationships ∨ row.table = .fields →
    ∀ column ∈ row.table.references, (row.text? column).isSome := by
  refine h.forall_rows fun organization n o row _ hnew htable column hcolumn => ?_
  cases hnew <;> simp [Table.references] at htable hcolumn
  case fieldOfNew => subst hcolumn; rfl
  case relationship => rcases hcolumn with rfl | rfl <;> rfl
  case field => subst hcolumn; rfl

/-! ## Lines -/

theorem Grown.lines (h : Grown P s) : ∀ row ∈ s.rows, row.table = .lines → ∃ id organization,
    row.text? "transaction_id" = some id ∧ row.text? "organization_id" = some organization ∧
      s.Has .transactions organization id := by
  induction h with
  | empty => exact fun _ h => absurd h List.not_mem_nil
  | enter _ _ ih => exact ih
  | @extend s organization o _ _ hneeds ih =>
    intro row hrow hline
    rcases List.mem_append.1 hrow with hrow | hrow
    · obtain ⟨id, organization, hid, horg, hhas⟩ := ih row hrow hline
      exact ⟨id, organization, hid, horg, hhas.mono (List.prefix_append _ _)⟩
    · have hnew := newRow_of_mem hrow
      have horg := hnew.inScope
      cases hnew with
      | line p id number item hitem =>
        have hhas : (s.extend (newRows organization s.issued (.transaction p))).Has .transactions
            organization (identifier .transactions (s.issued + 1)) :=
          .of_new List.mem_cons_self rfl rfl
        exact ⟨_, organization, textAt?_lineTransaction _ _ _ _ _, horg, hhas⟩
      | _ => cases hline

/-- A line of another transaction is not among the added rows. -/
theorem filter_isLineOf_newRows {transaction : String}
    (h : transaction ≠ identifier .transactions (n + 1)) :
    (newRows organization n o).filter (isLineOf transaction) = [] := by
  refine List.filter_eq_nil_iff.2 fun row hrow hline => ?_
  have hnew := newRow_of_mem hrow
  cases hnew with
  | line p id number item hitem =>
    have heq : identifier .transactions (n + 1) = transaction := by
      simpa [isLineOf, Row.text?, textAt?_lineTransaction] using hline
    exact h heq.symm
  | _ => simp [isLineOf] at hline

/-- The row is a line of a transaction with the given item and number. -/
def IsLine (organization transaction : String) (item : LineItem × Nat) (row : Row) : Prop :=
  ∃ id, row = ⟨.lines, lineRecord id organization transaction item.2 item.1.fields⟩

theorem forall₂_lineRows (organization transaction : String) (n number : Nat)
    (items : List LineItem) :
    List.Forall₂ (IsLine organization transaction) (items.zipIdx number)
      (lineRows organization transaction n number items) := by
  induction items generalizing n number with
  | nil => exact .nil
  | cons item rest ih => exact .cons ⟨_, rfl⟩ (ih (n + 1) (number + 1))

/-- A transaction that is added brings all its lines. -/
theorem filter_isLineOf_transactionRows (organization : String) (n : Nat) (p : NewTransaction) :
    (transactionRows organization n p).filter (isLineOf (identifier .transactions (n + 1))) =
      lineRows organization (identifier .transactions (n + 1)) (n + 1) 1 p.lines := by
  rw [transactionRows, List.filter_cons_of_neg (by simp [isLineOf])]
  refine List.filter_eq_self.2 fun row hrow => ?_
  obtain ⟨id, number, item, -, rfl⟩ := mem_lineRows hrow
  simp [isLineOf, Row.text?, textAt?_lineTransaction]

/-- A transaction that does not exist yet has no lines. -/
theorem Grown.linesOf_new (h : Grown P s) :
    s.linesOf (identifier .transactions (s.issued + 1)) = [] := by
  refine List.filter_eq_nil_iff.2 fun row hrow hline => ?_
  simp only [isLineOf, Bool.and_eq_true, decide_eq_true_eq] at hline
  obtain ⟨id, organization, hid, -, other, hother, -, hotherId, -⟩ := h.lines row hrow hline.1
  rw [hline.2] at hid
  cases hid
  exact h.ne_identifier hother hotherId .transactions (Nat.lt_succ_self _) rfl

/-- The lines of every transaction are those that it was made with. -/
theorem Grown.made (h : Grown P s) : ∀ row ∈ s.rows, row.table = .transactions →
    ∃ id organization p, P (.transaction p) ∧ row.content = transactionRecord id organization p ∧
      List.Forall₂ (IsLine organization id) (p.lines.zipIdx 1) (s.linesOf id) := by
  induction h with
  | empty => exact fun _ h => absurd h List.not_mem_nil
  | enter _ _ ih => exact ih
  | @extend s organization o h ho hneeds ih =>
    intro row hrow htable
    have hlines : ∀ id, (s.extend (newRows organization s.issued o)).linesOf id =
        s.linesOf id ++ (newRows organization s.issued o).filter (isLineOf id) :=
      fun id => List.filter_append ..
    rcases List.mem_append.1 hrow with hrow | hrow
    · obtain ⟨id, organization', p, hp, hcontent, hall⟩ := ih row hrow htable
      have hid : row.text? "id" = some id := by
        rw [Row.text?, hcontent]
        rfl
      have hne := h.ne_identifier hrow hid .transactions (Nat.lt_succ_self _)
      refine ⟨id, organization', p, hp, hcontent, ?_⟩
      rw [hlines, filter_isLineOf_newRows hne, List.append_nil]
      exact hall
    · have hnew := newRow_of_mem hrow
      cases hnew with
      | transaction p =>
        refine ⟨_, organization, p, ho, rfl, ?_⟩
        rw [hlines, h.linesOf_new, List.nil_append, newRows, filter_isLineOf_transactionRows]
        exact forall₂_lineRows ..
      | _ => cases htable

theorem Grown.counted (h : Grown P s) : ∀ row ∈ s.rows, row.table = .transactions →
    ∃ id organization p, P (.transaction p) ∧ row.content = transactionRecord id organization p ∧
      Entries.get? "line_count" row.content = some (.ofNat (s.linesOf id).length) ∧
      List.Forall₂ (fun (item, number) line => item.fields <+: line.content ∧
        Entries.get? "line_number" line.content = some (.ofNat number)) (p.lines.zipIdx 1)
        (s.linesOf id) := by
  intro row hrow htable
  obtain ⟨id, organization, p, hp, hcontent, hall⟩ := h.made row hrow htable
  have hlength : p.lines.length = (s.linesOf id).length := by
    rw [← hall.length_eq, List.length_zipIdx]
  refine ⟨id, organization, p, hp, hcontent, ?_, hall.imp ?_⟩
  · rw [hcontent, get?_lineCount, hlength]
  · rintro ⟨item, number⟩ line ⟨lineId, rfl⟩
    refine ⟨?_, get?_lineNumber ..⟩
    simp only [lineRecord, List.append_assoc]
    exact List.prefix_append _ _

theorem Grown.intact (h : Grown P s) : s.Intact fun p => P (.transaction p) where
  identified := h.identified
  distinct := h.numbered.nodup
  references := h.references
  complete := h.complete
  lines := h.lines
  counted := h.counted

end Grown

/-- **Integrity**: after any commands the records of the store hang together, and whatever comes
next, no stored record changes or goes away. -/
theorem intact_after (commands more : List Command) :
    (after commands).Intact (fun p => .operate (.transaction p) ∈ commands) ∧
      (after commands).rows <+: (after (commands ++ more)).rows := by
  have hgrown : Grown (fun o => .operate o ∈ commands) (after commands) := grown_after fun _ h => h
  exact ⟨hgrown.intact, rows_prefix_after commands more⟩

end Store

end ProcessTest
