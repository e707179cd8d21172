import ProcessTest.Proofs.Decoding.Parts
import ProcessTest.Proofs.Store.Integrity
import ProcessTest.Run.Action

/-!
# An audit of the store

A store that only checked operations have filled passes an audit of what it holds: the records are
read as they stand in the tables, not as the operations brought them.

* `Store.Audited` — smart codes conform, and the journals of the stored lines balance.
* `decode_lineRecord` — a stored line reads back as the line that was added, but for nulls.
* `Store.Grown.audited` — checked operations keep the store audited.
-/

set_option autoImplicit false

namespace ProcessTest

open Decode

/-! ## What a check has found out -/

section Checks

variable {o : Operation} {items : List LineItem}

theorem isValid_of_checkCode (h : o.checkCode = .ok ()) {code : String}
    (hcode : o.smartCode? = some code) : SmartCode.isValid code = true := by
  unfold Operation.checkCode at h
  rw [hcode, Option.map_some] at h
  cases hvalid : (SmartCode.check code).valid with
  | true => exact hvalid
  | false => simp [Option.filter, hvalid] at h

theorem isValid_of_checkLines {index : Nat} (h : checkLines index items = .ok ()) :
    ∀ item ∈ items, ∀ code, item.smartCode = some code → SmartCode.isValid code = true := by
  induction items generalizing index with
  | nil => exact fun _ h => absurd h List.not_mem_nil
  | cons item rest ih =>
    unfold checkLines at h
    simp only at h
    split at h
    · cases h
    · rename_i hnone
      intro other hother code hcode
      rcases List.mem_cons.1 hother with rfl | hother
      · rw [hcode, Option.map_some] at hnone
        cases hvalid : (SmartCode.check code).valid with
        | true => exact hvalid
        | false => simp [Option.filter, hvalid] at hnone
      · exact ih h other hother code hcode

/-- The journal of transaction lines balances. -/
def Balances (items : List LineItem) : Prop :=
  ∃ journal verdict, Rule.journalOf items = .ok (some journal) ∧
    Rule.checkJournal journal Rule.defaultTolerance = .ok verdict ∧ verdict.valid = true

theorem mapError_eq_ok {α ε ε' : Type} {x : Except ε α} {f : ε → ε'} {a : α}
    (h : x.mapError f = .ok a) : x = .ok a := by
  cases x with
  | error cause => cases h
  | ok b =>
    cases h
    rfl

theorem balances_of_checkBalance (h : checkBalance items = .ok ()) :
    Rule.journalOf items = .ok none ∨ Balances items := by
  unfold checkBalance at h
  obtain ⟨journal?, hjournal, h⟩ := bind_eq_ok_iff.1 h
  have hjournal := mapError_eq_ok hjournal
  cases journal? with
  | none => exact .inl hjournal
  | some journal =>
    obtain ⟨verdict, hverdict, h⟩ := bind_eq_ok_iff.1 h
    refine .inr ⟨journal, verdict, hjournal, mapError_eq_ok hverdict, ?_⟩
    cases hvalid : verdict.valid with
    | true => rfl
    | false =>
      rw [hvalid] at h
      cases h

theorem checkCode_of_check (h : o.check = .ok ()) : o.checkCode = .ok () := by
  unfold Operation.check at h
  obtain ⟨_, hcode, -⟩ := bind_eq_ok_iff.1 h
  exact hcode

theorem checks_of_check {p : NewTransaction} (h : (Operation.transaction p).check = .ok ()) :
    checkLines 0 p.lines = .ok () ∧ checkBalance p.lines = .ok () := by
  unfold Operation.check at h
  obtain ⟨_, -, h⟩ := bind_eq_ok_iff.1 h
  obtain ⟨_, hlines, hbalance⟩ := bind_eq_ok_iff.1 h
  exact ⟨hlines, hbalance⟩

end Checks

/-! ## Stored lines read back -/

/-- The line without the fields that are null; a stored line does not tell them from missing
ones. -/
def LineItem.withoutNulls (item : LineItem) : LineItem :=
  { item with
    quantity := item.quantity.filter (· ≠ .null)
    unitPrice := item.unitPrice.filter (· ≠ .null)
    amount := item.amount.filter (· ≠ .null) }

section Decoding

variable {r : Entries} {name : String}

theorem optional_asText_of_get? {s : Option String} (h : Entries.get? name r = s.map .text) :
    optional r name asText = .ok s := by
  unfold Decode.optional
  rw [h]
  cases s <;> rfl

theorem optional_asIs_of_get? {v : Option Value} (h : Entries.get? name r = v) :
    optional r name asIs = .ok (v.filter (· ≠ .null)) := by
  unfold Decode.optional
  rw [h]
  rcases v with _ | v
  · rfl
  · cases v <;> rfl

theorem optional_side_of_get? {side : Option Side}
    (h : Entries.get? name r = side.map fun s => .text s.name) :
    optional r name (choice .direct Side.all Side.name) = .ok side := by
  unfold Decode.optional
  rw [h]
  rcases side with _ | side
  · rfl
  · cases side <;> rfl

theorem decode_lineRecord (id organization transaction : String) (number : Nat)
    (item : LineItem) :
    LineItem.decode .direct 
      (.map (Store.lineRecord id organization transaction number item.fields)) =
      .ok item.withoutNulls := by
  generalize hr : Store.lineRecord id organization transaction number item.fields = r
  have hget : ∀ key, key ∉ ["id", "organization_id", "transaction_id", "line_number"] →
      Entries.get? key r = Entries.get? key item.fields := by
    intro key hkey
    simp only [List.mem_cons, List.not_mem_nil, or_false, not_or, ← ne_eq] at hkey
    obtain ⟨hid, horg, htransaction, hnumber⟩ := hkey
    simp [← hr, Store.lineRecord, Store.heading, Entries.get?, hid.symm, horg.symm,
      htransaction.symm, hnumber.symm]
  have hside : optional r "line_type" (choice .direct Side.all Side.name) = .ok item.side :=
    optional_side_of_get? (by rw [hget _ (by decide)]; simp [LineItem.fields])
  have hentity : optional r "entity_id" asText = .ok item.entityId :=
    optional_asText_of_get? (by rw [hget _ (by decide)]; simp [LineItem.fields])
  have hquantity : optional r "quantity" asIs = .ok (item.quantity.filter (· ≠ .null)) :=
    optional_asIs_of_get? (by rw [hget _ (by decide)]; simp [LineItem.fields])
  have hprice : optional r "unit_price" asIs = .ok (item.unitPrice.filter (· ≠ .null)) :=
    optional_asIs_of_get? (by rw [hget _ (by decide)]; simp [LineItem.fields])
  have hamount : optional r "line_amount" asIs = .ok (item.amount.filter (· ≠ .null)) :=
    optional_asIs_of_get? (by rw [hget _ (by decide)]; simp [LineItem.fields])
  have hcode : optional r "smart_code" asText = .ok item.smartCode :=
    optional_asText_of_get? (by rw [hget _ (by decide)]; simp [LineItem.fields])
  have hdescription : optional r "description" asText = .ok item.description :=
    optional_asText_of_get? (by rw [hget _ (by decide)]; simp [LineItem.fields])
  simp only [LineItem.decode, record, bind, Except.bind, hside, hentity, hquantity, hprice,
    hamount, hcode, hdescription]
  rfl

end Decoding

/-! ## Journals of stored lines -/

section Journals

variable {items : List LineItem}

theorem lineOf_withoutNulls {index : Nat} {item : LineItem} {line : Option Rule.JournalLine}
    (h : Rule.lineOf index item = .ok line) : Rule.lineOf index item.withoutNulls = .ok line := by
  unfold Rule.lineOf at h ⊢
  cases hside : item.side with
  | none =>
    rw [hside] at h
    simp only [LineItem.withoutNulls, hside]
    exact h
  | some side =>
    rw [hside] at h
    cases hamount : item.amount with
    | none =>
      rw [hamount] at h
      cases h
    | some v =>
      -- A null is no decimal, so an amount that has been accepted is kept.
      have hnull : v ≠ .null := by
        rintro rfl
        rw [hamount] at h
        cases h
      rw [hamount] at h
      simp only [LineItem.withoutNulls, hside, hamount, Option.filter, hnull, ne_eq,
        not_false_eq_true, decide_true, if_true]
      exact h

theorem journalLines_cons_eq_ok {index : Nat} {item : LineItem} {lines : List Rule.JournalLine} :
    Rule.journalLines index (item :: items) = .ok lines ↔ ∃ line more,
      Rule.lineOf index item = .ok line ∧ Rule.journalLines (index + 1) items = .ok more ∧
        line.toList ++ more = lines := by
  simp only [Rule.journalLines, bind_eq_ok_iff, pure, Except.pure, Except.ok.injEq]
  constructor
  · rintro ⟨line, hline, more, hmore, h⟩
    exact ⟨line, more, hline, hmore, h⟩
  · rintro ⟨line, more, hline, hmore, h⟩
    exact ⟨line, hline, more, hmore, h⟩

theorem journalOf_eq_ok {journal : Option (List Rule.JournalLine)} :
    Rule.journalOf items = .ok journal ↔ ∃ lines, Rule.journalLines 0 items = .ok lines ∧
      (if lines.isEmpty then none else some lines) = journal := by
  simp only [Rule.journalOf, bind_eq_ok_iff, pure, Except.pure, Except.ok.injEq]

theorem journalLines_withoutNulls {index : Nat} {lines : List Rule.JournalLine}
    (h : Rule.journalLines index items = .ok lines) :
    Rule.journalLines index (items.map LineItem.withoutNulls) = .ok lines := by
  induction items generalizing index lines with
  | nil => exact h
  | cons item rest ih =>
    obtain ⟨line, more, hline, hmore, hlines⟩ := journalLines_cons_eq_ok.1 h
    exact journalLines_cons_eq_ok.2 ⟨line, more, lineOf_withoutNulls hline, ih hmore, hlines⟩

theorem Balances.withoutNulls (h : Balances items) :
    Balances (items.map LineItem.withoutNulls) := by
  obtain ⟨journal, verdict, hjournal, hrest⟩ := h
  obtain ⟨lines, hlines, heq⟩ := journalOf_eq_ok.1 hjournal
  exact ⟨journal, verdict, journalOf_eq_ok.2 ⟨lines, journalLines_withoutNulls hlines, heq⟩, hrest⟩

theorem side_eq_none_of_journalLines {index : Nat} (h : Rule.journalLines index items = .ok []) :
    ∀ item ∈ items, item.side = none := by
  induction items generalizing index with
  | nil => exact fun _ h => absurd h List.not_mem_nil
  | cons item rest ih =>
    obtain ⟨line, more, hline, hmore, happend⟩ := journalLines_cons_eq_ok.1 h
    obtain ⟨hnone, rfl⟩ := List.append_eq_nil_iff.1 happend
    intro other hother
    rcases List.mem_cons.1 hother with rfl | hother
    · rw [Option.toList_eq_nil_iff.1 hnone] at hline
      unfold Rule.lineOf at hline
      cases hside : other.side with
      | none => rfl
      | some side =>
        simp only [hside] at hline
        split at hline
        · cases hline
        · split at hline <;> cases hline
    · exact ih hmore other hother

/-- Where there is no journal, no line names a side. -/
theorem side_eq_none_of_journalOf (h : Rule.journalOf items = .ok none) :
    ∀ item ∈ items, item.side = none := by
  obtain ⟨lines, hlines, hnone⟩ := journalOf_eq_ok.1 h
  cases lines with
  | nil => exact side_eq_none_of_journalLines hlines
  | cons line rest => cases hnone

end Journals

/-! ## Audited stores -/

namespace Store

/-- The lines of a transaction, read back from the store. -/
def itemsOf (s : Store) (transaction : String) : Decoded (List LineItem) :=
  items (LineItem.decode .direct) ((s.linesOf transaction).map fun line => .map line.content)

/-- What an audit demands of the records of a store. -/
structure Audited (s : Store) : Prop where
  codes : ∀ row ∈ s.rows, row.table ∈ [Table.entities, .transactions, .relationships] →
    ∃ code, row.text? "smart_code" = some code ∧ SmartCode.isValid code = true
  lineCodes : ∀ row ∈ s.rows, row.table = .lines → ∀ v,
    Entries.get? "smart_code" row.content = some v →
      ∃ code, v = .text code ∧ SmartCode.isValid code = true
  /-- The stored lines of a transaction balance, if one of them names a side. -/
  journals : ∀ row ∈ s.rows, row.table = .transactions → ∀ id, row.text? "id" = some id →
    (∃ line ∈ s.linesOf id, (Entries.get? "line_type" line.content).isSome) →
      ∃ items, s.itemsOf id = .ok items ∧ Balances items

/-- An operation that has passed its check. -/
def Checked (o : Operation) : Prop := o.check = .ok ()

section Audit

variable {s : Store}

theorem Grown.codes (h : Grown Checked s) : ∀ row ∈ s.rows,
    row.table ∈ [Table.entities, .transactions, .relationships] →
      ∃ code, row.text? "smart_code" = some code ∧ SmartCode.isValid code = true := by
  refine h.forall_rows fun organization n o row hcheck hnew htable => ?_
  have hvalid : ∀ code, o.smartCode? = some code → SmartCode.isValid code = true :=
    fun _ hcode => isValid_of_checkCode (checkCode_of_check hcheck) hcode
  cases hnew with
  | entity p =>
    refine ⟨p.smartCode, ?_, hvalid _ rfl⟩
    simp [Row.text?, textAt?, entityRecord, heading, Entries.get?, Value.text?]
  | transaction p =>
    refine ⟨p.smartCode, ?_, hvalid _ rfl⟩
    simp [Row.text?, textAt?, transactionRecord, heading, Entries.get?, Value.text?]
  | relationship p id =>
    refine ⟨p.smartCode, ?_, hvalid _ rfl⟩
    simp [Row.text?, textAt?, relationshipRecord, heading, Entries.get?, Value.text?]
  | _ => simp at htable

theorem Grown.lineCodes (h : Grown Checked s) : ∀ row ∈ s.rows, row.table = .lines → ∀ v,
    Entries.get? "smart_code" row.content = some v →
      ∃ code, v = .text code ∧ SmartCode.isValid code = true := by
  refine h.forall_rows fun organization n o row hcheck hnew htable v hv => ?_
  cases hnew with
  | line p id number item hitem =>
    rw [get?_lineCode, Option.map_eq_some_iff] at hv
    obtain ⟨code, hcode, rfl⟩ := hv
    exact ⟨code, rfl, isValid_of_checkLines (checks_of_check hcheck).1 item hitem code hcode⟩
  | _ => cases htable

/-- The lines of a transaction read back as those that it was made with. -/
theorem itemsOf_eq {organization transaction : String} {lines : List LineItem}
    (h : List.Forall₂ (IsLine organization transaction) (lines.zipIdx 1)
      (s.linesOf transaction)) :
    s.itemsOf transaction = .ok (lines.map LineItem.withoutNulls) := by
  have hlines : lines.map LineItem.withoutNulls =
      (lines.zipIdx 1).map fun item => item.1.withoutNulls := by
    conv_lhs => rw [← List.zipIdx_map_fst 1 lines, List.map_map]
    rfl
  rw [itemsOf, items_eq_ok_iff, hlines, List.forall₂_map_left_iff, List.forall₂_map_right_iff]
  refine (h.imp ?_).flip
  rintro ⟨item, number⟩ row ⟨id, rfl⟩
  exact decode_lineRecord ..

/-- A stored line that names a side is the line of an item that does. -/
theorem exists_side {organization transaction : String} {items : List (LineItem × Nat)}
    {rows : List Row} (h : List.Forall₂ (IsLine organization transaction) items rows) {line : Row}
    (hline : line ∈ rows) (hside : (Entries.get? "line_type" line.content).isSome) :
    ∃ item ∈ items, item.1.side ≠ none := by
  induction h with
  | nil => cases hline
  | @cons item row items rows hfirst _ ih =>
    rcases List.mem_cons.1 hline with rfl | hline
    · obtain ⟨id, rfl⟩ := hfirst
      refine ⟨item, List.mem_cons_self, ?_⟩
      rintro hnone
      rw [get?_lineSide, hnone] at hside
      cases hside
    · obtain ⟨other, hother, hne⟩ := ih hline
      exact ⟨other, List.mem_cons_of_mem item hother, hne⟩

theorem Grown.journals (h : Grown Checked s) : ∀ row ∈ s.rows, row.table = .transactions →
    ∀ id, row.text? "id" = some id →
      (∃ line ∈ s.linesOf id, (Entries.get? "line_type" line.content).isSome) →
        ∃ items, s.itemsOf id = .ok items ∧ Balances items := by
  intro row hrow htable id hid ⟨line, hline, hside⟩
  obtain ⟨id', organization, p, hcheck, hcontent, hall⟩ := h.made row hrow htable
  have hsame : id' = id := by
    rw [Row.text?, hcontent] at hid
    exact Option.some.inj hid
  subst hsame
  obtain ⟨⟨item, number⟩, hitem, hne⟩ := exists_side hall hline hside
  have hmem : item ∈ p.lines := List.fst_mem_of_mem_zipIdx hitem
  refine ⟨_, itemsOf_eq hall, ?_⟩
  rcases balances_of_checkBalance (checks_of_check hcheck).2 with hnone | hbalances
  · exact absurd (side_eq_none_of_journalOf hnone item hmem) hne
  · exact hbalances.withoutNulls

/-- **Checked operations keep the store audited.** -/
theorem Grown.audited (h : Grown Checked s) : s.Audited where
  codes := h.codes
  lineCodes := h.lineCodes
  journals := h.journals

end Audit

end Store

end ProcessTest
