import ProcessTest.Proofs.Decoding.Filled
import ProcessTest.Proofs.Encoding.Lossless
import ProcessTest.Run.Action

/-!
# Filled actions and rules

An action or a rule is filled as a whole: with values, if what all its texts become can be read as
texts again, and otherwise with texts throughout, the fields that take any value among them.

* `Action.filled`, `Rule.filled` — a part, filled field by field in one of the two ways.
* `reads_operation`, `reads_action`, `reads_rule` — what a filled part is read as.
* `Action.succeeds_resolve` — a decoded action can always be filled.
* `resolve_eq_filled` — the one way in which all fields of a part are filled.
* `not_filled_field_by_field` — so no field is filled on its own.
-/

set_option autoImplicit false

namespace ProcessTest

open Decode Template

/-! ## Actions -/

section Actions

variable (g : Filling) (b : Bindings)

namespace LineItem

def filled (l : LineItem) : LineItem where
  side := l.side
  entityId := g.text? b l.entityId
  quantity := g.value? b l.quantity
  unitPrice := g.value? b l.unitPrice
  amount := g.value? b l.amount
  smartCode := g.text? b l.smartCode
  description := g.text? b l.description

/-- The texts that may be missing. -/
def optionalTexts (l : LineItem) : List String :=
  l.entityId.toList ++ l.smartCode.toList ++ l.description.toList

end LineItem

namespace Operation

/-- The operation, filled field by field. -/
def filled : Operation → Operation
  | .entity p => .entity {
      entityType := g.text b p.entityType
      name := g.text b p.name
      code := g.text? b p.code
      smartCode := g.text b p.smartCode
      dynamicFields := g.entries b p.dynamicFields
      metadata := g.value? b p.metadata }
  | .transaction p => .transaction {
      transactionType := g.text b p.transactionType
      smartCode := g.text b p.smartCode
      code := g.text? b p.code
      date := g.text? b p.date
      totalAmount := g.value? b p.totalAmount
      sourceId := g.text? b p.sourceId
      targetId := g.text? b p.targetId
      lines := p.lines.map (LineItem.filled g b)
      metadata := g.value? b p.metadata }
  | .relationship p => .relationship {
      fromId := g.text b p.fromId
      toId := g.text b p.toId
      relationshipType := g.text b p.relationshipType
      smartCode := g.text b p.smartCode
      metadata := g.value? b p.metadata }
  | .field p => .field {
      entityId := g.text b p.entityId
      name := g.text b p.name
      value := g.tree b p.value
      smartCode := g.text? b p.smartCode }
  | .interaction p => .interaction {
      gesture := p.gesture
      selector := g.text? b p.selector
      value := g.text? b p.value
      url := g.text? b p.url }
  | .request p => .request {
      method := p.method
      endpoint := g.text b p.endpoint
      body := g.value? b p.body
      expectStatus := p.expectStatus }
  | .wait ms => .wait ms

/-- The texts that must be there. -/
def neededTexts : Operation → List String
  | .entity p => [p.entityType, p.name, p.smartCode]
  | .transaction p => [p.transactionType, p.smartCode]
  | .relationship p => [p.fromId, p.toId, p.relationshipType, p.smartCode]
  | .field p => [p.entityId, p.name]
  | .interaction _ => []
  | .request p => [p.endpoint]
  | .wait _ => []

/-- The texts that may be missing. -/
def optionalTexts : Operation → List String
  | .entity p => p.code.toList
  | .transaction p =>
    p.code.toList ++ p.date.toList ++ p.sourceId.toList ++ p.targetId.toList ++
      p.lines.flatMap LineItem.optionalTexts
  | .relationship _ => []
  | .field p => p.smartCode.toList
  | .interaction p => p.selector.toList ++ p.value.toList ++ p.url.toList
  | .request _ | .wait _ => []

end Operation

namespace Action

/-- The action, filled field by field. -/
def filled (a : Action) : Action where
  operation := a.operation.filled g b
  persona := g.text? b a.persona
  storeAs := g.text? b a.storeAs
  description := g.text? b a.description

/-- The texts that may be missing. -/
def optionalTexts (a : Action) : List String :=
  a.operation.optionalTexts ++ a.persona.toList ++ a.storeAs.toList ++ a.description.toList

/-- The way in which the action is filled. -/
def filling (a : Action) : Filling :=
  if Filling.typed.fits b a.operation.neededTexts a.optionalTexts then .typed else .plain

end Action

variable {g b}

theorem reads_lineItem (l : LineItem) :
    Reads g b (LineItem.decode .inside (g.tree b l.encode)) [] l.optionalTexts (l.filled g b) := by
  have hline : Entries.get? "line_type" l.fields = l.side.map fun s => .text s.name := by
    simp [LineItem.fields]
  have hside : Reads g b
      (Decode.optional (g.entries b l.fields) "line_type" (choice .inside Side.all Side.name))
      [] [] l.side :=
    .optionalSteady hline fun s _ => ⟨Filling.tree_text_of_keys_eq_nil _ _
      (by cases s <;> decide +kernel), by simp, by cases s <;> rfl⟩
  rw [LineItem.encode, Filling.tree_map]
  refine .of_eq (hside.bind <| .bind (.optionalText (s := l.entityId) ?_) <|
    .bind (.optionalAny (v := l.quantity) ?_) <| .bind (.optionalAny (v := l.unitPrice) ?_) <|
    .bind (.optionalAny (v := l.amount) ?_) <| .bind (.optionalText (s := l.smartCode) ?_) <|
    .last (.optionalText (s := l.description) ?_)) rfl (by simp [LineItem.optionalTexts])
  all_goals simp [LineItem.fields]

theorem reads_entity (p : NewEntity) :
    Reads g b ((NewEntity.decode (.map (g.entries b p.fields))).map .entity)
      (Operation.entity p).neededTexts (Operation.entity p).optionalTexts
      ((Operation.entity p).filled g b) := by
  refine .map (.of_eq (.bind (.requiredText (s := p.entityType) ?_) <|
    .bind (.requiredText (s := p.name) ?_) <| .bind (.optionalText (s := p.code) ?_) <|
    .bind (.requiredText (s := p.smartCode) ?_) <|
    .bind (.omitted (a := p.dynamicFields) (.fields _) ?_ ?_) <|
    .last (.optionalAny (v := p.metadata) ?_)) rfl (by simp [Operation.optionalTexts])) _
  all_goals simp +contextual [NewEntity.fields, Entries.get?, Filling.entries]

theorem reads_transaction (p : NewTransaction) :
    Reads g b ((NewTransaction.decode (.map (g.entries b p.fields))).map .transaction)
      (Operation.transaction p).neededTexts (Operation.transaction p).optionalTexts
      ((Operation.transaction p).filled g b) := by
  refine .map (.of_eq (.bind (.requiredText (s := p.transactionType) ?_) <|
    .bind (.requiredText (s := p.smartCode) ?_) <|
    .bind (.optionalText (s := p.code) ?_) <| .bind (.optionalText (s := p.date) ?_) <|
    .bind (.optionalAny (v := p.totalAmount) ?_) <| .bind (.optionalText (s := p.sourceId) ?_) <|
    .bind (.optionalText (s := p.targetId) ?_) <|
    .bind (.omitted (a := p.lines) (.list fun l _ => reads_lineItem l) ?_ ?_) <|
    .last (.optionalAny (v := p.metadata) ?_)) (by simp [Operation.neededTexts])
      (by simp [Operation.optionalTexts])) _
  all_goals simp +contextual [NewTransaction.fields, Entries.get?]

theorem reads_relationship (p : NewRelationship) :
    Reads g b ((NewRelationship.decode (.map (g.entries b p.fields))).map .relationship)
      (Operation.relationship p).neededTexts (Operation.relationship p).optionalTexts
      ((Operation.relationship p).filled g b) := by
  refine .map (.of_eq (.bind (.requiredText (s := p.fromId) ?_) <|
    .bind (.requiredText (s := p.toId) ?_) <|
    .bind (.requiredText (s := p.relationshipType) ?_) <|
    .bind (.requiredText (s := p.smartCode) ?_) <|
    .last (.optionalAny (v := p.metadata) ?_)) rfl rfl) _
  all_goals simp [NewRelationship.fields, Entries.get?]

theorem reads_field (p : NewField) :
    Reads g b ((NewField.decode (.map (g.entries b p.fields))).map .field)
      (Operation.field p).neededTexts (Operation.field p).optionalTexts
      ((Operation.field p).filled g b) := by
  refine .map (.of_eq (.bind (.requiredText (s := p.entityId) ?_) <|
    .bind (.requiredText (s := p.name) ?_) <|
    .bind (.requiredAny (v := p.value) ?_) <|
    .last (.optionalText (s := p.smartCode) ?_)) rfl rfl) _
  all_goals simp [NewField.fields, Entries.get?]

theorem reads_interaction (p : Interaction) :
    Reads g b ((Interaction.decode (.map (g.entries b p.fields))).map .interaction)
      (Operation.interaction p).neededTexts (Operation.interaction p).optionalTexts
      ((Operation.interaction p).filled g b) := by
  have hgesture : Reads g b (choice .inside Gesture.all Gesture.name
      (g.tree b (.text p.gesture.name))) [] [] p.gesture :=
    .steady (Filling.tree_text_of_keys_eq_nil _ _ (by cases p.gesture <;> decide +kernel))
      (by cases p.gesture <;> rfl)
  refine .map (.of_eq (.bind (.required ?_ hgesture) <|
    .bind (.optionalText (s := p.selector) ?_) <| .bind (.optionalText (s := p.value) ?_) <|
    .last (.optionalText (s := p.url) ?_)) rfl (by simp [Operation.optionalTexts])) _
  all_goals simp [Interaction.fields, Entries.get?]

theorem reads_request {p : Request} (h : Request.decode (.map p.fields) = .ok p) :
    Reads g b ((Request.decode (.map (g.entries b p.fields))).map .request)
      (Operation.request p).neededTexts (Operation.request p).optionalTexts
      ((Operation.request p).filled g b) := by
  have hmethod : Reads g b (choice .inside Method.all Method.name
      (g.tree b (.text p.method.name))) [] [] p.method :=
    .steady (Filling.tree_text_of_keys_eq_nil _ _ (by cases p.method <;> decide +kernel))
      (by cases p.method <;> rfl)
  have hstatus : Entries.get? "expect_status" p.fields = p.expectStatus.map .ofNat := by
    simp [Request.fields, Entries.get?]
  have hcount : ∀ code ∈ p.expectStatus, asNat 16 (.ofNat code) = .ok code := by
    intro code hcode
    simp only [Request.decode, record_bind, bind_eq_ok_iff] at h
    obtain ⟨_, -, _, -, _, -, status, hread, h⟩ := h
    cases h
    obtain rfl := Option.mem_def.1 hcode
    obtain ⟨v, hv, hread⟩ := exists_of_optional hread
    rw [hstatus] at hv
    cases hv
    exact hread
  refine .map (.of_eq (.bind (.required ?_ hmethod) <|
    .bind (.requiredText (s := p.endpoint) ?_) <|
    .bind (.optionalAny (v := p.body) ?_) <|
    .last (.optionalSteady hstatus fun code hcode =>
      ⟨Filling.tree_number g b _, by simp [Value.ofNat], hcount code hcode⟩)) rfl rfl) _
  all_goals simp [Request.fields, Entries.get?]

theorem reads_wait {ms : Nat} (h : decodeWait (.map (Operation.wait ms).payload) = .ok ms) :
    Reads g b ((decodeWait (.map (g.entries b (Operation.wait ms).payload))).map Operation.wait)
      [] [] (Operation.wait ms) := by
  rw [decodeWait, record_bind] at h ⊢
  exact .map (.required rfl (.steady (Filling.tree_number g b _) h)) _

/-- What a filled operation is read as. -/
theorem reads_operation {o : Operation} (h : Operation.decodeKind o.kind (.map o.payload) = .ok o) :
    Reads g b (Operation.decodeKind o.kind (.map (g.entries b o.payload))) o.neededTexts
      o.optionalTexts (o.filled g b) := by
  cases o with
  | entity p => exact reads_entity p
  | transaction p => exact reads_transaction p
  | relationship p => exact reads_relationship p
  | field p => exact reads_field p
  | interaction p => exact reads_interaction p
  | request p =>
    obtain ⟨q, hq, heq⟩ := map_eq_ok_iff.1 h
    cases heq
    exact reads_request hq
  | wait ms =>
    obtain ⟨n, hn, heq⟩ := map_eq_ok_iff.1 h
    cases heq
    exact reads_wait hn

/-- What a filled action is read as. -/
theorem reads_action {v : Value} {a : Action} (h : Action.decode v = .ok a) :
    Reads g b (Action.decode (g.tree b a.encode)) a.operation.neededTexts a.optionalTexts
      (a.filled g b) := by
  cases v with
  | map part =>
    obtain ⟨⟨kind, w⟩, htag, hkind⟩ := bind_eq_ok_iff.1 (Action.readFrom_of_decode h).operation
    obtain rfl := eq_of_tagged htag
    obtain ⟨rfl, hpayload⟩ := decodeKind_payload hkind
    obtain ⟨fields, hmem⟩ := exists_operationFields a.operation
    have hw := Validation.within_payload (Operation.readFrom_of_decodeKind hkind) hmem
    obtain ⟨hpersona, hstore, hdescription⟩ := Validation.get?_encode hmem hw
    have hkinds : ∀ kind ∈ Operation.kinds, keys kind = [] := by decide +kernel
    have hmem' : a.operation.kind ∈ Operation.kinds := List.mem_map_of_mem (f := Prod.fst) hmem
    have htype : Entries.get? "type" (g.entries b (Validation.written a.encode)) =
        some (.text a.operation.kind) := by
      refine Filling.get?_entries_of_keys_eq_nil g b ?_ (hkinds _ hmem')
      simp [Action.encode, Operation.fields, Entries.get?]
    -- The fields of the action around it make no difference to the operation.
    have hagrees : Validation.Agrees fields (g.entries b (Validation.written a.encode))
        (g.entries b a.operation.payload) := by
      intro field hfield
      rw [Filling.get?_entries, Filling.get?_entries, Validation.agrees_encode hmem field hfield]
    have hoperation : Reads g b
        (Operation.decode .inside (.map (g.entries b (Validation.written a.encode))))
        a.operation.neededTexts a.operation.optionalTexts (a.operation.filled g b) := by
      have hcongr := Validation.decodeKind_congr hmem hagrees
      simp only [Operation.decode, tagged_eq_ok htype hmem', bind, Except.bind, hcongr]
      exact reads_operation hpayload
    have hencode : g.tree b a.encode = .map (g.entries b (Validation.written a.encode)) :=
      Filling.tree_map g b _
    rw [hencode]
    exact .of_eq (hoperation.bind <| .bind (.optionalText hpersona) <|
      .bind (.optionalText hstore) <| .last (.optionalText hdescription)) (by simp)
      (by simp [Action.optionalTexts])
  | _ => cases h

end Actions

/-! ## Rules -/

section Rules

variable (g : Filling) (b : Bindings)

def JournalEntry.filled (e : JournalEntry) : JournalEntry where
  debit := g.value? b e.debit
  credit := g.value? b e.credit

namespace Rule

/-- The rule, filled operand by operand. -/
def filled : Rule → Rule
  | .accountingEquation assets liabilities equity tolerance =>
    .accountingEquation (g.tree b assets) (g.tree b liabilities) (g.tree b equity)
      (g.value? b tolerance)
  | .journalBalance lines tolerance =>
    .journalBalance (lines.map (JournalEntry.filled g b)) (g.value? b tolerance)
  | .taxCalculation amount rate inclusive expectedTax expectedGross =>
    .taxCalculation (g.tree b amount) (g.tree b rate) inclusive (g.value? b expectedTax)
      (g.value? b expectedGross)
  | .statusTransition source target transitions =>
    .statusTransition (g.text b source) (g.text b target)
      (transitions.map fun row => (row.1, row.2.map (g.text b)))
  | .smartCode code => .smartCode (g.text b code)

/-- The texts of the rule. -/
def neededTexts : Rule → List String
  | .statusTransition source target transitions =>
    [source, target] ++ transitions.flatMap fun row => row.2
  | .smartCode code => [code]
  | _ => []

/-- The way in which the rule is filled. -/
def filling (r : Rule) : Filling := if Filling.typed.fits b r.neededTexts [] then .typed else .plain

end Rule

variable {g b}

theorem reads_journalEntry (e : JournalEntry) :
    Reads g b (JournalEntry.decode (g.tree b e.encode)) [] [] (e.filled g b) := by
  rw [JournalEntry.encode, Filling.tree_map]
  refine .bind (.optionalAny (v := e.debit) ?_) (.last (.optionalAny (v := e.credit) ?_))
  all_goals simp

theorem reads_operands (r : Rule) :
    Reads g b (Rule.decodeNamed r.name (.map (g.entries b r.fields))) r.neededTexts []
      (r.filled g b) := by
  cases r with
  | accountingEquation assets liabilities equity tolerance =>
    simp only [Rule.name, Rule.decodeNamed, record_bind]
    refine .bind (.requiredAny (v := assets) ?_) <|
      .bind (.requiredAny (v := liabilities) ?_) <|
      .bind (.requiredAny (v := equity) ?_) <| .last (.optionalAny (v := tolerance) ?_)
    all_goals simp [Rule.fields, Rule.operands, Entries.get?]
  | journalBalance lines tolerance =>
    simp only [Rule.name, Rule.decodeNamed, record_bind]
    refine .of_eq (.bind (.required ?_ (.list fun entry _ => reads_journalEntry entry)) <|
      .last (.optionalAny (v := tolerance) ?_)) (by simp [Rule.neededTexts]) (by simp)
    all_goals simp [Rule.fields, Rule.operands, Entries.get?]
  | taxCalculation amount rate inclusive expectedTax expectedGross =>
    have hinclusive : Reads g b (asBool (g.tree b (.bool inclusive))) [] [] inclusive :=
      .steady (Filling.tree_bool g b inclusive) rfl
    simp only [Rule.name, Rule.decodeNamed, record_bind]
    refine .bind (.requiredAny (v := amount) ?_) <|
      .bind (.requiredAny (v := rate) ?_) <|
      .bind (hinclusive.defaulted ?_) <|
      .bind (.optionalAny (v := expectedTax) ?_) <| .last (.optionalAny (v := expectedGross) ?_)
    all_goals simp [Rule.fields, Rule.operands, Entries.get?]
  | statusTransition source target transitions =>
    simp only [Rule.name, Rule.decodeNamed, record_bind]
    refine .of_eq (.bind (.requiredText (s := source) ?_) <|
      .bind (.requiredText (s := target) ?_) <|
      .last (.required ?_ (.transitions transitions)))
      (by simp [Rule.neededTexts]) (by simp)
    all_goals simp [Rule.fields, Rule.operands, Entries.get?]
  | smartCode code =>
    simp only [Rule.name, Rule.decodeNamed, record_bind]
    exact .last (.requiredText rfl)

/-- What a filled rule is read as. -/
theorem reads_rule (r : Rule) :
    Reads g b (Rule.decode .direct (g.tree b r.encode)) r.neededTexts [] (r.filled g b) := by
  have hnames : ∀ name ∈ Rule.names, keys name = [] := by decide +kernel
  have hmem : r.name ∈ Rule.names := by cases r <;> simp [Rule.name, Rule.names]
  have htag : Entries.get? "rule" (g.entries b r.fields) = some (.text r.name) :=
    Filling.get?_entries_of_keys_eq_nil g b rfl (hnames _ hmem)
  rw [Rule.encode, Filling.tree_map]
  simp only [Rule.decode, tagged_eq_ok htag hmem, bind, Except.bind]
  exact reads_operands r

end Rules

/-! ## Whole parts -/

section Whole

variable {α : Type} {encode : α → Value} {decode : Value → Decoded α} {b : Bindings} {a : α}
  {needed optional : List String} {filled : Filling → α}

/-- The one way to fill all texts of a part. -/
theorem resolveAs_eq
    (h : ∀ g, Reads g b (decode (g.tree b (encode a))) needed optional (filled g)) :
    resolveAs encode decode b a =
      .ok (filled (if Filling.typed.fits b needed optional then .typed else .plain)) := by
  unfold resolveAs
  split
  · rename_i y hy
    obtain ⟨hfits, rfl⟩ := (h .typed y).1 hy
    rw [if_pos hfits]
  · rename_i e he
    have hnot : ¬ Filling.typed.fits b needed optional = true := by
      intro hfits
      have hread := (h .typed _).2 ⟨hfits, rfl⟩
      rw [Filling.tree, he] at hread
      cases hread
    rw [if_neg hnot]
    exact (h .plain _).2 ⟨Filling.fits_plain b needed optional, rfl⟩

end Whole

/-- **A decoded action can always be filled**: where the values do not fit, the texts do. -/
theorem Action.succeeds_resolve {v : Value} {a : Action} (h : Action.decode v = .ok a)
    (b : Bindings) : Succeeds (a.resolve b) :=
  ⟨_, resolveAs_eq fun _ => reads_action h⟩

/-- **All fields of a part are filled in one way.**  If what its texts become can be read as texts,
each field that takes any value becomes the value; if only one of them cannot, all of the fields
are filled with texts, those that take any value among them. -/
theorem resolve_eq_filled (b : Bindings) :
    (∀ v a, Action.decode v = .ok a → a.resolve b = .ok (a.filled (a.filling b) b)) ∧
      ∀ r : Rule, r.resolve b = .ok (r.filled (r.filling b) b) :=
  ⟨fun _ _ h => resolveAs_eq fun _ => reads_action h, fun r =>
    resolveAs_eq fun _ => reads_rule r⟩

/-- How long a pause was. -/
def waited : String := "\x7b\x7bpause.waited_ms\x7d\x7d"

/-- A pause of five milliseconds has been bound. -/
def afterPause : Bindings := Bindings.empty.bind "pause" (.map [("waited_ms", .ofNat 5)])

/-- A new counter of the given name, which holds how long the pause was. -/
def counter (name : String) : NewEntity where
  entityType := "counter"
  name
  code := none
  smartCode := "HERA.SALON.VISIT.ENT.COUNTER.v1"
  dynamicFields := [("count", .text waited)]
  metadata := none

/-- The action that creates the counter. -/
def newCounter (name : String) : Action := ⟨.entity (counter name), none, none, none⟩

/-- A counter with a name of its own counts with a number; one that is named by the number does
not. -/
theorem exists_filled_newCounter :
    (∃ a, Action.decode (newCounter "Visits").encode = .ok (newCounter "Visits") ∧
      (newCounter "Visits").resolve afterPause = .ok a ∧
      a.operation = .entity { counter "Visits" with dynamicFields := [("count", .ofNat 5)] }) ∧
    ∃ a, Action.decode (newCounter waited).encode = .ok (newCounter waited) ∧
      (newCounter waited).resolve afterPause = .ok a ∧
      a.operation = .entity { counter "5" with dynamicFields := [("count", .text "5")] } := by
  have hresolve := (resolve_eq_filled afterPause).1
  have hvisits : Action.decode (newCounter "Visits").encode = .ok (newCounter "Visits") := by
    decide +kernel
  have hwaited : Action.decode (newCounter waited).encode = .ok (newCounter waited) := by
    decide +kernel
  exact ⟨⟨_, hvisits, hresolve _ _ hvisits, by decide +kernel⟩,
    ⟨_, hwaited, hresolve _ _ hwaited, by decide +kernel⟩⟩

/-- The way in which a field is filled is not a matter of the field alone. -/
theorem not_filled_field_by_field :
    ¬ ∀ (b : Bindings) (v : Value) (a y : Action) (p q : NewEntity), Action.decode v = .ok a →
      a.resolve b = .ok y → a.operation = .entity p → y.operation = .entity q →
      q.dynamicFields = resolveEntries b p.dynamicFields := by
  intro h
  have hfields := h afterPause (newCounter waited).encode (newCounter waited)
    ⟨.entity { counter "5" with dynamicFields := [("count", .text "5")] }, none, none, none⟩
    (counter waited) { counter "5" with dynamicFields := [("count", .text "5")] }
    (by decide +kernel) (by decide +kernel) rfl rfl
  revert hfields
  decide +kernel

end ProcessTest
