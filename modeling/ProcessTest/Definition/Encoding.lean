import ProcessTest.Definition

/-!
# Encoding as value trees

The value tree of each part of a definition: fields in a fixed order, the name of the kind
first.  Missing optional fields are left out, and so are empty lists of lines, conditions of
steps and empty dynamic fields.
-/

set_option autoImplicit false

namespace ProcessTest

namespace Encode

/-- A field that is left out where there is no value. -/
def optional {α : Type} (name : String) (encode : α → Value) : Option α → Entries
  | some a => [(name, encode a)]
  | none => []

@[simp] theorem get?_optional {α : Type} (key name : String) (encode : α → Value) (a : Option α) :
    Entries.get? key (optional name encode a) = if name = key then a.map encode else none := by
  cases a with
  | none => simp [optional, Entries.get?]
  | some a => simp [optional, Entries.get?]

/-- A list that is left out where it is empty. -/
def nonempty {α : Type} (name : String) (encode : α → Value) : List α → Entries
  | [] => []
  | as => [(name, .list (as.map encode))]

@[simp] theorem get?_nonempty {α : Type} (key name : String) (encode : α → Value) (as : List α) :
    Entries.get? key (nonempty name encode as) =
      if name = key ∧ as ≠ [] then some (.list (as.map encode)) else none := by
  cases as with
  | nil => simp [nonempty, Entries.get?]
  | cons a rest => simp [nonempty, Entries.get?]

/-- A list of texts. -/
def texts (ss : List String) : Value := .list (ss.map .text)

/-- A map with values of one type. -/
def map {α : Type} (encode : α → Value) (es : List (String × α)) : Value :=
  .map (es.map fun (k, a) => (k, encode a))

end Encode

open Encode

def Setting.encode (s : Setting) : Value :=
  .map (optional "tenant" .text s.tenant ++
    [("organization_id", .text s.organization), ("currency", .text s.currency),
     ("locale", .text s.locale)] ++
    optional "fiscal_year" (fun y => .number (.int y)) s.fiscalYear ++
    optional "clock" .text s.clock)

def Persona.encode (p : Persona) : Value :=
  .map [("role", .text p.role), ("permissions", texts p.permissions)]

/-- The fields of a line in order. -/
def LineItem.fields (l : LineItem) : Entries :=
  optional "line_type" (fun s : Side => .text s.name) l.side ++
    optional "entity_id" .text l.entityId ++ optional "quantity" id l.quantity ++
    optional "unit_price" id l.unitPrice ++ optional "line_amount" id l.amount ++
    optional "smart_code" .text l.smartCode ++ optional "description" .text l.description

def LineItem.encode (l : LineItem) : Value := .map l.fields

def NewEntity.fields (p : NewEntity) : Entries :=
  [("entity_type", .text p.entityType), ("entity_name", .text p.name)] ++
    optional "entity_code" .text p.code ++ [("smart_code", .text p.smartCode)] ++
    (if p.dynamicFields.isEmpty then [] else [("dynamic_fields", .map p.dynamicFields)]) ++
    optional "metadata" id p.metadata

def NewTransaction.fields (p : NewTransaction) : Entries :=
  [("transaction_type", .text p.transactionType), ("smart_code", .text p.smartCode)] ++
    optional "transaction_code" .text p.code ++ optional "transaction_date" .text p.date ++
    optional "total_amount" id p.totalAmount ++ optional "source_entity_id" .text p.sourceId ++
    optional "target_entity_id" .text p.targetId ++
    nonempty "line_items" LineItem.encode p.lines ++ optional "metadata" id p.metadata

def NewRelationship.fields (p : NewRelationship) : Entries :=
  [("from_entity_id", .text p.fromId), ("to_entity_id", .text p.toId),
   ("relationship_type", .text p.relationshipType), ("smart_code", .text p.smartCode)] ++
    optional "metadata" id p.metadata

def NewField.fields (p : NewField) : Entries :=
  [("entity_id", .text p.entityId), ("field_name", .text p.name), ("field_value", p.value)] ++
    optional "smart_code" .text p.smartCode

def Interaction.fields (p : Interaction) : Entries :=
  [("interaction", .text p.gesture.name)] ++ optional "selector" .text p.selector ++
    optional "value" .text p.value ++ optional "url" .text p.url

def Request.fields (p : Request) : Entries :=
  [("method", .text p.method.name), ("endpoint", .text p.endpoint)] ++
    optional "body" id p.body ++ optional "expect_status" .ofNat p.expectStatus

/-- The fields of an operation without its kind. -/
def Operation.payload : Operation → Entries
  | .entity p => p.fields
  | .transaction p => p.fields
  | .relationship p => p.fields
  | .field p => p.fields
  | .interaction p => p.fields
  | .request p => p.fields
  | .wait ms => [("duration_ms", .ofNat ms)]

def Operation.fields (o : Operation) : Entries := ("type", .text o.kind) :: o.payload

def Operation.encode (o : Operation) : Value := .map o.fields

def Action.encode (a : Action) : Value :=
  .map (a.operation.fields ++ optional "persona" .text a.persona ++
    optional "store_as" .text a.storeAs ++ optional "description" .text a.description)

def Step.encode (s : Step) : Value :=
  .map ([("id", .text s.id), ("description", .text s.description), ("persona", .text s.persona),
      ("actions", .list (s.actions.map Action.encode))] ++
    nonempty "preconditions" .text s.preconditions ++
    nonempty "postconditions" .text s.postconditions ++
    [("timeout", .ofNat s.timeout), ("retry", .ofNat s.retry)])

def JournalEntry.encode (e : JournalEntry) : Value :=
  .map (optional "debit" id e.debit ++ optional "credit" id e.credit)

/-- The operands of a rule. -/
def Rule.operands : Rule → Entries
  | .accountingEquation assets liabilities equity tolerance =>
    [("assets", assets), ("liabilities", liabilities), ("equity", equity)] ++
      optional "tolerance" id tolerance
  | .journalBalance lines tolerance =>
    [("lines", .list (lines.map JournalEntry.encode))] ++ optional "tolerance" id tolerance
  | .taxCalculation amount rate inclusive expectedTax expectedGross =>
    [("amount", amount), ("rate", rate), ("inclusive", .bool inclusive)] ++
      optional "expected_tax" id expectedTax ++ optional "expected_gross" id expectedGross
  | .statusTransition source target transitions =>
    [("from", .text source), ("to", .text target), ("transitions", map texts transitions)]
  | .smartCode code => [("code", .text code)]

def Rule.fields (r : Rule) : Entries := ("rule", .text r.name) :: r.operands

def Rule.encode (r : Rule) : Value := .map r.fields

def PageCheck.encode (c : PageCheck) : Value :=
  .map ([("selector", .text c.selector)] ++ optional "visible" .bool c.visible ++
    optional "text" .text c.text)

/-- The fields of a check without its kind. -/
def Check.fields : Check → Entries
  | .database table conditions expectedCount =>
    [("table", .text table), ("conditions", .map conditions),
     ("expected_count", .ofNat expectedCount)]
  | .page checks => [("checks", .list (checks.map PageCheck.encode))]
  | .rule r => r.fields
  | .variable path expected => [("path", .text path)] ++ optional "equals" id expected

def Assertion.encode (a : Assertion) : Value :=
  .map (("type", .text a.check.kind) :: optional "description" .text a.description ++
    a.check.fields)

def Metadata.encode (m : Metadata) : Value :=
  .map [("tags", texts m.tags), ("priority", .text m.priority.name),
    ("environments", texts m.environments)]

def Policy.encode (p : Policy) : Value :=
  .map [("failure", .text p.failure.name), ("always_cleanup", .bool p.alwaysCleanup)]

def Definition.encode (d : Definition) : Value :=
  .map ([("version", .text d.version), ("id", .text d.id), ("title", .text d.title),
      ("industry", .text d.industry)] ++
    optional "description" .text d.description ++
    [("context", d.setting.encode), ("personas", map Persona.encode d.personas),
     ("setup", .list (d.setup.map Action.encode)), ("steps", .list (d.steps.map Step.encode)),
     ("cleanup", .list (d.cleanup.map Action.encode)),
     ("assertions", .list (d.assertions.map Assertion.encode)),
     ("metadata", d.metadata.encode), ("policy", d.policy.encode)])

end ProcessTest
