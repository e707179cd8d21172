import ProcessTest.Definition
import ProcessTest.Text.Blank
import ProcessTest.Validation.Fault

/-!
# Field tables

Which fields each part of a document may have, what they hold, and which of them it needs.

* `FieldKind.accepts` — the values of a kind.
* `checkFields` — the faults of a part against its tables, in the order of the tables; unknown
  fields come last, in document order.
-/

set_option autoImplicit false

namespace ProcessTest.Validation

/-- A field that a part may have. -/
structure Field where
  name : String
  kind : FieldKind
  required : Bool
  deriving DecidableEq, Repr

/-- A field that must be there. -/
def need (name : String) (kind : FieldKind) : Field := ⟨name, kind, true⟩

/-- A field that may be there. -/
def may (name : String) (kind : FieldKind) : Field := ⟨name, kind, false⟩

/-- Text that is not blank. -/
def isName : Value → Bool
  | .text s => !Text.allBlank s
  | _ => false

/-- Whether every item of a list is a text. -/
def areTexts : List Value → Bool
  | [] => true
  | .text _ :: rest => areTexts rest
  | _ :: _ => false

/-- Whether a value is of a kind. -/
def FieldKind.accepts : FieldKind → Value → Bool
  | .name, v => isName v
  | .count, v => v.natural?.isSome
  | .amount, .number _ => true
  | .amount, v => isName v
  | .text, .text _ => true
  | .bool, .bool _ => true
  | .map, .map _ => true
  | .list, .list _ => true
  | .texts, .list items => areTexts items
  | .any, _ => true
  | _, _ => false

/-! ## Tables -/

def rootFields : List Field :=
  [may "version" .name, need "id" .name, need "title" .name, may "industry" .name,
   may "description" .text, need "context" .map, need "personas" .map, may "setup" .list,
   need "steps" .list, may "cleanup" .list, may "assertions" .list, may "metadata" .map,
   may "policy" .map]

def settingFields : List Field :=
  [may "tenant" .name, need "organization_id" .name, may "currency" .name, may "locale" .name,
   may "fiscal_year" .count, may "clock" .name]

def personaFields : List Field := [need "role" .name, may "permissions" .texts]

def stepFields : List Field :=
  [need "id" .name, may "description" .text, need "persona" .name, need "actions" .list,
   may "preconditions" .texts, may "postconditions" .texts, may "timeout" .count,
   may "retry" .count]

/-- The fields of every action. -/
def actionFields : List Field :=
  [need "type" .name, may "persona" .name, may "store_as" .name, may "description" .text]

/-- The further fields of each kind of action. -/
def operationFields : List (String × List Field) :=
  [("create_entity",
     [need "entity_type" .name, need "entity_name" .name, may "entity_code" .name,
      need "smart_code" .name, may "dynamic_fields" .map, may "metadata" .map]),
   ("create_transaction",
     [need "transaction_type" .name, need "smart_code" .name, may "transaction_code" .name,
      may "transaction_date" .name, may "total_amount" .amount, may "source_entity_id" .name,
      may "target_entity_id" .name, may "line_items" .list, may "metadata" .map]),
   ("create_relationship",
     [need "from_entity_id" .name, need "to_entity_id" .name, need "relationship_type" .name,
      need "smart_code" .name, may "metadata" .map]),
   ("set_dynamic_field",
     [need "entity_id" .name, need "field_name" .name, need "field_value" .any,
      may "smart_code" .name]),
   ("ui_interaction",
     [need "interaction" .name, may "selector" .name, may "value" .text, may "url" .name]),
   ("api_call",
     [need "method" .name, need "endpoint" .name, may "body" .any, may "expect_status" .count]),
   ("wait", [need "duration_ms" .count])]

def lineItemFields : List Field :=
  [may "line_type" .name, may "entity_id" .name, may "quantity" .amount, may "unit_price" .amount,
   may "line_amount" .amount, may "smart_code" .name, may "description" .text]

/-- The fields of every assertion. -/
def assertionFields : List Field := [need "type" .name, may "description" .text]

/-- The further fields of each kind of assertion. -/
def checkKindFields : List (String × List Field) :=
  [("database", [need "table" .name, may "conditions" .map, need "expected_count" .count]),
   ("ui", [need "checks" .list]),
   ("business_rule", [need "rule" .name]),
   ("variable", [need "path" .name, may "equals" .any])]

def pageCheckFields : List Field :=
  [need "selector" .name, may "visible" .bool, may "text" .text]

/-- The operands of each rule. -/
def ruleFields : List (String × List Field) :=
  [("accounting_equation",
     [need "assets" .amount, need "liabilities" .amount, need "equity" .amount,
      may "tolerance" .amount]),
   ("journal_balance", [need "lines" .list, may "tolerance" .amount]),
   ("tax_calculation",
     [need "amount" .amount, need "rate" .amount, may "inclusive" .bool,
      may "expected_tax" .amount, may "expected_gross" .amount]),
   ("status_transition", [need "from" .name, need "to" .name, need "transitions" .map]),
   ("smart_code", [need "code" .name])]

def journalLineFields : List Field := [may "debit" .amount, may "credit" .amount]

def metadataFields : List Field :=
  [may "tags" .texts, may "priority" .name, may "environments" .texts]

def policyFields : List Field := [may "failure" .name, may "always_cleanup" .bool]

/-! ## Checking fields -/

/-- The problem of one field of a table. -/
def Field.problem? (field : Field) (part : Entries) : Option Problem :=
  match Entries.get? field.name part with
  | none => if field.required then some (.missing field.name) else none
  | some .null =>
    if field.required then some (.missing field.name)
    else if field.kind = .any then none
    else some (.null field.name field.kind)
  | some v => if field.kind.accepts v then none else some (.mistyped field.name field.kind)

/-- The fault of one field of a table. -/
def Field.faults (path : String) (part : Entries) (field : Field) : List Fault :=
  match field.problem? part with
  | some problem => [⟨inField path field.name, problem⟩]
  | none => []

/-- The faults of the fields of a part. -/
def checkFields (path : String) (part : Entries) (table : List Field) (owner : String) :
    List Fault :=
  table.flatMap (Field.faults path part) ++
    (part.keys.filter fun key => !(table.map Field.name).contains key).map
      fun key => ⟨inField path key, .foreign key owner⟩

end ProcessTest.Validation
