import ProcessTest.Definition

/-!
# Decoding value trees

How the typed parts of a definition are read from a value tree, without the checks of the
validator: unknown fields are passed over, an optional field may be missing or null, a field with
a default may be missing.

A record is a map, or a list of its fields in order.  A tagged record names its kind in one of
its fields, or as the first item of its list.

* `Decode.record`, `required`, `optional`, `defaulted` — records and their fields.
* `Decode.tagged`, `choice` — kinds and names.
* `Definition.decode` and its companions — the parts of a definition.
-/

set_option autoImplicit false

namespace ProcessTest

/-- Why a value does not fit a type. -/
inductive DecodeError where
  | missing (field : String)
  /-- It is of another shape. -/
  | shape
  /-- It is no name of a choice. -/
  | unknown (name : String)
  /-- A whole number is outside the range of the named type. -/
  | range (n : Int) (type : String)
  deriving DecidableEq

/-- The wording of a decoding error. -/
def DecodeError.message : DecodeError → String
  | .missing field => s!"missing field `{field}`"
  | .shape => "invalid type"
  | .unknown name => s!"unknown variant `{name}`"
  | .range n type => s!"invalid value: integer `{n}`, expected {type}"

/-- A value read as a type. -/
abbrev Decoded (α : Type) := Except DecodeError α

namespace Decode

/-! ## Scalars and lists -/

def asText : Value → Decoded String
  | .text s => .ok s
  | _ => .error .shape

def asBool : Value → Decoded Bool
  | .bool b => .ok b
  | _ => .error .shape

/-- Any value. -/
def asIs (v : Value) : Decoded Value := .ok v

/-- A whole number between the given ones. -/
def asInt (low high : Int) (type : String) : Value → Decoded Int
  | .number (.int n) => if low ≤ n && n ≤ high then .ok n else .error (.range n type)
  | _ => .error .shape

/-- A whole number of signed 32 bits. -/
def asInt32 : Value → Decoded Int := asInt (-(Nat.pow 2 31 : Int)) (Nat.pow 2 31 - 1 : Int) "i32"

/-- A whole number of the given bits that is not negative. -/
def asNat (bits : Nat) : Value → Decoded Nat
  | .number (.int (.ofNat n)) =>
    if n < Nat.pow 2 bits then .ok n else .error (.range n s!"u{bits}")
  | .number (.int (.negSucc n)) => .error (.range (.negSucc n) s!"u{bits}")
  | _ => .error .shape

/-- Reads every item. -/
def items {α : Type} (read : Value → Decoded α) : List Value → Decoded (List α)
  | [] => .ok []
  | v :: rest => do
    let a ← read v
    let more ← items read rest
    pure (a :: more)

/-- A list. -/
def asList {α : Type} (read : Value → Decoded α) : Value → Decoded (List α)
  | .list vs => items read vs
  | _ => .error .shape

/-- Reads the value of every entry. -/
def entries {α : Type} (read : Value → Decoded α) : Entries → Decoded (List (String × α))
  | [] => .ok []
  | (k, v) :: rest => do
    let a ← read v
    let more ← entries read rest
    pure ((k, a) :: more)

/-- A map with values of one type. -/
def asMap {α : Type} (read : Value → Decoded α) : Value → Decoded (List (String × α))
  | .map es => entries read es
  | _ => .error .shape

/-! ## Records -/

/-- The fields of a record: those of a map by name, those of a list by place. -/
def record (fields : List String) : Value → Decoded Entries
  | .map es => .ok es
  | .list vs => if vs.length ≤ fields.length then .ok (fields.zip vs) else .error .shape
  | _ => .error .shape

/-- A field that must be there. -/
def required {α : Type} (r : Entries) (name : String) (read : Value → Decoded α) : Decoded α :=
  match Entries.get? name r with
  | some v => read v
  | none => .error (.missing name)

/-- A field that has a default. -/
def defaulted {α : Type} (r : Entries) (name : String) (default : α) (read : Value → Decoded α) :
    Decoded α :=
  match Entries.get? name r with
  | some v => read v
  | none => .ok default

/-- A field that may be missing or null. -/
def optional {α : Type} (r : Entries) (name : String) (read : Value → Decoded α) :
    Decoded (Option α) :=
  match Entries.get? name r with
  | none | some .null => .ok none
  | some v => (read v).map some

/-! ## Names and kinds -/

/-- Where a value stands: at a place of its own, or inside a record that names its kind, whose
fields have been set aside until the kind was known. -/
inductive Place where
  | direct
  | inside
  deriving DecidableEq

/-- One of several names.  A map from the name to nothing stands for the name, too; inside a
tagged record an empty map counts as nothing. -/
def choice {α : Type} (place : Place) (all : List α) (name : α → String) (v : Value) : Decoded α :=
  let pick (s : String) : Decoded α :=
    match all.find? (name · = s) with
    | some a => .ok a
    | none => .error (.unknown s)
  match v with
  | .text s => pick s
  | .map [(s, .null)] => pick s
  | .map [(s, .map [])] => if place = .inside then pick s else .error .shape
  | _ => .error .shape

/-- The kind of a tag; inside a record its number serves as well. -/
def kindOf (place : Place) (kinds : List String) : Value → Decoded String
  | .text s => if kinds.contains s then .ok s else .error (.unknown s)
  | .number (.int (.ofNat n)) =>
    match place, kinds[n]? with
    | .inside, some kind => .ok kind
    | _, _ => .error .shape
  | _ => .error .shape

/-- The kind of a tagged record and the record. -/
def tagged (place : Place) (tag : String) (kinds : List String) : Value → Decoded (String × Value)
  | .map es => do
    let kind ← required es tag (kindOf place kinds)
    pure (kind, .map es)
  | .list (first :: rest) => do
    let kind ← kindOf place kinds first
    pure (kind, .list rest)
  | .list [] => .error (.missing tag)
  | _ => .error .shape

end Decode

open Decode

/-! ## Parts of a definition -/

def Setting.decode (v : Value) : Decoded Setting := do
  let r ← record ["tenant", "organization_id", "currency", "locale", "fiscal_year", "clock"] v
  pure { tenant := ← optional r "tenant" asText
         organization := ← required r "organization_id" asText
         currency := ← defaulted r "currency" "USD" asText
         locale := ← defaulted r "locale" "en-US" asText
         fiscalYear := ← optional r "fiscal_year" asInt32
         clock := ← optional r "clock" asText }

def Persona.decode (v : Value) : Decoded Persona := do
  let r ← record ["role", "permissions"] v
  pure { role := ← required r "role" asText
         permissions := ← defaulted r "permissions" [] (asList asText) }

def LineItem.decode (place : Place) (v : Value) : Decoded LineItem := do
  let r ← record ["line_type", "entity_id", "quantity", "unit_price", "line_amount", "smart_code",
    "description"] v
  pure { side := ← optional r "line_type" (choice place Side.all Side.name)
         entityId := ← optional r "entity_id" asText
         quantity := ← optional r "quantity" asIs
         unitPrice := ← optional r "unit_price" asIs
         amount := ← optional r "line_amount" asIs
         smartCode := ← optional r "smart_code" asText
         description := ← optional r "description" asText }

def NewEntity.decode (v : Value) : Decoded NewEntity := do
  let r ← record ["entity_type", "entity_name", "entity_code", "smart_code", "dynamic_fields",
    "metadata"] v
  pure { entityType := ← required r "entity_type" asText
         name := ← required r "entity_name" asText
         code := ← optional r "entity_code" asText
         smartCode := ← required r "smart_code" asText
         dynamicFields := ← defaulted r "dynamic_fields" [] (asMap asIs)
         metadata := ← optional r "metadata" asIs }

def NewTransaction.decode (v : Value) : Decoded NewTransaction := do
  let r ← record ["transaction_type", "smart_code", "transaction_code", "transaction_date",
    "total_amount", "source_entity_id", "target_entity_id", "line_items", "metadata"] v
  pure { transactionType := ← required r "transaction_type" asText
         smartCode := ← required r "smart_code" asText
         code := ← optional r "transaction_code" asText
         date := ← optional r "transaction_date" asText
         totalAmount := ← optional r "total_amount" asIs
         sourceId := ← optional r "source_entity_id" asText
         targetId := ← optional r "target_entity_id" asText
         lines := ← defaulted r "line_items" [] (asList (LineItem.decode .inside))
         metadata := ← optional r "metadata" asIs }

def NewRelationship.decode (v : Value) : Decoded NewRelationship := do
  let r ← record ["from_entity_id", "to_entity_id", "relationship_type", "smart_code",
    "metadata"] v
  pure { fromId := ← required r "from_entity_id" asText
         toId := ← required r "to_entity_id" asText
         relationshipType := ← required r "relationship_type" asText
         smartCode := ← required r "smart_code" asText
         metadata := ← optional r "metadata" asIs }

def NewField.decode (v : Value) : Decoded NewField := do
  let r ← record ["entity_id", "field_name", "field_value", "smart_code"] v
  pure { entityId := ← required r "entity_id" asText
         name := ← required r "field_name" asText
         value := ← required r "field_value" asIs
         smartCode := ← optional r "smart_code" asText }

def Interaction.decode (v : Value) : Decoded Interaction := do
  let r ← record ["interaction", "selector", "value", "url"] v
  pure { gesture := ← required r "interaction" (choice .inside Gesture.all Gesture.name)
         selector := ← optional r "selector" asText
         value := ← optional r "value" asText
         url := ← optional r "url" asText }

def Request.decode (v : Value) : Decoded Request := do
  let r ← record ["method", "endpoint", "body", "expect_status"] v
  pure { method := ← required r "method" (choice .inside Method.all Method.name)
         endpoint := ← required r "endpoint" asText
         body := ← optional r "body" asIs
         expectStatus := ← optional r "expect_status" (asNat 16) }

/-- The milliseconds of a wait. -/
def decodeWait (v : Value) : Decoded Nat := do
  let r ← record ["duration_ms"] v
  required r "duration_ms" (asNat 64)

/-- An operation of a known kind. -/
def Operation.decodeKind (kind : String) (v : Value) : Decoded Operation :=
  match kind with
  | "create_entity" => (NewEntity.decode v).map .entity
  | "create_transaction" => (NewTransaction.decode v).map .transaction
  | "create_relationship" => (NewRelationship.decode v).map .relationship
  | "set_dynamic_field" => (NewField.decode v).map .field
  | "ui_interaction" => (Interaction.decode v).map .interaction
  | "api_call" => (Request.decode v).map .request
  | "wait" => (decodeWait v).map .wait
  | _ => .error (.unknown kind)

def Operation.decode (place : Place) (v : Value) : Decoded Operation := do
  let (kind, v) ← tagged place "type" Operation.kinds v
  decodeKind kind v

/-- An action: always a map, which holds the fields of the operation, too. -/
def Action.decode : Value → Decoded Action
  | .map r => do
    pure { operation := ← Operation.decode .inside (.map r)
           persona := ← optional r "persona" asText
           storeAs := ← optional r "store_as" asText
           description := ← optional r "description" asText }
  | _ => .error .shape

def Step.decode (v : Value) : Decoded Step := do
  let r ← record ["id", "description", "persona", "actions", "preconditions", "postconditions",
    "timeout", "retry"] v
  pure { id := ← required r "id" asText
         description := ← defaulted r "description" "" asText
         persona := ← required r "persona" asText
         actions := ← required r "actions" (asList Action.decode)
         preconditions := ← defaulted r "preconditions" [] (asList asText)
         postconditions := ← defaulted r "postconditions" [] (asList asText)
         timeout := ← defaulted r "timeout" Step.defaultTimeout (asNat 64)
         retry := ← defaulted r "retry" 0 (asNat 32) }

def JournalEntry.decode (v : Value) : Decoded JournalEntry := do
  let r ← record ["debit", "credit"] v
  pure { debit := ← optional r "debit" asIs
         credit := ← optional r "credit" asIs }

/-- A rule of a known name. -/
def Rule.decodeNamed (name : String) (v : Value) : Decoded Rule :=
  match name with
  | "accounting_equation" => do
    let r ← record ["assets", "liabilities", "equity", "tolerance"] v
    pure (.accountingEquation (← required r "assets" asIs) (← required r "liabilities" asIs)
      (← required r "equity" asIs) (← optional r "tolerance" asIs))
  | "journal_balance" => do
    let r ← record ["lines", "tolerance"] v
    pure (.journalBalance (← required r "lines" (asList JournalEntry.decode))
      (← optional r "tolerance" asIs))
  | "tax_calculation" => do
    let r ← record ["amount", "rate", "inclusive", "expected_tax", "expected_gross"] v
    pure (.taxCalculation (← required r "amount" asIs) (← required r "rate" asIs)
      (← defaulted r "inclusive" false asBool) (← optional r "expected_tax" asIs)
      (← optional r "expected_gross" asIs))
  | "status_transition" => do
    let r ← record ["from", "to", "transitions"] v
    pure (.statusTransition (← required r "from" asText) (← required r "to" asText)
      (← required r "transitions" (asMap (asList asText))))
  | "smart_code" => do
    let r ← record ["code"] v
    pure (.smartCode (← required r "code" asText))
  | _ => .error (.unknown name)

def Rule.decode (place : Place) (v : Value) : Decoded Rule := do
  let (name, v) ← tagged place "rule" Rule.names v
  decodeNamed name v

def PageCheck.decode (v : Value) : Decoded PageCheck := do
  let r ← record ["selector", "visible", "text"] v
  pure { selector := ← required r "selector" asText
         visible := ← optional r "visible" asBool
         text := ← optional r "text" asText }

/-- An assertion of a known kind. -/
def Assertion.decodeKind (kind : String) (v : Value) : Decoded Assertion :=
  match kind with
  | "database" => do
    let r ← record ["description", "table", "conditions", "expected_count"] v
    pure ⟨← optional r "description" asText,
      .database (← required r "table" asText) (← defaulted r "conditions" [] (asMap asIs))
        (← required r "expected_count" (asNat 64))⟩
  | "ui" => do
    let r ← record ["description", "checks"] v
    pure ⟨← optional r "description" asText,
      .page (← required r "checks" (asList PageCheck.decode))⟩
  | "business_rule" =>
    -- The fields of the rule stand in the same map.
    match v with
    | .map r => do
      pure ⟨← optional r "description" asText, .rule (← Rule.decode .inside (.map r))⟩
    | _ => .error .shape
  | "variable" => do
    let r ← record ["description", "path", "equals"] v
    pure ⟨← optional r "description" asText,
      .variable (← required r "path" asText) (← optional r "equals" asIs)⟩
  | _ => .error (.unknown kind)

def Assertion.decode (v : Value) : Decoded Assertion := do
  let (kind, v) ← tagged .direct "type" Check.kinds v
  decodeKind kind v

/-- The metadata of a document that has none. -/
def Metadata.default : Metadata := ⟨[], .medium, []⟩

def Metadata.decode (v : Value) : Decoded Metadata := do
  let r ← record ["tags", "priority", "environments"] v
  pure { tags := ← defaulted r "tags" [] (asList asText)
         priority := ← defaulted r "priority" .medium (choice .direct Priority.all Priority.name)
         environments := ← defaulted r "environments" [] (asList asText) }

/-- The policy of a document that has none. -/
def Policy.default : Policy := ⟨.stopOnFirst, true⟩

def Policy.decode (v : Value) : Decoded Policy := do
  let r ← record ["failure", "always_cleanup"] v
  pure { failure := ← defaulted r "failure" .stopOnFirst
           (choice .direct FailurePolicy.all FailurePolicy.name)
         alwaysCleanup := ← defaulted r "always_cleanup" true asBool }

def Definition.decode (v : Value) : Decoded Definition := do
  let r ← record ["version", "id", "title", "industry", "description", "context", "personas",
    "setup", "steps", "cleanup", "assertions", "metadata", "policy"] v
  pure { version := ← defaulted r "version" "1.0" asText
         id := ← required r "id" asText
         title := ← required r "title" asText
         industry := ← defaulted r "industry" "general" asText
         description := ← optional r "description" asText
         setting := ← required r "context" Setting.decode
         personas := ← required r "personas" (asMap Persona.decode)
         setup := ← defaulted r "setup" [] (asList Action.decode)
         steps := ← required r "steps" (asList Step.decode)
         cleanup := ← defaulted r "cleanup" [] (asList Action.decode)
         assertions := ← defaulted r "assertions" [] (asList Assertion.decode)
         metadata := ← defaulted r "metadata" Metadata.default Metadata.decode
         policy := ← defaulted r "policy" Policy.default Policy.decode }

end ProcessTest
