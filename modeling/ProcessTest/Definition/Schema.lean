import ProcessTest.Definition.Encoding
import ProcessTest.Definition.Decoding

/-!
# The schema of definitions

The form of a definition as a JSON Schema of draft 7.

* `Schema.Field`, `Schema.record` — records by their fields, which are listed by name.
* `Schema.definition` — the schema of a whole definition.
-/

set_option autoImplicit false

namespace ProcessTest.Schema

/-! ## Schemas of values -/

/-- Any value. -/
def any : Value := .bool true

/-- Values of one kind. -/
def kind (name : String) : Value := .map [("type", .text name)]

/-- Texts. -/
def text : Value := kind "string"

/-- Truth values. -/
def bool : Value := kind "boolean"

/-- Whole numbers of a format that has no negative ones. -/
def natural (format : String) : Value :=
  .map [("type", .text "integer"), ("format", .text format), ("minimum", .number (.double .zero))]

/-- Whole numbers of 32 bits with a sign. -/
def integer : Value := .map [("type", .text "integer"), ("format", .text "int32")]

/-- Lists with items of a schema. -/
def list (items : Value) : Value := .map [("type", .text "array"), ("items", items)]

/-- Maps with values of a schema. -/
def mapTo (values : Value) : Value :=
  .map [("type", .text "object"), ("additionalProperties", values)]

/-- One of some texts. -/
def choice (names : List String) : Value :=
  .map [("type", .text "string"), ("enum", .list (names.map .text))]

/-- The schema of a name. -/
def named (name : String) : Value := .map [("$ref", .text ("#/definitions/" ++ name))]

/-- Null, or a value of a schema. -/
def nullable : Value → Value
  | .map (("type", kind) :: rest) => .map (("type", .list [kind, .text "null"]) :: rest)
  | .map rest => .map [("anyOf", .list [.map rest, kind "null"])]
  | v => v

/-- A schema with annotations in front; a name becomes the one part of it. -/
def annotated (notes : Entries) : Value → Value
  | .map [("$ref", target)] => .map (notes ++ [("allOf", .list [.map [("$ref", target)]])])
  | .map entries => .map (notes ++ entries)
  | v => if notes.isEmpty then v else .map notes

/-- A schema with a description. -/
def described (words : String) (schema : Value) : Value :=
  annotated [("description", .text words)] schema

/-! ## Schemas of records -/

/-- A field of a record. -/
structure Field where
  name : String
  /-- It must be there. -/
  needed : Bool
  schema : Value
  deriving DecidableEq

namespace Field

/-- A field that must be there. -/
def required (name : String) (schema : Value) : Field := ⟨name, true, schema⟩

/-- A field that may be missing or null. -/
def optional (name : String) (schema : Value) : Field := ⟨name, false, nullable schema⟩

/-- A field that may be missing. -/
def omissible (name : String) (schema : Value) : Field := ⟨name, false, schema⟩

/-- A field that has a value where it is missing. -/
def defaulted (name : String) (default schema : Value) : Field :=
  ⟨name, false, annotated [("default", default)] schema⟩

/-- The field with a description. -/
def describedAs (words : String) (f : Field) : Field :=
  { f with schema := described words f.schema }

end Field

/-- Fields by name. -/
def byName (fields : List Field) : List Field :=
  fields.mergeSort fun f g => decide (f.name ≤ g.name)

/-- The entries of a record of some fields. -/
def recordEntries (fields : List Field) : Entries :=
  let fields := byName fields
  let required := (fields.filter Field.needed).map fun f => Value.text f.name
  (if required.isEmpty then [] else [("required", .list required)]) ++
    (if fields.isEmpty then [] else
      [("properties", .map (fields.map fun f => (f.name, f.schema)))])

/-- A record of some fields. -/
def record (fields : List Field) : Value :=
  .map (("type", .text "object") :: recordEntries fields)

/-- A record of some fields and those of one alternative. -/
def recordWith (alternatives : List Value) (fields : List Field) : Value :=
  .map ([("type", .text "object"), ("oneOf", .list alternatives)] ++ recordEntries fields)

/-- The field that says which alternative a record is. -/
def tag (field name : String) : Field := .required field (choice [name])

/-- A record in one of several forms. -/
def oneOf (alternatives : List Value) : Value := .map [("oneOf", .list alternatives)]

/-! ## Parts of definitions -/

open ProcessTest.Schema.Field

/-- An optional description without words about it. -/
def description : Field := optional "description" text

/-- Optional data of any form. -/
def metadata : Field := omissible "metadata" any

/-- The forms of actions. -/
def operations : List Value :=
  let form (name words : String) (fields : List Field) : Value :=
    described words (record (tag "type" name :: fields))
  [form "create_entity" "`create_entity` payload."
     [required "entity_type" text, required "entity_name" text, optional "entity_code" text,
      required "smart_code" text, omissible "dynamic_fields" (mapTo any), metadata],
   form "create_transaction" "`create_transaction` payload."
     [required "transaction_type" text, required "smart_code" text,
      optional "transaction_code" text, optional "transaction_date" text,
      (omissible "total_amount" any).describedAs "Number or template string",
      optional "source_entity_id" text, optional "target_entity_id" text,
      omissible "line_items" (list (named "LineItem")), metadata],
   form "create_relationship" "`create_relationship` payload."
     [required "from_entity_id" text, required "to_entity_id" text,
      required "relationship_type" text, required "smart_code" text, metadata],
   form "set_dynamic_field" "`set_dynamic_field` payload."
     [required "entity_id" text, required "field_name" text, required "field_value" any,
      optional "smart_code" text],
   form "ui_interaction" "`ui_interaction` payload."
     [required "interaction" (named "UiInteraction"), optional "selector" text,
      optional "value" text, optional "url" text],
   form "api_call" "`api_call` payload."
     [required "method" (named "HttpMethod"), required "endpoint" text, omissible "body" any,
      optional "expect_status" (natural "uint16")],
   form "wait" "`wait` payload." [required "duration_ms" (natural "uint64")]]

/-- An action. -/
def action : Value :=
  described "One action: a kind-specific payload plus common attribution fields."
    (recordWith operations
      [(optional "persona" text).describedAs "Persona override (defaults to the step's persona)",
       (optional "store_as" text).describedAs
         "Store the action output in the run context under this name",
       description])

/-- The forms of business rules. -/
def rules : List Value :=
  let form (name : String) (fields : List Field) : Value := record (tag "rule" name :: fields)
  [form "accounting_equation"
     [required "assets" any, required "liabilities" any, required "equity" any,
      omissible "tolerance" any],
   form "journal_balance"
     [required "lines" (list (named "JournalLineSpec")), omissible "tolerance" any],
   form "tax_calculation"
     [required "amount" any, required "rate" any, defaulted "inclusive" (.bool false) bool,
      omissible "expected_tax" any, omissible "expected_gross" any],
   form "status_transition"
     [required "from" text, required "to" text, required "transitions" (mapTo (list text))],
   form "smart_code" [required "code" text]]

/-- An assertion. -/
def assertion : Value :=
  described "Checks evaluated after the steps have run." (oneOf
    [described "Row-count check against one backend table." (record
       [tag "type" "database", description, required "table" text,
        (defaulted "conditions" (.map []) (mapTo any)).describedAs
          "Column -> expected value (templates allowed)",
        required "expected_count" (natural "uint64")]),
     described "Browser-side checks, only executable by generated scripts." (record
       [tag "type" "ui", description, required "checks" (list (named "UiCheck"))]),
     described "Business rule evaluated by an oracle." (recordWith rules
       [tag "type" "business_rule", description]),
     described "Check against the final run context." (record
       [tag "type" "variable", description,
        (required "path" text).describedAs "`name` or `name.path`", omissible "equals" any])])

/-- A step. -/
def step : Value :=
  described "Ordered unit of execution." (record
    [(required "id" text).describedAs "Unique step id; outputs are stored under it",
     defaulted "description" (.text "") text,
     (required "persona" text).describedAs "Owning persona",
     (required "actions" (list (named "Action"))).describedAs "Actions executed in order",
     (omissible "preconditions" (list text)).describedAs
       "Conditions that must hold before the step runs",
     (omissible "postconditions" (list text)).describedAs
       "Conditions that must hold after the step's actions",
     (defaulted "timeout" (.ofNat Step.defaultTimeout) (natural "uint64")).describedAs
       "Wall-clock budget for one attempt, in milliseconds",
     (defaulted "retry" (.ofNat 0) (natural "uint32")).describedAs
       "Extra attempts after a failure"])

/-- A setting. -/
def setting : Value :=
  described "Run context declared by the document." (record
    [(optional "tenant" text).describedAs "Tenant name",
     (required "organization_id" text).describedAs "Organization every record is scoped to",
     (defaulted "currency" (.text "USD") text).describedAs "ISO currency code",
     (defaulted "locale" (.text "en-US") text).describedAs "Locale tag",
     (optional "fiscal_year" integer).describedAs "Fiscal year",
     (optional "clock" text).describedAs
       ("Simulated clock (RFC 3339) used by `\x7b\x7btimestamp\x7d\x7d` and " ++
         "`\x7b\x7bclock+N\x7d\x7d`")])

/-- The parts that have names, in the order of these. -/
def parts : Entries :=
  [("Action", action),
   ("AssertionGroup", assertion),
   ("FailurePolicy", described "Failure handling strategy."
     (choice (FailurePolicy.all.map FailurePolicy.name))),
   ("HttpMethod", described "HTTP method of an `api_call`." (choice (Method.all.map Method.name))),
   ("JournalLineSpec", described "Debit/credit pair inside a `journal_balance` rule." (record
     [omissible "debit" any, omissible "credit" any])),
   ("LineItem", described "One transaction line." (record
     [optional "line_type" (named "LineType"), optional "entity_id" text,
      omissible "quantity" any, omissible "unit_price" any, omissible "line_amount" any,
      optional "smart_code" text, description])),
   ("LineType", described "Journal side of a line item." (choice (Side.all.map Side.name))),
   ("Metadata", described "Descriptive metadata." (record
     [defaulted "tags" (.list []) (list text),
      defaulted "priority" (.text Metadata.default.priority.name) (named "Priority"),
      defaulted "environments" (.list []) (list text)])),
   ("Persona", described "A named role actions are attributed to." (record
     [required "role" text, defaulted "permissions" (.list []) (list text)])),
   ("Policy", described "Execution policy declared by the document." (record
     [(defaulted "failure" (.text Policy.default.failure.name) (named "FailurePolicy")).describedAs
        "Failure handling",
      (defaulted "always_cleanup" (.bool Policy.default.alwaysCleanup) bool).describedAs
        "Run cleanup even after a halting failure"])),
   ("Priority", described "Test priority." (choice (Priority.all.map Priority.name))),
   ("Step", step),
   ("TestContext", setting),
   ("UiCheck", described "One element check." (record
     [required "selector" text, optional "visible" bool, optional "text" text])),
   ("UiInteraction", described "Browser interaction verbs."
     (choice (Gesture.all.map Gesture.name)))]

/-- The fields of a definition. -/
def rootFields : List Field :=
  let actions : Value := list (named "Action")
  [(defaulted "version" (.text "1.0") text).describedAs "Schema version (must be \"1.0\")",
   (required "id" text).describedAs "Unique test identifier",
   (required "title" text).describedAs "Human-readable title",
   (defaulted "industry" (.text "general") text).describedAs
     "Industry tag (salon, restaurant, retail, ...)",
   (optional "description" text).describedAs "Optional description",
   (required "context" (named "TestContext")).describedAs
     "Tenant, organization and clock for the run",
   (required "personas" (mapTo (named "Persona"))).describedAs
     "Persona name -> role and permissions (order-preserving)",
   (defaulted "setup" (.list []) actions).describedAs "Actions executed before the first step",
   (required "steps" (list (named "Step"))).describedAs "Ordered steps",
   (defaulted "cleanup" (.list []) actions).describedAs "Actions executed after the steps",
   (defaulted "assertions" (.list []) (list (named "AssertionGroup"))).describedAs
     "Assertion groups evaluated after the steps",
   (defaulted "metadata" Metadata.default.encode (named "Metadata")).describedAs
     "Tags, priority and supported environments",
   (defaulted "policy" Policy.default.encode (named "Policy")).describedAs
     "Failure and cleanup policy"]

/-- The schema of a whole definition. -/
def definition : Value :=
  .map ([("$schema", .text "http://json-schema.org/draft-07/schema#"),
      ("title", .text "TestDefinition"),
      ("description", .text "Root of the IR: one business-process test."),
      ("type", .text "object")] ++ recordEntries rootFields ++ [("definitions", .map parts)])

end ProcessTest.Schema
