import ProcessTest.Serial
import ProcessTest.Text.Digits

/-!
# The store

Five tables of records, each record in the scope of an organization.  Records are only ever
added, and every one gets an identifier of its own.

* `Store.apply` — the effect of an operation, together with its answer.
* `Store.query` — the records of a table in the present scope that meet conditions.
-/

set_option autoImplicit false

namespace ProcessTest

/-- The tables of the store. -/
inductive Table where
  | entities
  | fields
  | relationships
  | transactions
  | lines
  deriving DecidableEq

namespace Table

def all : List Table := [.entities, .fields, .relationships, .transactions, .lines]

/-- The name in queries. -/
def name : Table → String
  | .entities => "core_entities"
  | .fields => "core_dynamic_data"
  | .relationships => "core_relationships"
  | .transactions => "universal_transactions"
  | .lines => "universal_transaction_lines"

/-- The table of a name. -/
def read? (s : String) : Option Table := all.find? (·.name = s)

/-- What the identifiers of a table begin with. -/
def mark : Table → String
  | .entities => "ent"
  | .fields => "dyn"
  | .relationships => "rel"
  | .transactions => "txn"
  | .lines => "line"

end Table

/-- One record with its table. -/
structure Row where
  table : Table
  content : Entries
  deriving DecidableEq

/-- Why the store refuses an operation. -/
inductive StoreError where
  | noScope
  | unknownEntity (id organization : String)
  | unknownTable (name : String)
  /-- The operation concerns no store. -/
  | foreign (kind : String)
  | noRequests (method : Method) (endpoint : String)
  /-- A transaction line cannot be written down. -/
  | unwritten (cause : SerialError)
  deriving DecidableEq

/-- The wording of a refusal. -/
def StoreError.message : StoreError → String
  | .noScope => "no organization scope set"
  | .unknownEntity id organization =>
    s!"entity '{id}' not found in organization '{organization}'"
  | .unknownTable name => s!"unknown table '{name}'"
  | .foreign kind => s!"'{kind}' is not a backend operation"
  | .noRequests method endpoint =>
    s!"{method.name} {endpoint}: this backend does not accept api calls"
  | .unwritten cause => s!"cannot store line item: {cause.message}"

/-- The records of all tables in the order in which they were added. -/
structure Store where
  /-- The organization in whose scope operations happen. -/
  scope : Option String
  rows : List Row
  /-- The number of identifiers given out. -/
  issued : Nat
  deriving DecidableEq

namespace Store

/-- No records and no scope. -/
def empty : Store := ⟨none, [], 0⟩

/-- Sets the scope. -/
def enter (organization : String) (s : Store) : Store := { s with scope := some organization }

/-- The records of a table. -/
def records (s : Store) (t : Table) : List Entries :=
  (s.rows.filter (·.table = t)).map Row.content

/-- The text in a column. -/
def textAt? (column : String) (r : Entries) : Option String :=
  (Entries.get? column r).bind Value.text?

/-- Whether a record belongs to an organization. -/
def belongs (organization : String) (r : Entries) : Bool :=
  textAt? "organization_id" r = some organization

/-- Whether an organization has an entity. -/
def hasEntity (s : Store) (organization id : String) : Bool :=
  (s.records .entities).any fun r => textAt? "id" r = some id && belongs organization r

/-- The identifier of a number. -/
def identifier (t : Table) (n : Nat) : String := t.mark ++ "-" ++ Text.padded 6 n

/-! ## Effects -/

/-- A step of an operation: it may fail, and the store is what it left behind either way. -/
abbrev Effect (α : Type) := ExceptT StoreError (StateM Store) α

/-- The organization in scope. -/
def currentScope : Effect String := do
  match (← get).scope with
  | some organization => pure organization
  | none => throw .noScope

/-- A new identifier. -/
def issue (t : Table) : Effect String :=
  modifyGet fun s => (identifier t (s.issued + 1), { s with issued := s.issued + 1 })

/-- Adds a record. -/
def add (t : Table) (content : Entries) : Effect Unit :=
  modify fun s => { s with rows := s.rows ++ [⟨t, content⟩] }

/-- Fails unless the organization has the entity. -/
def requireEntity (organization id : String) : Effect Unit := do
  if !(← get).hasEntity organization id then throw (.unknownEntity id organization)

/-- Fails unless the organization has all the entities. -/
def requireEntities (organization : String) : List String → Effect Unit
  | [] => pure ()
  | id :: rest => do
    requireEntity organization id
    requireEntities organization rest

/-- A column that may be missing. -/
def column (name : String) : Option Value → Entries
  | some v => [(name, v)]
  | none => []

/-- A column with a text that may be missing. -/
def textColumn (name : String) (s : Option String) : Entries := column name (s.map .text)

/-- The columns every record begins with. -/
def heading (id organization : String) : Entries :=
  [("id", .text id), ("organization_id", .text organization)]

/-- A record of a field of an entity. -/
def fieldRecord (id organization entity name : String) (value : Value) : Entries :=
  heading id organization ++
    [("entity_id", .text entity), ("field_name", .text name), ("field_value", value)]

/-- Adds one field of an entity. -/
def addField (organization entity name : String) (value : Value) : Effect Entries := do
  let id ← issue .fields
  let record := fieldRecord id organization entity name value
  add .fields record
  pure record

/-- Adds fields of an entity in order. -/
def addFields (organization entity : String) : Entries → Effect Unit
  | [] => pure ()
  | (name, value) :: rest => do
    let _ ← addField organization entity name value
    addFields organization entity rest

/-- The record of an entity. -/
def entityRecord (id organization : String) (p : NewEntity) : Entries :=
  heading id organization ++
    [("entity_type", .text p.entityType), ("entity_name", .text p.name)] ++
    textColumn "entity_code" p.code ++
    [("smart_code", .text p.smartCode), ("status", .text "active")] ++
    column "metadata" p.metadata

/-- Adds an entity and its fields; the answer shows the fields in the entity's record. -/
def addEntity (p : NewEntity) : Effect Entries := do
  let organization ← currentScope
  let id ← issue .entities
  let record := entityRecord id organization p
  add .entities record
  addFields organization id p.dynamicFields
  pure (record ++
    if p.dynamicFields.isEmpty then [] else [("dynamic_fields", .map p.dynamicFields)])

/-- The columns of a transaction line as it is written down; what is written as no map has none. -/
def lineColumns (item : LineItem) : Except SerialError Entries :=
  item.serial.toValue.map fun v => v.entries?.getD []

/-- The record of a transaction line with the given columns. -/
def lineRecord (id organization transaction : String) (number : Nat) (columns : Entries) :
    Entries :=
  columns ++ heading id organization ++
    [("transaction_id", .text transaction), ("line_number", .ofNat number)]

/-- Adds the lines of a transaction, numbered from the given number, up to one that cannot be
written down. -/
def addLines (organization transaction : String) : Nat → List LineItem → Effect Unit
  | _, [] => pure ()
  | number, item :: rest => do
    let id ← issue .lines
    match lineColumns item with
    | .error cause => throw (.unwritten cause)
    | .ok columns =>
      add .lines (lineRecord id organization transaction number columns)
      addLines organization transaction (number + 1) rest

/-- The entities that a transaction refers to. -/
def references (p : NewTransaction) : List String :=
  p.sourceId.toList ++ p.targetId.toList ++ p.lines.filterMap LineItem.entityId

/-- The record of a transaction. -/
def transactionRecord (id organization : String) (p : NewTransaction) : Entries :=
  heading id organization ++
    [("transaction_type", .text p.transactionType), ("smart_code", .text p.smartCode)] ++
    textColumn "transaction_code" p.code ++ textColumn "transaction_date" p.date ++
    column "total_amount" p.totalAmount ++ textColumn "source_entity_id" p.sourceId ++
    textColumn "target_entity_id" p.targetId ++ [("status", .text "posted")] ++
    column "metadata" p.metadata ++ [("line_count", .ofNat p.lines.length)]

/-- Adds a transaction and its lines; every entity it refers to must exist. -/
def addTransaction (p : NewTransaction) : Effect Entries := do
  let organization ← currentScope
  requireEntities organization (references p)
  let id ← issue .transactions
  let record := transactionRecord id organization p
  add .transactions record
  addLines organization id 1 p.lines
  pure record

/-- The record of a relationship. -/
def relationshipRecord (id organization : String) (p : NewRelationship) : Entries :=
  heading id organization ++
    [("from_entity_id", .text p.fromId), ("to_entity_id", .text p.toId),
     ("relationship_type", .text p.relationshipType), ("smart_code", .text p.smartCode)] ++
    column "metadata" p.metadata

/-- Adds a relationship; both entities must exist. -/
def addRelationship (p : NewRelationship) : Effect Entries := do
  let organization ← currentScope
  requireEntities organization [p.fromId, p.toId]
  let id ← issue .relationships
  let record := relationshipRecord id organization p
  add .relationships record
  pure record

/-- Gives a field to an entity, which must exist. -/
def setField (p : NewField) : Effect Entries := do
  let organization ← currentScope
  requireEntity organization p.entityId
  addField organization p.entityId p.name p.value

/-- The effect of an operation. -/
def effect : Operation → Effect Entries
  | .entity p => addEntity p
  | .transaction p => addTransaction p
  | .relationship p => addRelationship p
  | .field p => setField p
  | .request p => throw (.noRequests p.method p.endpoint)
  | o@(.interaction _) | o@(.wait _) => throw (.foreign o.kind)

/-- The answer to an operation, and the store behind it. -/
def apply (o : Operation) (s : Store) : Except StoreError Entries × Store := (effect o).run s

/-! ## Queries -/

/-- Whether a record meets a condition: the values are equal, or their texts are.  A column that
the record does not have counts as null. -/
def meets (r : Entries) (condition : String × Value) : Bool :=
  match Entries.get? condition.1 r with
  | some v => v.agrees condition.2 || v.plain == condition.2.plain
  | none => condition.2 = .null

/-- The records of a table in scope that meet all conditions. -/
def query (s : Store) (table : String) (conditions : Entries) :
    Except StoreError (List Entries) :=
  match Table.read? table with
  | none => .error (.unknownTable table)
  | some t => match s.scope with
    | none => .error .noScope
    | some organization =>
      .ok ((s.records t).filter fun r => belongs organization r && conditions.all (meets r))

end Store

end ProcessTest
