import ProcessTest.Value

/-!
# Test definitions

The typed form of a document: who acts (personas), where (the setting), what is done (setup,
steps, cleanup) and what must hold afterwards (assertions).

Fields whose content is any value tree are amounts, payload bodies and expected values; they may
be given as templates.
-/

set_option autoImplicit false

namespace ProcessTest

/-- Tenant, organization and clock of a run. -/
structure Setting where
  tenant : Option String
  organization : String
  currency : String
  locale : String
  fiscalYear : Option Int
  clock : Option String
  deriving DecidableEq

/-- A named role that actions are attributed to. -/
structure Persona where
  role : String
  permissions : List String
  deriving DecidableEq

/-- Journal side of a transaction line. -/
inductive Side where
  | debit
  | credit
  deriving DecidableEq

/-- One line of a transaction. -/
structure LineItem where
  side : Option Side
  entityId : Option String
  quantity : Option Value
  unitPrice : Option Value
  amount : Option Value
  smartCode : Option String
  description : Option String
  deriving DecidableEq

/-- What a browser does to a page. -/
inductive Gesture where
  | navigate
  | click
  | fill
  | select
  | check
  | press
  deriving DecidableEq

/-- Method of a request. -/
inductive Method where
  | get
  | post
  | put
  | patch
  | delete
  deriving DecidableEq

/-- A new entity. -/
structure NewEntity where
  entityType : String
  name : String
  code : Option String
  smartCode : String
  dynamicFields : Entries
  metadata : Option Value
  deriving DecidableEq

/-- A new transaction with its lines. -/
structure NewTransaction where
  transactionType : String
  smartCode : String
  code : Option String
  date : Option String
  totalAmount : Option Value
  sourceId : Option String
  targetId : Option String
  lines : List LineItem
  metadata : Option Value
  deriving DecidableEq

/-- A new relationship between two entities. -/
structure NewRelationship where
  fromId : String
  toId : String
  relationshipType : String
  smartCode : String
  metadata : Option Value
  deriving DecidableEq

/-- A field given to an entity. -/
structure NewField where
  entityId : String
  name : String
  value : Value
  smartCode : Option String
  deriving DecidableEq

/-- An interaction with a page. -/
structure Interaction where
  gesture : Gesture
  selector : Option String
  value : Option String
  url : Option String
  deriving DecidableEq

/-- A request to an interface of the system under test. -/
structure Request where
  method : Method
  endpoint : String
  body : Option Value
  expectStatus : Option Nat
  deriving DecidableEq

/-- What an action does. -/
inductive Operation where
  | entity (p : NewEntity)
  | transaction (p : NewTransaction)
  | relationship (p : NewRelationship)
  | field (p : NewField)
  | interaction (p : Interaction)
  | request (p : Request)
  | wait (milliseconds : Nat)
  deriving DecidableEq

/-- An operation with its attribution and the name its output is stored under. -/
structure Action where
  operation : Operation
  persona : Option String
  storeAs : Option String
  description : Option String
  deriving DecidableEq

/-- Ordered unit of a run. -/
structure Step where
  id : String
  description : String
  persona : String
  actions : List Action
  preconditions : List String
  postconditions : List String
  /-- Milliseconds that one attempt may take. -/
  timeout : Nat
  /-- Attempts beyond the first. -/
  retry : Nat
  deriving DecidableEq

/-- Debit and credit of a line in a journal rule. -/
structure JournalEntry where
  debit : Option Value
  credit : Option Value
  deriving DecidableEq

/-- A business rule.  Operands are numbers or templates. -/
inductive Rule where
  | accountingEquation (assets liabilities equity : Value) (tolerance : Option Value)
  | journalBalance (lines : List JournalEntry) (tolerance : Option Value)
  | taxCalculation (amount rate : Value) (inclusive : Bool)
      (expectedTax expectedGross : Option Value)
  | statusTransition (source target : String) (transitions : List (String × List String))
  | smartCode (code : String)
  deriving DecidableEq

/-- One check of an element of a page. -/
structure PageCheck where
  selector : String
  visible : Option Bool
  text : Option String
  deriving DecidableEq

/-- What is checked after the steps. -/
inductive Check where
  /-- The number of rows of a table that meet the conditions. -/
  | database (table : String) (conditions : Entries) (expectedCount : Nat)
  /-- Elements of a page; only generated scripts can look at them. -/
  | page (checks : List PageCheck)
  | rule (rule : Rule)
  /-- A bound name, and the value it should have. -/
  | variable (path : String) (expected : Option Value)
  deriving DecidableEq

/-- A check with its description. -/
structure Assertion where
  description : Option String
  check : Check
  deriving DecidableEq

/-- Priority of a definition. -/
inductive Priority where
  | low
  | medium
  | high
  | critical
  deriving DecidableEq

/-- Descriptive data. -/
structure Metadata where
  tags : List String
  priority : Priority
  environments : List String
  deriving DecidableEq

/-- What happens after a failed step. -/
inductive FailurePolicy where
  | stopOnFirst
  | proceed
  deriving DecidableEq

/-- How a run treats failures. -/
structure Policy where
  failure : FailurePolicy
  /-- Clean up even after a failure that stopped the run. -/
  alwaysCleanup : Bool
  deriving DecidableEq

/-- A business-process test. -/
structure Definition where
  version : String
  id : String
  title : String
  industry : String
  description : Option String
  setting : Setting
  personas : List (String × Persona)
  setup : List Action
  steps : List Step
  cleanup : List Action
  assertions : List Assertion
  metadata : Metadata
  policy : Policy
  deriving DecidableEq

/-! ## Names in documents -/

namespace Side

def all : List Side := [.debit, .credit]

/-- The name in documents. -/
def name : Side → String
  | .debit => "debit"
  | .credit => "credit"

end Side

namespace Gesture

def all : List Gesture := [.navigate, .click, .fill, .select, .check, .press]

/-- The name in documents. -/
def name : Gesture → String
  | .navigate => "navigate"
  | .click => "click"
  | .fill => "fill"
  | .select => "select"
  | .check => "check"
  | .press => "press"

end Gesture

namespace Method

def all : List Method := [.get, .post, .put, .patch, .delete]

/-- The name in documents. -/
def name : Method → String
  | .get => "GET"
  | .post => "POST"
  | .put => "PUT"
  | .patch => "PATCH"
  | .delete => "DELETE"

end Method

namespace Priority

def all : List Priority := [.low, .medium, .high, .critical]

/-- The name in documents. -/
def name : Priority → String
  | .low => "low"
  | .medium => "medium"
  | .high => "high"
  | .critical => "critical"

end Priority

namespace FailurePolicy

def all : List FailurePolicy := [.stopOnFirst, .proceed]

/-- The name in documents. -/
def name : FailurePolicy → String
  | .stopOnFirst => "stop_on_first"
  | .proceed => "continue"

end FailurePolicy

namespace Operation

/-- The names of all kinds of operation, in the order of the constructors. -/
def kinds : List String :=
  ["create_entity", "create_transaction", "create_relationship", "set_dynamic_field",
   "ui_interaction", "api_call", "wait"]

/-- The kind in documents. -/
def kind : Operation → String
  | .entity _ => "create_entity"
  | .transaction _ => "create_transaction"
  | .relationship _ => "create_relationship"
  | .field _ => "set_dynamic_field"
  | .interaction _ => "ui_interaction"
  | .request _ => "api_call"
  | .wait _ => "wait"

/-- The smart code of what is created, where there is one. -/
def smartCode? : Operation → Option String
  | .entity p => some p.smartCode
  | .transaction p => some p.smartCode
  | .relationship p => some p.smartCode
  | .field p => p.smartCode
  | .interaction _ | .request _ | .wait _ => none

/-- Whether the operation reaches the system under test. -/
def isCall : Operation → Bool
  | .interaction _ | .wait _ => false
  | _ => true

end Operation

namespace Rule

/-- The names of all rules, in the order of the constructors. -/
def names : List String :=
  ["accounting_equation", "journal_balance", "tax_calculation", "status_transition", "smart_code"]

/-- The name in documents. -/
def name : Rule → String
  | .accountingEquation .. => "accounting_equation"
  | .journalBalance .. => "journal_balance"
  | .taxCalculation .. => "tax_calculation"
  | .statusTransition .. => "status_transition"
  | .smartCode _ => "smart_code"

end Rule

namespace Check

/-- The names of all kinds of check, in the order of the constructors. -/
def kinds : List String := ["database", "ui", "business_rule", "variable"]

/-- The kind in documents. -/
def kind : Check → String
  | .database .. => "database"
  | .page _ => "ui"
  | .rule _ => "business_rule"
  | .variable .. => "variable"

end Check

namespace Assertion

/-- The description, or the kind of the check where there is none. -/
def label (a : Assertion) : String := a.description.getD (a.check.kind ++ " assertion")

end Assertion

namespace Step

/-- The timeout of a step that names none. -/
def defaultTimeout : Nat := 30000

/-- The most attempts beyond the first. -/
def maxRetry : Nat := 10

/-- The persona an action of the step is attributed to. -/
def personaOf (step : Step) (action : Action) : String := action.persona.getD step.persona

end Step

namespace Definition

/-- The first step with an id. -/
def step? (d : Definition) (id : String) : Option Step := d.steps.find? (·.id = id)

/-- The number of actions of setup, steps and cleanup. -/
def actionCount (d : Definition) : Nat :=
  d.setup.length + (d.steps.flatMap (·.actions)).length + d.cleanup.length

end Definition

end ProcessTest
