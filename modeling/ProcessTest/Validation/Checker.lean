import ProcessTest.Definition.Decoding
import ProcessTest.Template
import ProcessTest.Validation.Fields

/-!
# Validation

All faults of a document, in document order.

* `validate` — the faults of a value tree; the names of steps and of stored outputs are claimed
  one after the other, and no name twice.
* `Definition.parse` — the definition of a tree without faults.
-/

set_option autoImplicit false

namespace ProcessTest.Validation

/-- Faults found, and the names claimed so far. -/
abbrev Checked := List Fault × List String

/-- Checks the items of a list, numbered from the given index, with the names claimed before
each. -/
def checkEach (check : String → List String → Value → Checked) (path : String) :
    Nat → List String → List Value → Checked
  | _, names, [] => ([], names)
  | index, names, v :: rest =>
    let (faults, names) := check (atIndex path index) names v
    let (more, names) := checkEach check path (index + 1) names rest
    (faults ++ more, names)

/-- The faults of the items of a list, numbered from the given index. -/
def checkItems (check : String → Value → List Fault) (path : String) :
    Nat → List Value → List Fault
  | _, [] => []
  | index, v :: rest => check (atIndex path index) v ++ checkItems check path (index + 1) rest

/-- Applies a check to a field that holds a text. -/
def onText {α : Type} (part : Entries) (field : String) (check : String → List α) : List α :=
  match Entries.get? field part with
  | some (.text s) => check s
  | _ => []

/-- Applies a check to a field that holds a whole number. -/
def onNat {α : Type} (part : Entries) (field : String) (check : Nat → List α) : List α :=
  match (Entries.get? field part).bind Value.natural? with
  | some n => check n
  | none => []

/-- Applies a check to a field that holds a list. -/
def onList {α : Type} (part : Entries) (field : String) (check : List Value → List α) : List α :=
  match Entries.get? field part with
  | some (.list items) => check items
  | _ => []

/-- Applies a check to a field that holds a map. -/
def onMap {α : Type} (part : Entries) (field : String) (check : Entries → List α) : List α :=
  match Entries.get? field part with
  | some (.map entries) => check entries
  | _ => []

/-- A text field holds one of some words. -/
def checkChoice (path : String) (part : Entries) (field : String) (allowed : List String) :
    List Fault :=
  onText part field fun s =>
    if allowed.contains s then [] else [⟨inField path field, .noChoice s allowed⟩]

/-- A persona that is named exists. -/
def checkPersonaRef (personas : List String) (path : String) (part : Entries) : List Fault :=
  onText part "persona" fun s =>
    if personas.contains s then [] else [⟨inField path "persona", .unknownPersona s⟩]

/-- Claims the name in a field, if there is one: it has no point in it, is none of the seeded
names, and nobody has claimed it. -/
def claim (path : String) (part : Entries) (field what : String) (names : List String) : Checked :=
  match Entries.get? field part with
  | some (.text s) =>
    let fault (problem : Problem) : List Fault := [⟨inField path field, problem⟩]
    if s.toList.contains '.' then (fault (.dotted what s), names)
    else if Bindings.seededNames.contains s then (fault (.seeded what s), names)
    else if names.contains s then (fault (.taken what s), names)
    else ([], s :: names)
  | _ => ([], names)

/-- A smart code that is written out follows its grammar. -/
def checkSmartCode (path : String) (part : Entries) : List Fault :=
  onText part "smart_code" fun s =>
    if Text.allBlank s || Template.hasPlaceholder s then []
    else
      let verdict := SmartCode.check s
      if verdict.valid then [] else [⟨inField path "smart_code", .smartCode verdict⟩]

/-! ## Actions -/

def checkLineItem (path : String) : Value → List Fault
  | .map item =>
    checkFields path item lineItemFields "a line item" ++
      checkChoice path item "line_type" (Side.all.map Side.name) ++ checkSmartCode path item
  | _ => [⟨path, .noMap "line item"⟩]

/-- The fields that a gesture needs. -/
def gestureNeeds : Gesture → List String
  | .navigate => ["url"]
  | .fill | .select | .press => ["selector", "value"]
  | .click | .check => ["selector"]

def checkInteraction (path : String) (part : Entries) : List Fault :=
  onText part "interaction" fun s =>
    match Gesture.all.find? (·.name = s) with
    | none => checkChoice path part "interaction" (Gesture.all.map Gesture.name)
    | some gesture =>
      ((gestureNeeds gesture).filter fun field => (Entries.get? field part).isNone).map
        fun field => ⟨inField path field, .gestureNeeds s field⟩

def checkRequest (path : String) (part : Entries) : List Fault :=
  checkChoice path part "method" (Method.all.map Method.name) ++
    onNat part "expect_status" fun n =>
      if 100 ≤ n && n ≤ 599 then [] else [⟨inField path "expect_status", .noStatus n⟩]

/-- What a kind of action needs beyond its fields. -/
def checkOperation (path kind : String) (part : Entries) : List Fault :=
  match kind with
  | "create_transaction" =>
    onList part "line_items" (checkItems checkLineItem (inField path "line_items") 0)
  | "ui_interaction" => checkInteraction path part
  | "api_call" => checkRequest path part
  | _ => []

def checkAction (personas : List String) (path : String) (names : List String) :
    Value → Checked
  | .map part =>
    match Entries.get? "type" part with
    | some (.text kind) =>
      match operationFields.lookup kind with
      | some fields =>
        let (claimed, names) := claim path part "store_as" "store_as name" names
        (checkFields path part (actionFields ++ fields) s!"action type '{kind}'" ++
          checkPersonaRef personas path part ++ claimed ++ checkSmartCode path part ++
          checkOperation path kind part, names)
      | none =>
        ([⟨inField path "type",
          .unknownKind "action type" kind (operationFields.map Prod.fst)⟩], names)
    | _ => ([⟨inField path "type", .missing "type"⟩], names)
  | _ => ([⟨path, .noMap "action"⟩], names)

/-- The actions in a field. -/
def checkActions (personas : List String) (path field : String) (names : List String)
    (part : Entries) : Checked :=
  match Entries.get? field part with
  | some (.list items) => checkEach (checkAction personas) (inField path field) 0 names items
  | _ => ([], names)

/-! ## Steps -/

def checkStep (personas : List String) (path : String) (names : List String) : Value → Checked
  | .map part =>
    let (claimed, names) := claim path part "id" "step id" names
    let noAction := onList part "actions" fun items =>
      if items.isEmpty then
        [⟨inField path "actions", .empty "a step needs at least one action"⟩]
      else []
    let (actions, names) := checkActions personas path "actions" names part
    (checkFields path part stepFields "a step" ++ claimed ++ checkPersonaRef personas path part ++
      (onNat part "timeout" fun n =>
        if n = 0 then [⟨inField path "timeout", .zeroTimeout⟩] else []) ++
      (onNat part "retry" fun n => if Step.maxRetry < n
        then [⟨inField path "retry", .tooManyRetries Step.maxRetry⟩] else []) ++
      noAction ++ actions, names)
  | _ => ([⟨path, .noMap "step"⟩], names)

/-! ## Assertions -/

def checkPageCheck (path : String) : Value → List Fault
  | .map part => checkFields path part pageCheckFields "a ui check"
  | _ => [⟨path, .noMap "ui check"⟩]

def checkPage (path : String) (part : Entries) : List Fault :=
  onList part "checks" fun items =>
    (if items.isEmpty then
      [⟨inField path "checks", .empty "a ui assertion needs at least one check"⟩]
    else []) ++ checkItems checkPageCheck (inField path "checks") 0 items

def checkJournalLine (path : String) : Value → List Fault
  | .map part => checkFields path part journalLineFields "a journal line"
  | _ => [⟨path, .noMap "journal line"⟩]

/-- The rows of a transition table list texts. -/
def checkTransitions (path : String) (table : Entries) : List Fault :=
  (table.filter fun row => !FieldKind.texts.accepts row.2).map
    fun row => ⟨inField (inField path "transitions") row.1, .transitionTargets⟩

/-- What a rule needs beyond its fields. -/
def checkOperands (path rule : String) (part : Entries) : List Fault :=
  match rule with
  | "journal_balance" => onList part "lines" (checkItems checkJournalLine (inField path "lines") 0)
  | "status_transition" => onMap part "transitions" (checkTransitions path)
  | _ => []

def checkRule (path : String) (part : Entries) : List Fault :=
  let common := assertionFields ++ [need "rule" .name]
  match Entries.get? "rule" part with
  | some (.text rule) =>
    match ruleFields.lookup rule with
    | some operands =>
      checkFields path part (common ++ operands) s!"rule '{rule}'" ++ checkOperands path rule part
    | none =>
      [⟨inField path "rule", .unknownKind "rule" rule (ruleFields.map Prod.fst)⟩]
  | _ => checkFields path part common "a business rule"

def checkAssertion (path : String) : Value → List Fault
  | .map part =>
    match Entries.get? "type" part with
    | some (.text kind) =>
      match checkKindFields.lookup kind with
      | some fields =>
        if kind = "business_rule" then checkRule path part
        else
          checkFields path part (assertionFields ++ fields) s!"assertion type '{kind}'" ++
            if kind = "ui" then checkPage path part else []
      | none =>
        [⟨inField path "type",
          .unknownKind "assertion type" kind (checkKindFields.map Prod.fst)⟩]
    | _ => [⟨inField path "type", .missing "type"⟩]
  | _ => [⟨path, .noMap "assertion group"⟩]

/-! ## Documents -/

def checkVersion (root : Entries) : List Fault :=
  onText root "version" fun s => if s = "1.0" then [] else [⟨"version", .version s⟩]

def checkSetting (part : Entries) : List Fault :=
  checkFields "context" part settingFields "the context" ++
    onText part "clock" fun s => if Clock.isValid s then [] else [⟨"context.clock", .clock s⟩]

def checkPersona (persona : String × Value) : List Fault :=
  let path := inField "personas" persona.1
  match persona.2 with
  | .map part => checkFields path part personaFields "a persona"
  | _ => [⟨path, .noMap "persona"⟩]

def checkPersonas (personas : Entries) : List Fault :=
  (if personas.isEmpty then [⟨"personas", .empty "at least one persona is required"⟩] else []) ++
    personas.flatMap checkPersona

/-- The names of the personas of a document. -/
def personaNames (root : Entries) : List String :=
  match Entries.get? "personas" root with
  | some (.map personas) => personas.map Prod.fst
  | _ => []

def checkSteps (personas : List String) (names : List String) (root : Entries) : Checked :=
  match Entries.get? "steps" root with
  | some (.list []) => ([⟨"steps", .empty "at least one step is required"⟩], names)
  | some (.list items) => checkEach (checkStep personas) "steps" 0 names items
  | _ => ([], names)

def checkMetadata (part : Entries) : List Fault :=
  checkFields "metadata" part metadataFields "metadata" ++
    checkChoice "metadata" part "priority" (Priority.all.map Priority.name)

def checkPolicy (part : Entries) : List Fault :=
  checkFields "policy" part policyFields "policy" ++
    checkChoice "policy" part "failure" (FailurePolicy.all.map FailurePolicy.name)

/-- The faults of a document that is a map. -/
def checkRoot (root : Entries) : List Fault :=
  let personas := personaNames root
  let (setup, names) := checkActions personas "" "setup" [] root
  let (steps, names) := checkSteps personas names root
  let (cleanup, _) := checkActions personas "" "cleanup" names root
  checkFields "" root rootFields "the document" ++ checkVersion root ++
    onMap root "context" checkSetting ++ onMap root "personas" checkPersonas ++
    setup ++ steps ++ cleanup ++
    onList root "assertions" (checkItems checkAssertion "assertions" 0) ++
    onMap root "metadata" checkMetadata ++ onMap root "policy" checkPolicy

/-- The faults of a document. -/
def validate : Value → List Fault
  | .map root => checkRoot root
  | _ => [⟨"$", .noMap "document"⟩]

/-- Why a value tree is no definition. -/
inductive Rejection where
  | faults (faults : List Fault)
  /-- It has no faults, but a value does not fit its type. -/
  | conversion (error : DecodeError)
  deriving DecidableEq

/-- Places and wordings. -/
def Rejection.lines : Rejection → List (String × String)
  | .faults found => found.map fun f => (f.path, f.message)
  | .conversion error => [("$", s!"cannot convert document: {error.message}")]

/-- The definition of a document without faults. -/
def parse (v : Value) : Except Rejection Definition :=
  let faults := validate v
  if faults.isEmpty then (Definition.decode v).mapError .conversion else .error (.faults faults)

end ProcessTest.Validation
