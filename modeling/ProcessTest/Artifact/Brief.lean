import ProcessTest.Artifact.Error
import ProcessTest.Artifact.Settled
import ProcessTest.Rule.Verdict

/-!
# Briefs

A definition as instructions in prose, for somebody who carries the test out by hand.
-/

set_option autoImplicit false

namespace ProcessTest.Artifact.Brief

/-- A part of a sentence that may be missing. -/
def clause {α : Type} (f : α → String) : Option α → String
  | some a => f a
  | none => ""

/-- The text of a filled value. -/
def valueText (b : Bindings) (v : Value) : String := (Template.resolve b v).plain

/-- Names with their values. -/
def assignments (b : Bindings) (entries : Entries) : List String :=
  entries.map fun e => s!"{e.1} = {valueText b e.2}"

/-- What an interaction asks for. -/
def gestureText (b : Bindings) (p : Interaction) : String :=
  let fill (s : Option String) : String := clause (Template.fill · b) s
  let selector := fill p.selector
  let input := fill p.value
  match p.gesture with
  | .navigate => s!"Open {fill p.url}"
  | .click => s!"Click `{selector}`"
  | .fill => s!"Type \"{input}\" into `{selector}`"
  | .select => s!"Choose \"{input}\" in `{selector}`"
  | .check => s!"Tick `{selector}`"
  | .press => s!"Press {input} in `{selector}`"

/-- What an operation asks for. -/
def operationText (b : Bindings) (o : Operation) : String :=
  let fill (s : String) : String := Template.fill s b
  match o with
  | .entity p =>
    s!"Create a {p.entityType} named \"{fill p.name}\" (smart code `{p.smartCode}`)" ++
      if p.dynamicFields.isEmpty then ""
      else " with " ++ ", ".intercalate (assignments b p.dynamicFields)
  | .transaction p =>
    s!"Record a {p.transactionType} transaction (smart code `{p.smartCode}`)" ++
      clause (" for " ++ valueText b ·) p.totalAmount ++
      clause (" dated " ++ fill ·) p.date ++
      clause (fun s => s!" from `{fill s}`") p.sourceId ++
      clause (fun s => s!" to `{fill s}`") p.targetId ++
      if p.lines.isEmpty then "" else s!" with {p.lines.length} line(s)"
  | .relationship p =>
    s!"Link `{fill p.fromId}` to `{fill p.toId}` as {p.relationshipType}" ++
      s!" (smart code `{p.smartCode}`)"
  | .field p => s!"Set field {p.name} of `{fill p.entityId}` to {valueText b p.value}"
  | .interaction p => gestureText b p
  | .request p =>
    s!"Send {p.method.name} {fill p.endpoint}" ++
      clause (fun status => s!" and expect status {status}") p.expectStatus
  | .wait ms => s!"Wait {ms} ms"

/-- The sentence of an action. -/
def actionText (b : Bindings) (a : Action) : String :=
  operationText b a.operation ++ clause (fun s => s!" ({oneLine s})") a.description ++
    clause (fun name => s!"; record the result as `{name}`") a.storeAs ++ "."

/-- An item of a numbered list. -/
def item (index : Nat) (text : String) : String := s!"{index + 1}. {text}"

/-- The numbered sentences of actions. -/
def actionItems (b : Bindings) (actions : List Action) : List String :=
  numbered (fun index a => item index (actionText b a)) 0 actions

/-- A section with a heading, unless it has no lines. -/
def optionalSection (heading : List String) (lines : List String) : List String :=
  if lines.isEmpty then [] else heading ++ lines

/-- Conditions to confirm. -/
def conditionLines (b : Bindings) (heading : String) (conditions : List String) : List String :=
  optionalSection ["", heading] (conditions.map fun c => s!"- `{Template.fill c b}`")

/-- The sentence of an action of a step. -/
def stepAction (b : Bindings) (index : Nat) (a : Action) : String :=
  item index (actionText b a) ++ clause (fun persona => s!" (as **{persona}**)") a.persona

/-- The section of a step. -/
def stepLines (b : Bindings) (index : Nat) (step : Step) : List String :=
  let title := if step.description = "" then "" else s!": {oneLine step.description}"
  let retries :=
    if step.retry = 0 then ""
    else s!"; if it fails, start the step over (up to {step.retry} more time(s))"
  ["", s!"### {index + 1}. {step.id}{title}", "",
    s!"Acting as **{step.persona}**. Finish within {step.timeout} ms{retries}."] ++
  conditionLines b "Before starting, confirm:" step.preconditions ++
  [""] ++ numbered (stepAction b) 0 step.actions ++
  ["", s!"Record the results of this step as `{step.id}`."] ++
  conditionLines b "Afterwards, confirm:" step.postconditions

/-- What an element must look like. -/
def pageCheckText (b : Bindings) (c : PageCheck) : String :=
  s!"`{c.selector}`" ++ (if c.visible = some false then " is hidden" else " is visible") ++
    clause (fun s => s!" and shows \"{Template.fill s b}\"") c.text

/-- The name of a rule in prose. -/
def ruleName (rule : Rule) : String :=
  String.ofList (rule.name.toList.map fun c => if c = '_' then ' ' else c)

/-- What a rule demands; the figures of a settled one are given. -/
def ruleText (b : Bindings) (rule : Rule) : Except Rule.Error String :=
  match rule.settled? b with
  | none =>
    .ok s!"The {ruleName rule} rule must hold once the recorded values are filled in."
  | some rule => do
    let verdict ← rule.evaluate
    pure (s!"The {ruleName rule} rule must hold: {verdict.explanation}." ++
      if verdict.passed then ""
      else " Warning: with these figures the rule does not hold; report this as a failure.")

/-- What a check demands. -/
def checkText (b : Bindings) : Check → Except Error String
  | .database table conditions expectedCount =>
    .ok (s!"`{table}` holds exactly {expectedCount} record(s)" ++
      (if conditions.isEmpty then ""
        else " where " ++ " and ".intercalate (assignments b conditions)) ++ ".")
  | .page checks =>
    .ok ("On screen, " ++ "; ".intercalate (checks.map (pageCheckText b)) ++ ".")
  | .rule rule => match ruleText b rule with
    | .ok text => .ok text
    | .error cause => .error (.rule cause)
  | .variable path (some expected) =>
    .ok s!"The recorded `{path}` equals \"{valueText b expected}\"."
  | .variable path none => .ok s!"A value was recorded for `{path}`."

/-- The items of all assertions from the given index on. -/
def assertionItems (b : Bindings) : Nat → List Assertion → Except Error (List String)
  | _, [] => .ok []
  | index, a :: rest => do
    let text ← checkText b a.check
    let more ← assertionItems b (index + 1) rest
    pure (item index (clause (fun s => s!"**{oneLine s}**: ") a.description ++ text) :: more)

/-- The setting. -/
def settingLines (s : Setting) : List String :=
  [s!"- Organization: `{s.organization}`"] ++
    (s.tenant.map fun tenant => s!"- Tenant: `{tenant}`").toList ++
    [s!"- Currency {s.currency}, locale {s.locale}"] ++
    (s.fiscalYear.map fun year => s!"- Fiscal year {year}").toList ++
    (s.clock.map fun clock => s!"- Treat the current time as {clock}").toList

/-- A persona. -/
def personaLine (persona : String × Persona) : String :=
  s!"- **{persona.1}** ({persona.2.role})" ++
    if persona.2.permissions.isEmpty then ""
    else ": may " ++ ", ".intercalate persona.2.permissions

/-- The heading and the description. -/
def introduction (d : Definition) : List String :=
  [s!"<!-- {banner d} -->", s!"# {oneLine d.title}", "",
    s!"Test `{d.id}` for the {d.industry} industry, priority {d.metadata.priority.name}."] ++
  (match d.description with
    | some text => ["", oneLine text]
    | none => []) ++
  ["", "Values written as `\x7b\x7bname.field\x7d\x7d` are results recorded earlier in this " ++
    "test; substitute what you recorded."]

/-- The lines of the brief of a definition. -/
def lines (d : Definition) : Except Error (List String) := do
  let b := d.bindings
  let assertions ← assertionItems b 0 d.assertions
  pure (introduction d ++
    ["", "## Context", ""] ++ settingLines d.setting ++
    ["", "## Personas", ""] ++ d.personas.map personaLine ++
    optionalSection ["", "## Setup", ""] (actionItems b d.setup) ++
    ["", "## Steps"] ++ (numbered (stepLines b) 0 d.steps).flatten ++
    optionalSection ["", "## Verification", ""] assertions ++
    optionalSection ["", "## Cleanup", "", "Do this even if an earlier step failed.", ""]
      (actionItems b d.cleanup))

end ProcessTest.Artifact.Brief
