import ProcessTest.Artifact.Settled

/-!
# Expressions and statements of scripts

The scripts for browsers and for data call a client of the system under test.  What is known
stands in them as a literal; all else is filled in by `resolve` when the script runs, from the
object `ctx` of what has been bound so far.

* `Script.value` — the expression of a value tree.
* `Script.call?` — the call of an operation that reaches the system.
* `Script.statements?` — the call with what is done with its result.
-/

set_option autoImplicit false

namespace ProcessTest.Artifact.Script

/-- The module that scripts take their helpers from. -/
def helperModule : String := "./flowcheck-runtime"

/-- A string literal. -/
def string (s : String) : String := String.ofList (Json.quoted s)

/-- The expression of a value tree. -/
def value (b : Bindings) (v : Value) : String :=
  match v.settled? b with
  | some literal => literal.json
  | none => "resolve(" ++ (Template.resolve b v).json ++ ", ctx)"

/-- The expression of a text. -/
def text (b : Bindings) (s : String) : String := value b (.text s)

/-- The arguments of a request behind the endpoint. -/
def bodyArgument (b : Bindings) (p : Request) : String :=
  match p.body, p.method with
  | some body, _ => ", " ++ value b body
  | none, .get | none, .delete => ""
  | none, _ => ", \x7b\x7d"

/-- The call of an operation that reaches the system. -/
def call? (b : Bindings) (o : Operation) : Option String :=
  let payload := value b (.map o.payload)
  match o with
  | .entity _ => some s!"await client.createEntity({payload})"
  | .transaction _ => some s!"await client.createTransaction({payload})"
  | .relationship _ => some s!"await client.createRelationship({payload})"
  | .field p =>
    some s!"await client.setDynamicField({text b p.entityId}, {text b p.name}, {value b p.value})"
  | .request p =>
    some (s!"await client.request({string p.method.name}, {text b p.endpoint}" ++
      bodyArgument b p ++ ")")
  | .interaction _ | .wait _ => none

/-- The expectation of a request's status. -/
def statusCheck (result : String) : Operation → List String
  | .request p => match p.expectStatus with
    | some status => [s!"expect({result}.status).toBe({status});"]
    | none => []
  | _ => []

/-- The call of an action, the check of its status, the binding of its output, and with `merge`
its addition to the output of the step. -/
def statements? (b : Bindings) (merge : Bool) (index : Nat) (a : Action) : Option (List String) :=
  (call? b a.operation).map fun call =>
    let result := s!"a{index}"
    [s!"const {result} = {call};"] ++ statusCheck result a.operation ++
      (match a.storeAs with
        | some name => [s!"ctx[{string name}] = {result};"]
        | none => []) ++
      (if merge then [s!"Object.assign(out, {result});"] else [])

/-- The name of a step's test. -/
def stepTitle (step : Step) : String :=
  if step.description = "" then step.id else s!"{step.id}: {oneLine step.description}"

/-- The check of a variable. -/
def variableCheck (b : Bindings) (path : String) (expected : Option Value) : String :=
  let subject := s!"lookup(ctx, {string path})"
  match expected with
  | some v => s!"expect({subject}).toEqual({value b v});"
  | none => s!"expect({subject}).toBeDefined();"

/-- The declarations of bindings and client. -/
def prologue (d : Definition) : List String :=
  [s!"  const ctx: Record<string, unknown> = {(Value.map d.bindings.entries).json};",
   s!"  const client = createClient(\x7b organizationId: {string d.setting.organization} \x7d);"]

/-- The most retries of any step. -/
def retries (d : Definition) : Nat := d.steps.foldl (fun most s => max most s.retry) 0

/-- The comment on an action that another persona takes. -/
def personaComment (step : Step) (a : Action) : List String :=
  match a.persona with
  | some _ => [s!"  // as {step.personaOf a}"]
  | none => []

end ProcessTest.Artifact.Script
