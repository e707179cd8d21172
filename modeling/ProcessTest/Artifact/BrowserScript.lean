import ProcessTest.Artifact.Error
import ProcessTest.Artifact.Script

/-!
# Browser scripts

One serial suite per definition on one page: the setup runs before all tests, every step is a
test, and the cleanup runs after all of them.  Interactions become calls on the page.
-/

set_option autoImplicit false

namespace ProcessTest.Artifact.BrowserScript

/-- The expression of a field of an interaction, or the name of the missing field. -/
def argument (b : Bindings) (name : String) : Option String → Except String String
  | some s => .ok (Script.text b s)
  | none => .error name

/-- The statement of an interaction, or the name of a field that it lacks. -/
def gesture (b : Bindings) (p : Interaction) : Except String String := do
  match p.gesture with
  | .navigate =>
    let url ← argument b "url" p.url
    pure s!"await page.goto({url});"
  | .click => alone "click"
  | .check => alone "check"
  | .fill => withValue "fill"
  | .select => withValue "selectOption"
  | .press => withValue "press"
where
  /-- A call on an element without arguments. -/
  alone (method : String) : Except String String := do
    let selector ← argument b "selector" p.selector
    pure s!"await page.locator({selector}).{method}();"
  /-- A call on an element that takes the value. -/
  withValue (method : String) : Except String String := do
    let selector ← argument b "selector" p.selector
    let value ← argument b "value" p.value
    pure s!"await page.locator({selector}).{method}({value});"

/-- The lines of an action. -/
def actionLines (b : Bindings) (merge : Bool) (owner : String) (index : Nat) (a : Action) :
    Except Error (List String) :=
  match a.operation with
  | .wait ms => .ok [s!"await page.waitForTimeout({ms});"]
  | .interaction p =>
    ((gesture b p).map ([·])).mapError fun field => .gestureNeeds owner index p.gesture field
  | _ => .ok ((Script.statements? b merge index a).getD [])

/-- The lines of all actions, numbered from the given index. -/
def actionsLines (b : Bindings) (merge : Bool) (owner : String) (before : Action → List String) :
    Nat → List Action → Except Error (List String)
  | _, [] => .ok []
  | index, a :: rest => do
    let lines ← actionLines b merge owner index a
    let more ← actionsLines b merge owner before (index + 1) rest
    pure (before a ++ indented 2 lines ++ more)

/-- The check of a condition of a step. -/
def conditionCheck (what condition : String) : String :=
  let reason := Script.string s!"{what}: {condition}"
  s!"  expect(holds({Script.string condition}, ctx), {reason}).toBe(true);"

/-- The test of a step. -/
def stepLines (b : Bindings) (step : Step) : Except Error (List String) := do
  let actions ← actionsLines b true step.id (Script.personaComment step) 0 step.actions
  pure ([s!"test({Script.string (Script.stepTitle step)}, async () => \x7b",
      s!"  test.setTimeout({step.timeout});", s!"  // persona: {step.persona}"] ++
    step.preconditions.map (conditionCheck "precondition") ++
    ["  const out: Record<string, unknown> = \x7b\x7d;"] ++ actions ++
    [s!"  ctx[{Script.string step.id}] = out;"] ++
    step.postconditions.map (conditionCheck "postcondition") ++ ["\x7d);"])

/-- The tests of all steps, each behind an empty line. -/
def stepsLines (b : Bindings) : List Step → Except Error (List String)
  | [] => .ok []
  | step :: rest => do
    let lines ← stepLines b step
    let more ← stepsLines b rest
    pure ("" :: indented 2 lines ++ more)

/-- The checks of an element. -/
def pageCheckLines (b : Bindings) (c : PageCheck) : List String :=
  let locator := s!"page.locator({Script.text b c.selector})"
  (match c.visible, c.text with
    | some false, _ => [s!"await expect({locator}).toBeHidden();"]
    | some true, _ | none, none => [s!"await expect({locator}).toBeVisible();"]
    | none, some _ => []) ++
  (match c.text with
    | some text => [s!"await expect({locator}).toContainText({Script.text b text});"]
    | none => [])

/-- The checks of an assertion; only a comment where another artifact checks it. -/
def assertionLines (b : Bindings) (a : Assertion) : List String :=
  let label := a.description.map oneLine
  let name := label.getD "(unnamed)"
  match a.check with
  | .page checks =>
    (match label with
      | some label => [s!"// {label}"]
      | none => []) ++ checks.flatMap (pageCheckLines b)
  | .variable path expected => [Script.variableCheck b path expected]
  | .database .. => [s!"// database check {name} runs in the pgtap target"]
  | .rule rule => [s!"// {rule.name} rule {name} runs in the jest target"]

/-- The lines of the script of a definition. -/
def lines (d : Definition) : Except Error (List String) := do
  let b := d.bindings
  let setup ← actionsLines b false "setup" (fun _ => []) 0 d.setup
  let cleanup ← actionsLines b false "cleanup" (fun _ => []) 0 d.cleanup
  let steps ← stepsLines b d.steps
  let checks := d.assertions.flatMap (assertionLines b)
  pure (
    [s!"// {banner d}",
      "import \x7b test, expect, type Page \x7d from '@playwright/test';",
      s!"import \x7b createClient, holds, lookup, resolve \x7d from '{Script.helperModule}';",
      "",
      s!"test.describe({Script.string d.title}, () => \x7b",
      s!"  test.describe.configure(\x7b mode: 'serial', retries: {Script.retries d} \x7d);",
      ""] ++ Script.prologue d ++
    ["  let page: Page;",
      "",
      "  test.beforeAll(async (\x7b browser \x7d) => \x7b",
      "    page = await browser.newPage();"] ++ indented 2 setup ++
    ["  \x7d);", "", "  test.afterAll(async () => \x7b"] ++ indented 2 cleanup ++
    ["    await page.close();", "  \x7d);"] ++ steps ++
    (if checks.isEmpty then []
      else ["", "  test(\"assertions\", async () => \x7b"] ++ indented 4 checks ++ ["  \x7d);"]) ++
    ["\x7d);"])

end ProcessTest.Artifact.BrowserScript
