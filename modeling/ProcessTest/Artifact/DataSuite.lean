import ProcessTest.Artifact.Error
import ProcessTest.Artifact.Script
import ProcessTest.Rule.Verdict

/-!
# Data suites

One suite per definition without a browser: the setup runs before all tests, every step is a test,
the cleanup runs after all of them, and the assertions have a suite of their own.  The verdict of
a settled rule is computed here, and its figures are pinned.
-/

set_option autoImplicit false

namespace ProcessTest.Artifact.DataSuite

/-- The lines of an action. -/
def actionLines (b : Bindings) (merge : Bool) (index : Nat) (a : Action) : List String :=
  match a.operation with
  | .wait ms => [s!"await new Promise((done) => setTimeout(done, {ms}));"]
  | .interaction p =>
    let target := Script.text b ((p.selector.or p.url).getD "")
    [s!"// ui: {p.gesture.name} {target} (browser only, see the playwright target)"]
  | _ => (Script.statements? b merge index a).getD []

/-- The lines of all actions inside a block. -/
def hookLines (b : Bindings) (hook : String) (actions : List Action) : List String :=
  if actions.isEmpty then []
  else ["", s!"  {hook}(async () => \x7b"] ++
    indented 4 (numbered (actionLines b false) 0 actions).flatten ++ ["  \x7d);"]

/-- The check of a condition of a step. -/
def conditionCheck (condition : String) : String :=
  s!"  expect(holds({Script.string condition}, ctx)).toBe(true);"

/-- The lines of an action of a step. -/
def stepActionLines (b : Bindings) (step : Step) (index : Nat) (a : Action) : List String :=
  Script.personaComment step a ++ indented 2 (actionLines b true index a)

/-- The test of a step. -/
def stepLines (b : Bindings) (step : Step) : List String :=
  [s!"test({Script.string (Script.stepTitle step)}, async () => \x7b",
    s!"  // persona: {step.persona}"] ++
  step.preconditions.map conditionCheck ++
  ["  const out: Record<string, unknown> = \x7b\x7d;"] ++
  (numbered (stepActionLines b step) 0 step.actions).flatten ++
  [s!"  ctx[{Script.string step.id}] = out;"] ++
  step.postconditions.map conditionCheck ++ [s!"\x7d, {step.timeout});"]

/-- The figures of a tax, which the rule pins. -/
def figures : Rule → Except Rule.Error (List String)
  | .taxCalculation amount rate inclusive _ _ => do
    let amount ← Rule.operand amount
    let rate ← Rule.operand rate
    let tax ← Rule.computeTax amount rate (.of inclusive)
    let net := Script.string tax.net.text
    let gross := Script.string tax.gross.text
    let tax := Script.string tax.tax.text
    pure ["expect(verdict.breakdown).toMatchObject(\x7b net: " ++
      s!"{net}, tax: {tax}, gross: {gross} \x7d);"]
  | _ => .ok []

/-- The lines of a rule. -/
def ruleLines (b : Bindings) (rule : Rule) : Except Rule.Error (List String) := do
  match rule.settled? b with
  | none =>
    pure ["// operands are known only at run time",
      s!"const verdict = oracles.check({Script.value b rule.encode});",
      "expect(verdict.valid).toBe(true);"]
  | some rule =>
    let verdict ← rule.evaluate
    let figures ← figures rule
    pure ([s!"// oracle: {oneLine verdict.explanation}"] ++
      (if verdict.passed then [] else
        ["// note: the oracle rejects these operands as written"]) ++
      [s!"const verdict = oracles.check({rule.encode.json});",
        "expect(verdict.valid).toBe(true);"] ++ figures)

/-- The test of an assertion; only a comment where a browser is needed. -/
def assertionLines (b : Bindings) (index : Nat) (a : Assertion) : Except Error (List String) :=
  let name := match a.description with
    | some text => oneLine text
    | none => s!"{a.check.kind} #{index + 1}"
  let title := Script.string name
  match a.check with
  | .database table conditions expectedCount =>
    let conditions := Script.value b (.map conditions)
    .ok [s!"test({title}, async () => \x7b",
      s!"  const rows = await client.query({Script.string table}, {conditions});",
      s!"  expect(rows).toHaveLength({expectedCount});", "\x7d);"]
  | .rule rule => match ruleLines b rule with
    | .ok lines => .ok ([s!"test({title}, () => \x7b"] ++ indented 2 lines ++ ["\x7d);"])
    | .error cause => .error (.rule cause)
  | .variable path expected =>
    .ok [s!"test({title}, () => \x7b", "  " ++ Script.variableCheck b path expected, "\x7d);"]
  | .page checks =>
    .ok [s!"// {name}: {checks.length} ui check(s), browser only, see the playwright target"]

/-- The tests of all assertions from the given index on, with empty lines between them. -/
def assertionsLines (b : Bindings) : Nat → List Assertion → Except Error (List String)
  | _, [] => .ok []
  | index, a :: rest => do
    let lines ← assertionLines b index a
    let more ← assertionsLines b (index + 1) rest
    pure ((if 0 < index then [""] else []) ++ indented 4 lines ++ more)

/-- The lines of the suite of a definition. -/
def lines (d : Definition) : Except Error (List String) := do
  let b := d.bindings
  let retries := Script.retries d
  let assertions ← assertionsLines b 0 d.assertions
  pure (
    [s!"// {banner d}",
      "import \x7b createClient, holds, lookup, oracles, resolve \x7d from '" ++
        Script.helperModule ++ "';",
      ""] ++
    (if 0 < retries then [s!"jest.retryTimes({retries});", ""] else []) ++
    [s!"describe({Script.string d.title}, () => \x7b"] ++ Script.prologue d ++
    hookLines b "beforeAll" d.setup ++ hookLines b "afterAll" d.cleanup ++
    d.steps.flatMap (fun step => "" :: indented 2 (stepLines b step)) ++
    (if d.assertions.isEmpty then []
      else ["", "  describe(\"assertions\", () => \x7b"] ++ assertions ++ ["  \x7d);"]) ++
    ["\x7d);"])

end ProcessTest.Artifact.DataSuite
