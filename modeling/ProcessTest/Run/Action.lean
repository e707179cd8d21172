import ProcessTest.Bindings
import ProcessTest.Run.Backend
import ProcessTest.Run.Result
import ProcessTest.Template

/-!
# Carrying out an action

Fill the action, check what will be written, carry it out, and bind its output.

* `resolveAs` — fills all texts of a typed part.
* `Operation.check` — the rules that an operation has to meet before a system sees it.
* `Runner.act` — one action before a deadline.
-/

set_option autoImplicit false

namespace ProcessTest

/-- Fills all texts of a typed part.  A text that is one placeholder becomes the value itself,
unless the part does not allow such a value somewhere; then all texts stay texts. -/
def resolveAs {α : Type} (encode : α → Value) (decode : Value → Decoded α) (b : Bindings) (a : α) :
    Decoded α :=
  match decode (Template.resolve b (encode a)) with
  | .ok filled => .ok filled
  | .error _ => decode (Template.resolveText b (encode a))

/-- The filled action. -/
def Action.resolve (b : Bindings) (a : Action) : Decoded Action :=
  resolveAs Action.encode Action.decode b a

/-- The filled rule. -/
def Rule.resolve (b : Bindings) (r : Rule) : Decoded Rule :=
  resolveAs Rule.encode (Rule.decode .direct) b r

/-! ## Checks before a call -/

/-- The smart codes of transaction lines, numbered from the given index, follow the grammar. -/
def checkLines : Nat → List LineItem → Except ActionError Unit
  | _, [] => .ok ()
  | index, item :: rest =>
    let verdict := item.smartCode.map SmartCode.check
    match verdict.filter (!·.valid) with
    | some verdict => .error (.lineSmartCode index verdict)
    | none => checkLines (index + 1) rest

/-- The journal of transaction lines balances, if one of them names a side. -/
def checkBalance (items : List LineItem) : Except ActionError Unit := do
  match ← (Rule.journalOf items).mapError .journal with
  | none => pure ()
  | some journal =>
    let verdict ← (Rule.checkJournal journal Rule.defaultTolerance).mapError .journal
    if verdict.valid then pure ()
    else throw (.unbalanced verdict.totalDebits verdict.totalCredits verdict.difference)

/-- The smart code of an operation follows the grammar, if it has one. -/
def Operation.checkCode (o : Operation) : Except ActionError Unit :=
  match (o.smartCode?.map SmartCode.check).filter (!·.valid) with
  | some verdict => .error (.smartCode verdict)
  | none => .ok ()

/-- The rules that an operation has to meet before a system sees it. -/
def Operation.check (o : Operation) : Except ActionError Unit := do
  o.checkCode
  match o with
  | .transaction p =>
    checkLines 0 p.lines
    checkBalance p.lines
  | _ => pure ()

/-! ## Carrying out -/

/-- What stays the same during a run. -/
structure Runner (σ : Type) where
  backend : Backend σ
  /-- Resolve and record only; the system is not touched. -/
  dryRun : Bool
  /-- The time on the run's clock at which it must be over. -/
  ceiling : Option Nat

/-- What an action came to: none if the deadline came first. -/
abbrev Outcome := Option (Except ActionError Value)

/-- The outcome of a reply. -/
def Reply.outcome : Reply → Outcome
  | .record v => some (.ok v)
  | .refused message => some (.error (.refused message))
  | .lost => some (.error .lost)
  | .late => none

/-- An answer with another status than the expected one is a failure. -/
def checkStatus (expected : Option Nat) (answer : Value) : Except ActionError Value :=
  match expected with
  | none => .ok answer
  | some code =>
    let found := (answer.field? "status").bind Value.natural?
    if found = some code then .ok answer else .error (.status code found)

namespace Runner

variable {σ : Type}

/-- Carries an operation out before a deadline. -/
def perform (r : Runner σ) (deadline : Option Nat) (o : Operation) (s : σ) : Outcome × σ :=
  match o with
  | .wait ms =>
    let (inTime, s) := r.backend.pause ms deadline s
    (if inTime then some (.ok (.map [("waited_ms", .ofNat ms)])) else none, s)
  | .interaction p =>
    -- Only a browser could do it.
    (some (.ok (.map [("interaction", .text p.gesture.name), ("executed", .bool false)])),
      r.backend.tick s)
  | .request p =>
    let (reply, s) := r.backend.call o deadline s
    (reply.outcome.map (·.bind (checkStatus p.expectStatus)), s)
  | _ =>
    let (reply, s) := r.backend.call o deadline s
    (reply.outcome, s)

/-- The output recorded for every action of a dry run. -/
def dryOutput : Value := .map [("id", .text "dry-run")]

/-- The bindings after an action with the given output. -/
def store (a : Action) (output : Value) (scope : Bindings) : Bindings :=
  match a.storeAs with
  | some name => scope.bind name output
  | none => scope

/-- The outcome of a filled operation. -/
def outcome (r : Runner σ) (deadline : Option Nat) (o : Operation) (s : σ) : Outcome × σ :=
  if r.dryRun then (some (.ok dryOutput), r.backend.tick s)
  else match o.check with
    | .ok () => r.perform deadline o s
    | .error cause => (some (.error cause), r.backend.tick s)

/-- One action before a deadline: its result and the bindings after it; none if the deadline came
first. -/
def act (r : Runner σ) (deadline : Option Nat) (index : Nat) (a : Action) (scope : Bindings)
    (s : σ) : Option (ActionResult × Bindings) × σ :=
  let result (resolved : Option Operation) (outcome : Except ActionError Value) (ms : Nat) :
      ActionResult := ⟨index, a.operation.kind, resolved, outcome, ms⟩
  match a.resolve scope with
  | .error cause =>
    let s' := r.backend.tick s
    let ms := r.backend.now s' - r.backend.now s
    (some (result none (.error (.malformed cause)) ms, scope), s')
  | .ok filled =>
    let o := filled.operation
    match r.outcome deadline o s with
    | (none, s') => (none, s')
    | (some outcome, s') =>
      let ms := if r.dryRun then 0 else r.backend.now s' - r.backend.now s
      match outcome with
      | .ok output => (some (result (some o) (.ok output) ms, store a output scope), s')
      | .error cause => (some (result (some o) (.error cause) ms, scope), s')

/-- One action without a deadline; if it never ends, its answer counts as lost. -/
def actUnbounded (r : Runner σ) (index : Nat) (a : Action) (scope : Bindings) (s : σ) :
    ActionResult × Bindings × σ :=
  match r.act none index a scope s with
  | (some (result, scope), s) => (result, scope, s)
  | (none, s) => (⟨index, a.operation.kind, none, .error .lost, 0⟩, scope, s)

end Runner

end ProcessTest
