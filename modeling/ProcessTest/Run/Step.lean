import ProcessTest.Condition
import ProcessTest.Run.Action

/-!
# Running a step

A step is attempted on a copy of the bindings, which are taken over only when the attempt passes.
A failed attempt may be repeated from the same bindings.

* `Runner.attempt` — one attempt.
* `Runner.runStep` — all attempts at a step, with their events.
-/

set_option autoImplicit false

namespace ProcessTest

/-- How a sequence of actions ends. -/
inductive Ending where
  | finished
  | failed (action : FailedAction)
  | late
  deriving DecidableEq

/-- What a sequence of actions comes to. -/
structure Sequence (σ : Type) where
  results : List ActionResult
  ending : Ending
  scope : Bindings
  world : σ

/-- What an attempt at a step comes to. -/
inductive Attempt where
  | passed (actions : List ActionResult) (scope : Bindings)
  | failed (actions : List ActionResult) (cause : StepError)

/-- The output of a step: the fields of its actions' outputs, later ones over earlier ones. -/
def mergedOutput (results : List ActionResult) : Value :=
  .map (results.foldl (fun fields r => Entries.merge fields (r.output.entries?.getD [])) [])

/-- What a step comes to. -/
structure StepRun (σ : Type) where
  result : StepResult
  bindings : Bindings
  events : List Occurrence
  world : σ

namespace Runner

variable {σ : Type}

/-- Whether the ceiling of the run has passed. -/
def expired (r : Runner σ) (s : σ) : Bool :=
  match r.ceiling with
  | some ceiling => ceiling ≤ r.backend.spent s
  | none => false

/-- The milliseconds that an attempt may take: the step's timeout, but no more than what is left
of the run; none when nothing is left. -/
def budget (r : Runner σ) (step : Step) (s : σ) : Option Nat :=
  match r.ceiling with
  | none => some step.timeout
  | some ceiling =>
    if ceiling ≤ r.backend.spent s then none
    else some (min step.timeout (ceiling - r.backend.spent s))

/-- The actions of a step up to the first failure or the deadline. -/
def actAll (r : Runner σ) (deadline : Nat) : Nat → List Action → Bindings → σ → Sequence σ
  | _, [], scope, s => ⟨[], .finished, scope, s⟩
  | index, a :: rest, scope, s =>
    match r.act (some deadline) index a scope s with
    | (none, s) => ⟨[], .late, scope, s⟩
    | (some (result, scope), s) =>
      match result.failed? with
      | some failed => ⟨[result], .failed failed, scope, s⟩
      | none =>
        let more := r.actAll deadline (index + 1) rest scope s
        { more with results := result :: more.results }

/-- The first condition that is not met; a dry run asks for none. -/
def unmet (r : Runner σ) (conditions : List String) (scope : Bindings) : Option String :=
  if r.dryRun then none else Condition.firstUnmet conditions scope

/-- Binds the output of a step whose actions have passed, and checks the postconditions. -/
def conclude (r : Runner σ) (step : Step) (results : List ActionResult) (scope : Bindings) :
    Attempt :=
  let scope := scope.bind step.id (mergedOutput results)
  match r.unmet step.postconditions scope with
  | some condition => .failed results (.postcondition condition)
  | none => .passed results scope

/-- One attempt at a step. -/
def attempt (r : Runner σ) (step : Step) (b : Bindings) (s : σ) : Attempt × σ :=
  match r.unmet step.preconditions b with
  | some condition => (.failed [] (.precondition condition), s)
  | none =>
    match r.budget step s with
    | none => (.failed [] .ceiling, s)
    | some budget =>
      let run := r.actAll (r.backend.now s + budget) 0 step.actions b s
      (match run.ending with
        | .late => .failed run.results (.timedOut budget)
        | .failed action => .failed run.results (.action action)
        | .finished => r.conclude step run.results run.scope, run.world)

/-- Attempts at a step, numbered from the given number, of which `more` may follow the first;
`start` is the time of the first attempt of all. -/
def attempts (r : Runner σ) (step : Step) (b : Bindings) (start : Nat) :
    (more : Nat) → (number : Nat) → σ → StepRun σ
  | more, number, s =>
    match r.attempt step b s with
    | (.passed actions scope, s) =>
      let ms := if r.dryRun then 0 else r.backend.now s - start
      { result := ⟨step.id, number, actions, none, ms⟩
        bindings := (b.absorb scope).1
        events := [.stepStarted step.id number, .stepPassed step.id number (secondsOf ms)]
        world := s }
    | (.failed actions cause, s) =>
      let events : List Occurrence :=
        [.stepStarted step.id number, .stepFailed step.id number cause.message]
      let last : StepRun σ :=
        { result := ⟨step.id, number, actions, some cause, r.backend.now s - start⟩
          bindings := b, events, world := s }
      match more with
      | 0 => last
      | more + 1 =>
        if cause.retryable then
          let run := r.attempts step b start more (number + 1) s
          { run with events := events ++ run.events }
        else last

/-- All attempts at a step. -/
def runStep (r : Runner σ) (step : Step) (b : Bindings) (s : σ) : StepRun σ :=
  r.attempts step b (r.backend.now s) (min step.retry Step.maxRetry) 1 s

end Runner

end ProcessTest
