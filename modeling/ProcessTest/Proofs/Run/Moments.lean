import ProcessTest.Proofs.Run.Parts
import Mathlib.Logic.Function.Iterate

/-!
# The moments of a run

`Definition.run` tells what a run comes to.  Here the same run is a sequence of moments, one for
each action, attempt, assertion and change of phase, so that something can be said of every moment
between the start and the end.

* `Moment` — what a run has come to so far, and what it is about to do.
* `Moment.next` — the moment after a moment.
* `Definition.moment` — the moments of a run, numbered from its start.
* `Leads` — from one moment the run comes to another.
-/

set_option autoImplicit false

namespace ProcessTest

/-! ## Moments -/

/-- What stays the same from moment to moment. -/
structure Plan (σ : Type) where
  runner : Runner σ
  definition : Definition
  /-- Go on after failed steps. -/
  proceed : Bool

/-- An attempt at a step that is about to begin or has begun. -/
structure Trial where
  step : Step
  /-- The steps after it. -/
  rest : List Step
  /-- The number of the attempt. -/
  number : Nat
  /-- How many attempts may follow. -/
  more : Nat
  /-- The time of the first attempt. -/
  start : Nat

/-- What a run is about to do. -/
inductive Task where
  /-- The actions of the setup that are left, in the scope of the setup. -/
  | setup (index : Nat) (rest : List Action) (scope : Bindings)
  | steps (rest : List Step)
  | attempt (trial : Trial)
  /-- The actions of an attempt that are left, in the scope of the attempt. -/
  | act (trial : Trial) (budget deadline index : Nat) (rest : List Action)
      (done : List ActionResult) (scope : Bindings)
  | check (index : Nat) (rest : List Assertion)
  /-- The actions of the cleanup that are left, in the scope of the cleanup. -/
  | cleanup (index : Nat) (rest : List Action) (scope : Bindings)
  | ended

/-- What a run has come to so far. -/
structure Progress (σ : Type) where
  /-- The bindings of the run; scopes that are not taken over yet are copies of them. -/
  context : Bindings
  world : σ
  halted : Bool
  setup : List ActionResult
  steps : List StepResult
  cleanup : List ActionResult

/-- A moment of a run. -/
structure Moment (σ : Type) extends Progress σ where
  task : Task

variable {σ : Type}

namespace Progress

/-- The moment after the assertions: cleanup, unless a halt forbids it. -/
def afterChecks (p : Plan σ) (g : Progress σ) : Moment σ :=
  if !g.halted || p.definition.policy.alwaysCleanup
  then ⟨g, .cleanup 0 p.definition.cleanup g.context⟩
  else ⟨g, .ended⟩

/-- The moment after the steps: assertions, unless the run has halted or is dry. -/
def afterSteps (p : Plan σ) (g : Progress σ) : Moment σ :=
  if p.runner.dryRun || g.halted then g.afterChecks p
  else ⟨g, .check 0 p.definition.assertions⟩

/-- The moment after a halt. -/
def halt (p : Plan σ) (g : Progress σ) : Moment σ := { g with halted := true }.afterSteps p

/-- The moment after the setup, whose scope is taken over. -/
def endSetup (p : Plan σ) (scope : Bindings) (g : Progress σ) : Moment σ :=
  let g := { g with context := (g.context.absorb scope).1 }
  if g.setup.all ActionResult.success then ⟨g, .steps p.definition.steps⟩ else g.halt p

/-- The moment after a step with the given result and bindings. -/
def endStep (p : Plan σ) (rest : List Step) (result : StepResult) (context : Bindings)
    (g : Progress σ) : Moment σ :=
  let g := { g with context, steps := g.steps ++ [result] }
  if result.success || p.proceed then ⟨g, .steps rest⟩ else g.halt p

/-- The moment after an attempt: the next attempt, or the end of the step. -/
def endAttempt (p : Plan σ) (t : Trial) (attempt : Attempt) (g : Progress σ) : Moment σ :=
  match attempt with
  | .passed actions scope =>
    let ms := if p.runner.dryRun then 0 else p.runner.backend.now g.world - t.start
    g.endStep p t.rest ⟨t.step.id, t.number, actions, none, ms⟩ (g.context.absorb scope).1
  | .failed actions cause =>
    let last := g.endStep p t.rest
      ⟨t.step.id, t.number, actions, some cause, p.runner.backend.now g.world - t.start⟩ g.context
    match t.more with
    | 0 => last
    | more + 1 =>
      if cause.retryable then ⟨g, .attempt { t with number := t.number + 1, more }⟩ else last

/-- The moment after the next action of the setup. -/
def nextSetup (p : Plan σ) (index : Nat) (rest : List Action) (scope : Bindings)
    (g : Progress σ) : Moment σ :=
  match rest with
  | [] => g.endSetup p scope
  | a :: rest =>
    if p.runner.expired g.world then g.endSetup p scope
    else
      let (result, scope, s) := p.runner.actUnbounded index a scope g.world
      let g := { g with world := s, setup := g.setup ++ [result] }
      if result.success then ⟨g, .setup (index + 1) rest scope⟩ else g.endSetup p scope

/-- The moment after the start of an attempt. -/
def nextAttempt (p : Plan σ) (t : Trial) (g : Progress σ) : Moment σ :=
  match p.runner.unmet t.step.preconditions g.context with
  | some condition => g.endAttempt p t (.failed [] (.precondition condition))
  | none =>
    match p.runner.budget t.step g.world with
    | none => g.endAttempt p t (.failed [] .ceiling)
    | some budget =>
      ⟨g, .act t budget (p.runner.backend.now g.world + budget) 0 t.step.actions [] g.context⟩

/-- The moment after the next action of an attempt. -/
def nextAct (p : Plan σ) (t : Trial) (budget deadline index : Nat) (rest : List Action)
    (done : List ActionResult) (scope : Bindings) (g : Progress σ) : Moment σ :=
  match rest with
  | [] => g.endAttempt p t (p.runner.conclude t.step done scope)
  | a :: rest =>
    match p.runner.act (some deadline) index a scope g.world with
    | (none, s) => { g with world := s }.endAttempt p t (.failed done (.timedOut budget))
    | (some (result, scope), s) =>
      match result.failed? with
      | some failed =>
        { g with world := s }.endAttempt p t (.failed (done ++ [result]) (.action failed))
      | none =>
        ⟨{ g with world := s }, .act t budget deadline (index + 1) rest (done ++ [result]) scope⟩

/-- The moment after the next assertion. -/
def nextCheck (p : Plan σ) (index : Nat) (rest : List Assertion) (g : Progress σ) : Moment σ :=
  match rest with
  | [] => g.afterChecks p
  | a :: rest =>
    ⟨{ g with world := (p.runner.checkOne g.context a.check g.world).2 }, .check (index + 1) rest⟩

/-- The moment after the next action of the cleanup. -/
def nextCleanup (p : Plan σ) (index : Nat) (rest : List Action) (scope : Bindings)
    (g : Progress σ) : Moment σ :=
  match rest with
  | [] => ⟨{ g with context := (g.context.absorb scope).1 }, .ended⟩
  | a :: rest =>
    let (result, scope, s) := p.runner.actUnbounded index a scope g.world
    ⟨{ g with world := s, cleanup := g.cleanup ++ [result] }, .cleanup (index + 1) rest scope⟩

end Progress

/-- **The moment after a moment**; what is over stays over. -/
def Moment.next (p : Plan σ) (m : Moment σ) : Moment σ :=
  match m.task with
  | .setup index rest scope => m.nextSetup p index rest scope
  | .steps [] => m.afterSteps p
  | .steps (step :: rest) =>
    ⟨m.toProgress, .attempt ⟨step, rest, 1, min step.retry Step.maxRetry,
      p.runner.backend.now m.world⟩⟩
  | .attempt t => m.nextAttempt p t
  | .act t budget deadline index rest done scope =>
    m.nextAct p t budget deadline index rest done scope
  | .check index rest => m.nextCheck p index rest
  | .cleanup index rest scope => m.nextCleanup p index rest scope
  | .ended => m

theorem Moment.next_of_ended {p : Plan σ} {m : Moment σ} (hm : m.task = .ended) : m.next p = m := by
  unfold next
  rw [hm]

/-! ## The moments of a run -/

namespace Definition

variable (backend : Backend σ) (options : RunOptions) (now : String) (d : Definition) (s : σ)

/-- The plan of a run. -/
def plan : Plan σ := ⟨options.runner backend s, d, d.proceeds options⟩

/-- The first moment of a run. -/
def firstMoment : Moment σ :=
  let seeded := Bindings.seeded d.setting now
  let s := if options.dryRun then s else backend.enter d.setting.organization s
  ⟨⟨seeded, s, false, [], [], []⟩, .setup 0 d.setup seeded⟩

/-- The moments of a run, numbered from its start. -/
def moment (k : Nat) : Moment σ :=
  (Moment.next (d.plan backend options s))^[k] (d.firstMoment backend options now s)

theorem moment_add (k n : Nat) : d.moment backend options now s (k + n) =
    (Moment.next (d.plan backend options s))^[n] (d.moment backend options now s k) := by
  unfold moment
  rw [Nat.add_comm, Function.iterate_add_apply]

theorem moment_succ (k : Nat) : d.moment backend options now s (k + 1) =
    (d.moment backend options now s k).next (d.plan backend options s) :=
  moment_add backend options now d s k 1

end Definition

/-! ## From moment to moment -/

/-- From one moment the run comes to another, through moments with a property. -/
def Leads (p : Plan σ) (P : Moment σ → Prop) (m m' : Moment σ) : Prop :=
  ∃ n, (Moment.next p)^[n] m = m' ∧ ∀ k < n, P ((Moment.next p)^[k] m)

namespace Leads

variable {p : Plan σ} {P Q : Moment σ → Prop} {m m' m'' : Moment σ}

theorem refl (m : Moment σ) : Leads p P m m := ⟨0, rfl, fun _ hk => absurd hk (Nat.not_lt_zero _)⟩

/-- A moment leads where the next one leads. -/
theorem head (hm : P m) (h : Leads p P (m.next p) m') : Leads p P m m' := by
  obtain ⟨n, rfl, hn⟩ := h
  refine ⟨n + 1, rfl, ?_⟩
  intro k hk
  cases k with
  | zero => exact hm
  | succ k => exact hn k (Nat.lt_of_succ_lt_succ hk)

theorem trans (h : Leads p P m m') (h' : Leads p P m' m'') : Leads p P m m'' := by
  obtain ⟨n, rfl, hn⟩ := h
  induction n generalizing m with
  | zero => exact h'
  | succ n ih =>
    refine head (hn 0 (Nat.succ_pos n)) (ih ?_ h')
    intro k hk
    exact hn (k + 1) (Nat.succ_lt_succ hk)

theorem mono (hPQ : ∀ m, P m → Q m) (h : Leads p P m m') : Leads p Q m m' := by
  obtain ⟨n, hm, hn⟩ := h
  exact ⟨n, hm, fun k hk => hPQ _ (hn k hk)⟩

end Leads

end ProcessTest
