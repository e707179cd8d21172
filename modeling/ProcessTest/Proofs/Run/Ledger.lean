import ProcessTest.Proofs.Run.Agreement
import ProcessTest.Proofs.Run.Outputs

/-!
# What a run binds

Everything that a run binds is in its report: the kept outputs of the setup, those of the steps
that pass with the output of each step, and the kept outputs of the cleanup.

* `Definition.ledger` — these entries in the order in which they are bound.
* `bindings_run` — the final bindings are the seeded ones and the ledger, nothing else.
-/

set_option autoImplicit false

namespace ProcessTest

variable {σ : Type}

/-- What a step with the given result adds to the bindings of the run. -/
def committed (step : Step) (result : StepResult) : Entries :=
  if result.success then Runner.outputs step result.actions else []

/-- What steps with the given results add, in order. -/
def committedAll (steps : List Step) (results : List StepResult) : Entries :=
  (steps.zip results).flatMap fun (step, result) => committed step result

theorem committedAll_nil_right (steps : List Step) : committedAll steps [] = [] := by
  unfold committedAll
  rw [List.zip_nil_right]
  rfl

theorem committedAll_cons (step : Step) (steps : List Step) (result : StepResult)
    (results : List StepResult) :
    committedAll (step :: steps) (result :: results) =
      committed step result ++ committedAll steps results := by
  unfold committedAll
  rw [List.zip_cons_cons, List.flatMap_cons]

/-- What a run with the given report binds, in order. -/
def Definition.ledger (d : Definition) (report : Report) : Entries :=
  stored d.setup report.setup ++ committedAll d.steps report.steps ++
    stored d.cleanup report.cleanup

/-- What the last attempt at a step leaves behind is what the result of the step says. -/
theorem LastAttempt.bindings_eq {r : Runner σ} {step : Step} {b after : Bindings} {s : σ}
    {result : StepResult} (h : LastAttempt b result after (r.attempt step b s).1) :
    after = b.bindAll (committed step result) := by
  unfold committed
  cases hs : result.success with
  | false => exact h.of_failure hs
  | true =>
    obtain ⟨scope, hattempt, htaken⟩ := h.of_success hs
    obtain ⟨hscope, -, -⟩ := Runner.attempt_passed (Prod.ext hattempt rfl)
    have hprefix : b.entries <+: scope.entries := by
      rw [hscope]
      exact Bindings.entries_prefix_bindAll _ _
    rw [htaken, Bindings.absorb_of_prefix hprefix, hscope, if_pos rfl]

/-- A step adds what its result says. -/
theorem bindings_runStep (p : Plan σ) (step : Step) (b : Bindings) (s : σ) :
    (p.runner.runStep step b s).bindings =
      b.bindAll (committed step (p.runner.runStep step b s).result) := by
  obtain ⟨w, more, -, -, -, hattempt⟩ :=
    leads_attempts (p := p) (p.trial step [] s) ⟨b, s, false, [], [], []⟩
  exact hattempt.bindings_eq

/-- Steps add what their results say. -/
theorem bindings_runSteps (p : Plan σ) (proceed : Bool) (steps : List Step) (b : Bindings) (s : σ) :
    (p.runner.runSteps proceed steps b s).bindings =
      b.bindAll (committedAll steps (p.runner.runSteps proceed steps b s).results) := by
  induction steps generalizing b s with
  | nil => rfl
  | cons step rest ih =>
    have hstep := bindings_runStep p step b s
    simp only [Runner.runSteps]
    generalize p.runner.runStep step b s = run at *
    split
    · simp only [committedAll_cons, Bindings.bindAll_append, ← hstep]
      exact ih run.bindings run.world
    · simp only [committedAll_cons, committedAll_nil_right, List.append_nil]
      exact hstep

namespace Definition

variable (backend : Backend σ) (options : RunOptions) (now : String) (d : Definition) (s : σ)

theorem scope_setupRun :
    (d.setupRun backend options now s).scope = (Bindings.seeded d.setting now).bindAll
      (stored d.setup (d.setupRun backend options now s).results) :=
  Runner.scope_runSetup _ _ _ _ _

theorem bindings_stepsRun :
    (d.stepsRun backend options now s).bindings = (Bindings.seeded d.setting now).bindAll
      (stored d.setup (d.setupRun backend options now s).results ++
        committedAll d.steps (d.stepsRun backend options now s).results) := by
  unfold stepsRun
  simp only [scope_setupRun, Bindings.absorb_bindAll, Bindings.bindAll_append]
  split
  · exact bindings_runSteps (d.plan backend options s) _ _ _ _
  · rw [committedAll_nil_right]
    rfl

theorem scope_cleanupRun :
    (d.cleanupRun backend options now s).scope =
      (d.stepsRun backend options now s).bindings.bindAll
        (stored d.cleanup (d.cleanupRun backend options now s).results) := by
  unfold cleanupRun
  simp only
  split
  · exact Runner.scope_runCleanup _ _ _ _ _
  · rw [stored_nil_right]
    rfl

/-- **The bindings at the end of a run** are the seeded ones and those of the ledger. -/
theorem bindings_run :
    (d.run backend options now s).bindings =
      (Bindings.seeded d.setting now).bindAll (d.ledger (d.run backend options now s).report) := by
  unfold ledger
  rw [run_bindings, scope_cleanupRun, Bindings.absorb_bindAll, bindings_stepsRun,
    ← Bindings.bindAll_append, report_setup, report_steps, report_cleanup]

end Definition

end ProcessTest
