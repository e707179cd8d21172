import ProcessTest.Proofs.Run.Moments
import ProcessTest.Proofs.Run.Outputs

/-!
# The moments agree with the run

Each part of a run, carried out moment by moment, comes to what the function for that part gives.

* `leads_setup`, `leads_act`, `leads_attempts`, `leads_steps`, `leads_checks`, `leads_cleanup` —
  one lemma for each part, by induction on what is left of it.
* `LastAttempt` — how the result of a step follows from its last attempt.
* `exists_forall_moment_eq` — the moments of a run end in what `Definition.run` gives.
-/

set_option autoImplicit false

namespace ProcessTest

variable {σ : Type} {p : Plan σ}

/-- Any moment. -/
def Anywhere (_ : Moment σ) : Prop := True

/-- While a step is carried out, the bindings and the results are those before it. -/
def Unchanged (g : Progress σ) (m : Moment σ) : Prop :=
  m.context = g.context ∧ m.steps = g.steps

/-! ## Setup and cleanup -/

theorem leads_setup (index : Nat) (rest : List Action) (scope : Bindings) (g : Progress σ) :
    let run := p.runner.runSetup index rest scope g.world
    Leads p Anywhere ⟨g, .setup index rest scope⟩
      (Progress.endSetup p run.scope
        { g with world := run.world, setup := g.setup ++ run.results }) := by
  induction rest generalizing index scope g with
  | nil =>
    refine Leads.head trivial ?_
    simp only [Runner.runSetup, List.append_nil]
    exact Leads.refl _
  | cons a rest ih =>
    refine Leads.head trivial ?_
    simp only [Moment.next, Progress.nextSetup, Runner.runSetup]
    split
    · simp only [List.append_nil]
      exact Leads.refl _
    · rcases p.runner.actUnbounded index a scope g.world with ⟨result, scope', s'⟩
      simp only
      split
      · have h := ih (index + 1) scope' { g with world := s', setup := g.setup ++ [result] }
        simpa only [List.append_assoc, List.singleton_append] using h
      · exact Leads.refl _

theorem leads_cleanup (index : Nat) (rest : List Action) (scope : Bindings) (g : Progress σ) :
    let run := p.runner.runCleanup index rest scope g.world
    Leads p Anywhere ⟨g, .cleanup index rest scope⟩
      ⟨{ g with
          world := run.world
          context := (g.context.absorb run.scope).1
          cleanup := g.cleanup ++ run.results }, .ended⟩ := by
  induction rest generalizing index scope g with
  | nil =>
    refine Leads.head trivial ?_
    simp only [Runner.runCleanup, List.append_nil]
    exact Leads.refl _
  | cons a rest ih =>
    refine Leads.head trivial ?_
    simp only [Moment.next, Progress.nextCleanup, Runner.runCleanup]
    rcases p.runner.actUnbounded index a scope g.world with ⟨result, scope', s'⟩
    have h := ih (index + 1) scope' { g with world := s', cleanup := g.cleanup ++ [result] }
    simpa only [List.append_assoc, List.singleton_append] using h

theorem leads_checks (index : Nat) (rest : List Assertion) (g : Progress σ) :
    Leads p Anywhere ⟨g, .check index rest⟩
      (Progress.afterChecks p
        { g with world := (p.runner.checkAll g.context index rest g.world).world }) := by
  induction rest generalizing index g with
  | nil => exact Leads.head trivial (Leads.refl _)
  | cons a rest ih =>
    refine Leads.head trivial ?_
    have h := ih (index + 1) { g with world := (p.runner.checkOne g.context a.check g.world).2 }
    simp only [Moment.next, Progress.nextCheck, Runner.checkAll]
    rcases hc : p.runner.checkOne g.context a.check g.world with ⟨_ | cause, s'⟩
    · simpa only [hc] using h
    · simpa only [hc] using h

/-! ## Attempts -/

/-- How an attempt ends whose actions have ended. -/
def Runner.close (r : Runner σ) (step : Step) (budget : Nat) (results : List ActionResult)
    (ending : Ending) (scope : Bindings) : Attempt :=
  match ending with
  | .late => .failed results (.timedOut budget)
  | .failed action => .failed results (.action action)
  | .finished => r.conclude step results scope

theorem leads_act (t : Trial) (budget deadline index : Nat) (rest : List Action)
    (done : List ActionResult) (scope : Bindings) (g : Progress σ) :
    let run := p.runner.actAll deadline index rest scope g.world
    Leads p (Unchanged g) ⟨g, .act t budget deadline index rest done scope⟩
      (Progress.endAttempt p t
        (p.runner.close t.step budget (done ++ run.results) run.ending run.scope)
        { g with world := run.world }) := by
  induction rest generalizing index done scope g with
  | nil =>
    refine Leads.head ⟨rfl, rfl⟩ ?_
    change Leads p (Unchanged g) _
      (Progress.endAttempt p t (p.runner.conclude t.step (done ++ []) scope) g)
    rw [List.append_nil]
    exact Leads.refl _
  | cons a rest ih =>
    refine Leads.head ⟨rfl, rfl⟩ ?_
    rw [Runner.actAll_cons]
    change Leads p (Unchanged g) (g.nextAct p t budget deadline index (a :: rest) done scope) _
    unfold Progress.nextAct
    simp only
    rcases p.runner.act (some deadline) index a scope g.world with ⟨_ | ⟨result, scope'⟩, s'⟩
    · simp only [List.append_nil]
      exact Leads.refl _
    · simp only
      cases result.failed? with
      | some failed => exact Leads.refl _
      | none =>
        have h := ih (index + 1) (done ++ [result]) scope' { g with world := s' }
        simp only [List.append_assoc, List.singleton_append] at h
        exact h

theorem leads_attempt (t : Trial) (g : Progress σ) :
    let run := p.runner.attempt t.step g.context g.world
    Leads p (Unchanged g) ⟨g, .attempt t⟩
      (Progress.endAttempt p t run.1 { g with world := run.2 }) := by
  refine Leads.head ⟨rfl, rfl⟩ ?_
  simp only [Moment.next, Progress.nextAttempt, Runner.attempt]
  cases p.runner.unmet t.step.preconditions g.context with
  | some condition => exact Leads.refl _
  | none =>
    simp only
    cases p.runner.budget t.step g.world with
    | none => exact Leads.refl _
    | some budget => exact leads_act t budget _ 0 t.step.actions [] g.context g

/-- What a step comes to follows from its last attempt. -/
inductive LastAttempt (b : Bindings) (result : StepResult) (after : Bindings) : Attempt → Prop where
  | passed (scope : Bindings) (success : result.error = none) (taken : after = (b.absorb scope).1) :
      LastAttempt b result after (.passed result.actions scope)
  | failed (cause : StepError) (failure : result.error = some cause) (kept : after = b) :
      LastAttempt b result after (.failed result.actions cause)

namespace LastAttempt

variable {b after : Bindings} {result : StepResult} {attempt : Attempt}

theorem of_success (h : LastAttempt b result after attempt) (hs : result.success = true) :
    ∃ scope, attempt = .passed result.actions scope ∧ after = (b.absorb scope).1 := by
  cases h with
  | passed scope _ htaken => exact ⟨scope, rfl, htaken⟩
  | failed cause hfailure _ => simp [StepResult.success, hfailure] at hs

theorem of_failure (h : LastAttempt b result after attempt) (hs : result.success = false) :
    after = b := by
  cases h with
  | passed scope hsuccess _ => simp [StepResult.success, hsuccess] at hs
  | failed _ _ hkept => exact hkept

theorem of_error {cause : StepError} (h : LastAttempt b result after attempt)
    (herror : result.error = some cause) : attempt = .failed result.actions cause := by
  cases h with
  | passed scope hsuccess _ => rw [hsuccess] at herror; cases herror
  | failed _ hfailure _ => rw [hfailure] at herror; cases herror; rfl

end LastAttempt

/-- **The attempts at a step**: the run comes to the last of them, and from there to the end of
the step. -/
theorem leads_attempts (t : Trial) (g : Progress σ) :
    let run := p.runner.attempts t.step g.context t.start t.more t.number g.world
    ∃ s more, let last := p.runner.attempt t.step g.context s
      Leads p (Unchanged g) ⟨g, .attempt t⟩
        ⟨{ g with world := s }, .attempt { t with number := run.result.attempts, more }⟩ ∧
      Leads p (Unchanged g)
        ⟨{ g with world := s }, .attempt { t with number := run.result.attempts, more }⟩
        (Progress.endStep p t.rest run.result run.bindings { g with world := run.world }) ∧
      last.2 = run.world ∧ LastAttempt g.context run.result run.bindings last.1 := by
  obtain ⟨step, rest, number, more, start⟩ := t
  induction more generalizing number g with
  | zero =>
    have h := leads_attempt (p := p) ⟨step, rest, number, 0, start⟩ g
    unfold Runner.attempts
    refine ⟨g.world, 0, ?_⟩
    rcases ha : p.runner.attempt step g.context g.world with ⟨actions | ⟨actions, cause⟩, s'⟩
    · rw [ha] at h
      exact ⟨Leads.refl _, h, rfl, .passed _ rfl rfl⟩
    · rw [ha] at h
      exact ⟨Leads.refl _, h, rfl, .failed _ rfl rfl⟩
  | succ more ih =>
    have h := leads_attempt (p := p) ⟨step, rest, number, more + 1, start⟩ g
    unfold Runner.attempts
    rcases ha : p.runner.attempt step g.context g.world with ⟨actions | ⟨actions, cause⟩, s'⟩
    · rw [ha] at h
      refine ⟨g.world, more + 1, ?_⟩
      rw [ha]
      exact ⟨Leads.refl _, h, rfl, .passed _ rfl rfl⟩
    · rw [ha] at h
      simp only [Progress.endAttempt] at h
      simp only
      by_cases hc : cause.retryable = true
      · rw [if_pos hc] at h ⊢
        obtain ⟨s, more', hfirst, hlast, hs, hresult⟩ := ih { g with world := s' } (number + 1)
        exact ⟨s, more', h.trans hfirst, hlast, hs, hresult⟩
      · rw [if_neg hc] at h ⊢
        refine ⟨g.world, more + 1, ?_⟩
        rw [ha]
        exact ⟨Leads.refl _, h, rfl, .failed _ rfl rfl⟩

/-! ## Steps -/

/-- The first attempt at a step begins. -/
def Plan.trial (p : Plan σ) (step : Step) (rest : List Step) (s : σ) : Trial :=
  ⟨step, rest, 1, min step.retry Step.maxRetry, p.runner.backend.now s⟩

theorem leads_step (step : Step) (rest : List Step) (g : Progress σ) :
    let run := p.runner.runStep step g.context g.world
    Leads p (Unchanged g) ⟨g, .steps (step :: rest)⟩
      (Progress.endStep p rest run.result run.bindings { g with world := run.world }) := by
  obtain ⟨s, more, hfirst, hlast, -⟩ := leads_attempts (p := p) (p.trial step rest g.world) g
  exact Leads.head ⟨rfl, rfl⟩ (hfirst.trans hlast)

theorem leads_steps (rest : List Step) (g : Progress σ) (hg : g.halted = false) :
    let run := p.runner.runSteps p.proceed rest g.context g.world
    Leads p Anywhere ⟨g, .steps rest⟩
      (Progress.afterSteps p
        { g with
          context := run.bindings
          world := run.world
          halted := run.halted
          steps := g.steps ++ run.results }) := by
  induction rest generalizing g with
  | nil =>
    refine Leads.head trivial ?_
    simp only [Runner.runSteps, List.append_nil, ← hg]
    exact Leads.refl _
  | cons step rest ih =>
    have h := (leads_step (p := p) step rest g).mono (Q := Anywhere) fun _ _ => trivial
    refine h.trans ?_
    simp only [Progress.endStep, Runner.runSteps]
    generalize p.runner.runStep step g.context g.world = run
    split
    · have h := ih { g with
        context := run.bindings, world := run.world, steps := g.steps ++ [run.result] } hg
      simp only [List.append_assoc, List.singleton_append] at h
      exact h
    · exact Leads.refl _

/-! ## The whole run -/

theorem leads_afterChecks (g : Progress σ) :
    let cleanup := if !g.halted || p.definition.policy.alwaysCleanup
      then p.runner.runCleanup 0 p.definition.cleanup g.context g.world
      else ⟨[], [], g.context, g.world⟩
    Leads p Anywhere (g.afterChecks p)
      ⟨{ g with
          world := cleanup.world
          context := (g.context.absorb cleanup.scope).1
          cleanup := g.cleanup ++ cleanup.results }, .ended⟩ := by
  unfold Progress.afterChecks
  split
  · exact leads_cleanup 0 p.definition.cleanup g.context g
  · simp only [List.append_nil, Bindings.absorb_of_prefix (List.prefix_refl _)]
    exact Leads.refl _

theorem leads_afterSteps (g : Progress σ) :
    let checked : Runner.Checked σ := if p.runner.dryRun || g.halted then ⟨[], [], g.world⟩
      else p.runner.checkAll g.context 0 p.definition.assertions g.world
    Leads p Anywhere (g.afterSteps p) ({ g with world := checked.world }.afterChecks p) := by
  unfold Progress.afterSteps
  split
  · exact Leads.refl _
  · exact leads_checks 0 p.definition.assertions g

theorem leads_endSetup (scope : Bindings) (g : Progress σ) (hg : g.halted = false) :
    let context := (g.context.absorb scope).1
    let steps := if g.setup.all ActionResult.success
      then p.runner.runSteps p.proceed p.definition.steps context g.world
      else ⟨[], [], [], context, true, g.world⟩
    Leads p Anywhere (g.endSetup p scope)
      (Progress.afterSteps p
        { g with
          context := steps.bindings
          world := steps.world
          halted := steps.halted
          steps := g.steps ++ steps.results }) := by
  unfold Progress.endSetup
  simp only
  split
  · exact leads_steps p.definition.steps { g with context := (g.context.absorb scope).1 } hg
  · simp only [List.append_nil]
    exact Leads.refl _

namespace Definition

variable (backend : Backend σ) (options : RunOptions) (now : String) (d : Definition) (s : σ)

/-- The last moment of a run, as `Definition.run` has it. -/
def lastProgress (halted : Bool) : Progress σ :=
  let run := d.run backend options now s
  ⟨run.bindings, run.world, halted, run.report.setup, run.report.steps, run.report.cleanup⟩

/-- **The moments of a run come to what the run gives.** -/
theorem leads_run :
    ∃ halted, Leads (d.plan backend options s) Anywhere (d.firstMoment backend options now s)
      ⟨d.lastProgress backend options now s halted, .ended⟩ := by
  have hsetup := leads_setup (p := d.plan backend options s) 0 d.setup
    (Bindings.seeded d.setting now) (d.firstMoment backend options now s).toProgress
  have hsteps := hsetup.trans (leads_endSetup _ _ rfl)
  have hchecks := hsteps.trans (leads_afterSteps _)
  exact ⟨_, hchecks.trans (leads_afterChecks _)⟩

/-- What is over stays over. -/
theorem moment_eq_of_ended {k n : Nat} (hk : (d.moment backend options now s k).task = .ended)
    (hn : k ≤ n) : d.moment backend options now s n = d.moment backend options now s k := by
  induction hn with
  | refl => rfl
  | step _ ih => rw [moment_succ, ih, Moment.next_of_ended hk]

/-- From some moment on, a run is over and has come to what `Definition.run` gives. -/
theorem exists_forall_moment_eq :
    ∃ halted n, ∀ k, n ≤ k → d.moment backend options now s k =
      ⟨d.lastProgress backend options now s halted, .ended⟩ := by
  obtain ⟨halted, n, hn, -⟩ := leads_run backend options now d s
  refine ⟨halted, n, ?_⟩
  intro k hk
  have hmoment : d.moment backend options now s n = _ := hn
  rw [moment_eq_of_ended backend options now d s (by rw [hmoment]) hk, hmoment]

end Definition

end ProcessTest
