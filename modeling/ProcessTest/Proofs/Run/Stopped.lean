import ProcessTest.Proofs.Run.Trace
import ProcessTest.Simulation

/-!
# Setups that do not complete

A setup ends early for one of two reasons, and both are errors of the setup: one of its actions
fails, or the ceiling of the run has passed.  Only the first one keeps the run from its steps,
since what follows the setup, and what its event says, is read off the results of its actions.

* `Task.inSetup`, `Task.inBody` — where a run is.
* `past_next`, `guarded_next` — what one moment leaves as it is, and when the steps are entered.
* `StopsAtSetup` — the run has no steps and no assertions, and says that its setup has failed.
* `stopsAtSetup_iff` — when it does.
-/

set_option autoImplicit false

namespace ProcessTest

variable {σ : Type}

/-! ## Where a run is -/

/-- The setup is carried out. -/
def Task.inSetup : Task → Bool
  | .setup .. => true
  | _ => false

/-- Steps are carried out, or assertions evaluated. -/
def Task.inBody : Task → Bool
  | .steps _ | .attempt _ | .act .. | .check .. => true
  | _ => false

/-- The event tells of an attempt at a step or of an assertion. -/
def Occurrence.ofBody : Occurrence → Bool
  | .stepStarted .. | .stepPassed .. | .stepFailed .. | .assertionFailed .. => true
  | _ => false

/-- A moment after the setup, with the results that the setup had. -/
structure Moment.Past (g : Progress σ) (m : Moment σ) : Prop where
  setup : m.setup = g.setup
  task : m.task.inSetup = false

/-- Steps and assertions follow only a setup without failures. -/
def Moment.Guarded (m : Moment σ) : Prop :=
  m.task.inBody = true → m.setup.all ActionResult.success = true

namespace Progress

open Moment (Past Guarded)

variable (p : Plan σ) (g : Progress σ)

/-! ## After the setup -/

theorem past_afterChecks : Past g (g.afterChecks p) := by
  unfold afterChecks
  split
  · exact ⟨rfl, rfl⟩
  · exact ⟨rfl, rfl⟩

theorem past_afterSteps : Past g (g.afterSteps p) := by
  unfold afterSteps
  split
  · exact past_afterChecks p g
  · exact ⟨rfl, rfl⟩

theorem past_endStep (rest : List Step) (result : StepResult) (context : Bindings) :
    Past g (g.endStep p rest result context) := by
  unfold endStep
  simp only
  split
  · exact ⟨rfl, rfl⟩
  · obtain ⟨hsetup, htask⟩ := past_afterSteps p
      { g with context, steps := g.steps ++ [result], halted := true }
    exact ⟨hsetup, htask⟩

theorem past_endAttempt (t : Trial) (attempt : Attempt) : Past g (g.endAttempt p t attempt) := by
  unfold endAttempt
  cases attempt with
  | passed actions scope => exact past_endStep ..
  | failed actions cause =>
    simp only
    split
    · exact past_endStep ..
    · split
      · exact ⟨rfl, rfl⟩
      · exact past_endStep ..

theorem past_nextAttempt (t : Trial) : Past g (g.nextAttempt p t) := by
  unfold nextAttempt
  split
  · exact past_endAttempt ..
  · split
    · exact past_endAttempt ..
    · exact ⟨rfl, rfl⟩

theorem past_nextAct (t : Trial) (budget deadline index : Nat) (rest : List Action)
    (done : List ActionResult) (scope : Bindings) :
    Past g (g.nextAct p t budget deadline index rest done scope) := by
  unfold nextAct
  split
  · exact past_endAttempt ..
  · split
    · rename_i s _
      obtain ⟨hsetup, htask⟩ := past_endAttempt p { g with world := s } t
        (.failed done (.timedOut budget))
      exact ⟨hsetup, htask⟩
    · split
      · rename_i result _ s _ _ failed _
        obtain ⟨hsetup, htask⟩ := past_endAttempt p { g with world := s } t
          (.failed (done ++ [result]) (.action failed))
        exact ⟨hsetup, htask⟩
      · exact ⟨rfl, rfl⟩

theorem past_nextCheck (index : Nat) (rest : List Assertion) :
    Past g (g.nextCheck p index rest) := by
  unfold nextCheck
  split
  · exact past_afterChecks p g
  · exact ⟨rfl, rfl⟩

theorem past_nextCleanup (index : Nat) (rest : List Action) (scope : Bindings) :
    Past g (g.nextCleanup p index rest scope) := by
  unfold nextCleanup
  split
  · exact ⟨rfl, rfl⟩
  · exact ⟨rfl, rfl⟩

/-! ## Into the steps -/

theorem inBody_afterChecks : (g.afterChecks p).task.inBody = false := by
  unfold afterChecks
  split
  · rfl
  · rfl

/-- After a halt there are neither steps nor assertions. -/
theorem inBody_halt : (g.halt p).task.inBody = false := by
  unfold halt afterSteps
  rw [if_pos (Bool.or_true _)]
  exact inBody_afterChecks ..

/-- The steps are entered only after a setup without failures. -/
theorem guarded_endSetup (scope : Bindings) : Guarded (g.endSetup p scope) := by
  unfold endSetup
  simp only
  split
  · rename_i hall
    exact fun _ => hall
  · intro hbody
    rw [inBody_halt] at hbody
    cases hbody

theorem guarded_nextSetup (index : Nat) (rest : List Action) (scope : Bindings) :
    Guarded (g.nextSetup p index rest scope) := by
  unfold nextSetup
  split
  · exact guarded_endSetup p _ _
  · split
    · exact guarded_endSetup p _ _
    · simp only
      split
      · intro hbody
        cases hbody
      · exact guarded_endSetup p _ _

theorem inBody_nextCleanup (index : Nat) (rest : List Action) (scope : Bindings) :
    (g.nextCleanup p index rest scope).task.inBody = false := by
  unfold nextCleanup
  split
  · rfl
  · rfl

end Progress

/-! ## From moment to moment -/

/-- **A setup that is over stays over**, and its results stay as they are. -/
theorem past_next (p : Plan σ) {m : Moment σ} (h : m.task.inSetup = false) :
    (m.next p).Past m.toProgress := by
  unfold Moment.next
  split
  · rename_i htask
    rw [htask] at h
    cases h
  · exact Progress.past_afterSteps ..
  · exact ⟨rfl, rfl⟩
  · exact Progress.past_nextAttempt ..
  · exact Progress.past_nextAct ..
  · exact Progress.past_nextCheck ..
  · exact Progress.past_nextCleanup ..
  · exact ⟨rfl, h⟩

/-- **Steps and assertions follow only a setup without failures**, from one moment to the next. -/
theorem guarded_next (p : Plan σ) {m : Moment σ} (h : m.Guarded) : (m.next p).Guarded := by
  by_cases hbody : m.task.inBody = true
  · -- Steps and assertions lead to more of them after the same setup.
    have hsetup : m.task.inSetup = false := by
      cases htask : m.task with
      | setup index rest scope =>
        rw [htask] at hbody
        cases hbody
      | _ => rfl
    intro _
    rw [(past_next p hsetup).setup]
    exact h hbody
  · unfold Moment.next
    split
    · exact Progress.guarded_nextSetup p _ _ _ _
    · rename_i htask
      exact absurd (by rw [htask]; rfl) hbody
    · rename_i htask
      exact absurd (by rw [htask]; rfl) hbody
    · rename_i htask
      exact absurd (by rw [htask]; rfl) hbody
    · rename_i htask
      exact absurd (by rw [htask]; rfl) hbody
    · rename_i htask
      exact absurd (by rw [htask]; rfl) hbody
    · intro hnext
      rw [Progress.inBody_nextCleanup] at hnext
      cases hnext
    · exact h

namespace Definition

variable (backend : Backend σ) (options : RunOptions) (now : String) (d : Definition) (s : σ)

theorem guarded_moment (k : Nat) : (d.moment backend options now s k).Guarded := by
  induction k with
  | zero =>
    intro hbody
    cases hbody
  | succ k ih =>
    rw [moment_succ]
    exact guarded_next _ ih

/-- Once the setup is over, its results are those of the run. -/
theorem setup_moment {k : Nat} (h : (d.moment backend options now s k).task.inSetup = false) :
    (d.moment backend options now s k).setup = (d.run backend options now s).report.setup := by
  obtain ⟨halted, n, hlast⟩ := d.exists_forall_moment_eq backend options now s
  have hlater : ∀ i, (d.moment backend options now s (k + i)).Past
      (d.moment backend options now s k).toProgress := by
    intro i
    induction i with
    | zero => exact ⟨rfl, h⟩
    | succ i ih =>
      obtain ⟨hsetup, htask⟩ := past_next (d.plan backend options s) ih.task
      rw [← Nat.add_assoc, moment_succ]
      exact ⟨hsetup.trans ih.setup, htask⟩
  have hend := (hlater n).setup
  rw [hlast (k + n) (Nat.le_add_left n k)] at hend
  exact hend.symm

/-! ## Errors of the setup -/

/-- An error of the setup is a failure of one of its actions, or the ceiling. -/
theorem exists_setup_error_iff :
    (∃ error ∈ (d.run backend options now s).report.errors, error.source = "setup") ↔
      (∃ result ∈ (d.run backend options now s).report.setup, result.success = false) ∨
        d.setupStopped (d.run backend options now s).report = true := by
  have hsources : (∃ error ∈ (d.run backend options now s).report.errors,
      error.source = "setup") ↔
        "setup" ∈ (d.run backend options now s).report.errors.map RunError.source :=
    List.mem_map.symm
  rw [hsources, sources_run]
  simp only [List.mem_append]
  constructor
  · rintro ((((h | h) | h) | h) | h)
    · obtain ⟨result, hresult, -⟩ := List.mem_map.1 h
      obtain ⟨hmem, hfailed⟩ := List.mem_filter.1 hresult
      exact .inl ⟨result, hmem, by simpa using hfailed⟩
    · split at h
      · rename_i hstopped
        exact .inr hstopped
      · cases h
    · obtain ⟨result, -, h⟩ := List.mem_map.1 h
      change "step:" ++ result.id = "setup" at h
      simpa using congrArg (fun source : String => source.toList.take 2) h
    · obtain ⟨index, -, h⟩ := List.mem_map.1 h
      change "assertion[" ++ toString index ++ "]" = "setup" at h
      simpa using congrArg (fun source : String => source.toList.take 2) h
    · obtain ⟨result, -, h⟩ := List.mem_map.1 h
      exact absurd h (by decide)
  · rintro (⟨result, hresult, hfailed⟩ | hstopped)
    · refine .inl (.inl (.inl (.inl (List.mem_map.2 ⟨result, ?_, rfl⟩))))
      exact List.mem_filter.2 ⟨hresult, by simp [hfailed]⟩
    · refine .inl (.inl (.inl (.inr ?_)))
      rw [if_pos hstopped]
      exact List.mem_singleton.2 rfl

/-! ## Runs that stop at the setup -/

/-- The run has no steps and no assertions, and says that its setup has failed. -/
structure StopsAtSetup : Prop where
  steps : (d.run backend options now s).report.steps = []
  /-- At no moment is a step attempted or an assertion evaluated. -/
  idle : ∀ k, (d.moment backend options now s k).task.inBody = false
  silent : ∀ event ∈ (d.run backend options now s).events, event.ofBody = false
  phase : .phaseCompleted "setup" (d.run backend options now s).report.setup.length false ∈
    (d.run backend options now s).events

/-- The event of a setup that has been carried out. -/
theorem mem_events_of_setup (h : d.setup ≠ []) :
    .phaseCompleted "setup" (d.run backend options now s).report.setup.length
        ((d.run backend options now s).report.setup.all ActionResult.success) ∈
      (d.run backend options now s).events := by
  rw [events_run, phaseEvents_eq, phaseTrace, if_neg h]
  simp only [List.mem_append]
  exact .inl (.inl (.inl (.inl (.inr (List.mem_singleton.2 rfl)))))

/-- After a failure of the setup no event tells of steps or assertions. -/
theorem silent_of_failure
    (h : (d.setupRun backend options now s).results.all ActionResult.success = false) :
    ∀ event ∈ (d.run backend options now s).events, event.ofBody = false := by
  have hsteps : (d.stepsRun backend options now s).events = [] := by
    unfold stepsRun
    simp [h]
  have hchecked : (d.checked backend options now s).events = [] := by
    unfold checked
    simp [(d.stepsRun_of_failure backend options now s h).2.2]
  have hphase : ∀ phase actions results, ∀ event ∈ Runner.phaseEvents phase actions results,
      event.ofBody = false := by
    intro phase actions results event hevent
    unfold Runner.phaseEvents at hevent
    split at hevent
    · cases hevent
    · cases List.mem_singleton.1 hevent
      rfl
  intro event hevent
  rw [events_run, hsteps, hchecked] at hevent
  simp only [List.append_nil, List.mem_append, List.mem_singleton] at hevent
  rcases hevent with ((rfl | hevent) | hevent) | rfl
  · rfl
  · exact hphase _ _ _ _ hevent
  · split at hevent
    · exact hphase _ _ _ _ hevent
    · cases hevent
  · rfl

/-- A failure of the setup stops the run. -/
theorem stopsAtSetup_of_failure {result : ActionResult}
    (hmem : result ∈ (d.run backend options now s).report.setup)
    (hfailed : result.success = false) : d.StopsAtSetup backend options now s := by
  have hall : (d.run backend options now s).report.setup.all ActionResult.success = false := by
    rw [List.all_eq_false]
    exact ⟨result, hmem, by simp [hfailed]⟩
  have hactions : d.setup ≠ [] := by
    intro hnil
    have hsetup := (d.accounts_run backend options now s).setup
    rw [hnil, List.take_nil] at hsetup
    rw [hsetup] at hmem
    cases hmem
  refine ⟨(d.stepsRun_of_failure backend options now s hall).1, fun k => ?_,
    d.silent_of_failure backend options now s hall, ?_⟩
  · by_contra hbody
    rw [Bool.not_eq_false] at hbody
    have hsetup : (d.moment backend options now s k).task.inSetup = false := by
      cases htask : (d.moment backend options now s k).task with
      | setup index rest scope =>
        rw [htask] at hbody
        cases hbody
      | _ => rfl
    have hsuccess := d.guarded_moment backend options now s k hbody
    rw [d.setup_moment backend options now s hsetup, hall] at hsuccess
    cases hsuccess
  · have hphase := d.mem_events_of_setup backend options now s hactions
    rw [hall] at hphase
    exact hphase

/-- After a setup without failures, be it complete or not, the steps are entered. -/
theorem exists_moment_of_success
    (h : (d.run backend options now s).report.setup.all ActionResult.success = true) :
    ∃ k, (d.moment backend options now s k).task = .steps d.steps := by
  obtain ⟨k, hk, -⟩ := leads_setup (p := d.plan backend options s) 0 d.setup
    (Bindings.seeded d.setting now) (d.firstMoment backend options now s).toProgress
  refine ⟨k, ?_⟩
  have hmoment : d.moment backend options now s k = _ := hk
  rw [hmoment, Progress.endSetup]
  exact congrArg Moment.task (if_pos h)

/-- **A setup that does not complete stops the run exactly if one of its actions has failed.**  Its
errors are those failures and the ceiling; a setup that the ceiling has stopped is reported as a
success, and the run goes on to its steps. -/
theorem stopsAtSetup_iff :
    ((∃ error ∈ (d.run backend options now s).report.errors, error.source = "setup") ↔
      (∃ result ∈ (d.run backend options now s).report.setup, result.success = false) ∨
        d.setupStopped (d.run backend options now s).report = true) ∧
    (d.StopsAtSetup backend options now s ↔
      ∃ result ∈ (d.run backend options now s).report.setup, result.success = false) ∧
    (d.setupStopped (d.run backend options now s).report = true →
      (options.runner backend s).expired (d.setupRun backend options now s).world = true ∧
        (∃ k, (d.moment backend options now s k).task = .steps d.steps) ∧
        .phaseCompleted "setup" (d.run backend options now s).report.setup.length true ∈
          (d.run backend options now s).events) := by
  refine ⟨d.exists_setup_error_iff backend options now s, ⟨fun h => ?_, ?_⟩, fun h => ?_⟩
  · by_contra hnone
    have hall : (d.run backend options now s).report.setup.all ActionResult.success = true := by
      rw [List.all_eq_true]
      intro result hmem
      by_contra hfailed
      exact hnone ⟨result, hmem, by simpa using hfailed⟩
    obtain ⟨k, hk⟩ := d.exists_moment_of_success backend options now s hall
    have hidle := h.idle k
    rw [hk] at hidle
    cases hidle
  · rintro ⟨result, hmem, hfailed⟩
    exact d.stopsAtSetup_of_failure backend options now s hmem hfailed
  · have hexpired := d.expired_of_setupStopped backend options now s h
    unfold setupStopped at h
    rw [Bool.and_eq_true, decide_eq_true_eq] at h
    obtain ⟨hall, hlength⟩ := h
    have hactions : d.setup ≠ [] := by
      intro hnil
      rw [hnil] at hlength
      cases hlength
    have hphase := d.mem_events_of_setup backend options now s hactions
    rw [hall] at hphase
    exact ⟨hexpired, d.exists_moment_of_success backend options now s hall, hphase⟩

/-- A sale after a short wait; the till must be open for it. -/
def hurriedSale : Definition where
  version := "1.0"
  id := "hurried-sale"
  title := "A sale in a hurry"
  industry := "salon"
  description := none
  setting := ⟨none, "salon", "USD", "en-US", none, none⟩
  personas := [("clerk", ⟨"clerk", []⟩)]
  setup := [⟨.wait 5, none, some "pause", none⟩]
  steps := [⟨"sell", "", "clerk", [⟨.wait 1, none, none, none⟩], [], [], 10, 0⟩]
  cleanup := []
  assertions := [⟨none, .variable "sell.waited_ms" none⟩]
  metadata := .default
  policy := .default

/-- Without any time the setup is stopped before its wait, and the run goes on all the same: its
step is attempted, its assertion is evaluated. -/
theorem not_stopsAtSetup_hurriedSale :
    let run := hurriedSale.run Simulation.backend ⟨false, true, some 0⟩ "2026-01-31T09:00:00Z"
      (.ofLatency 3)
    (∃ error ∈ run.report.errors, error.source = "setup") ∧
      run.report.steps.map StepResult.id = ["sell"] ∧
      run.report.errors.map RunError.source = ["setup", "step:sell", "assertion[0]"] ∧
      .phaseCompleted "setup" 0 true ∈ run.events ∧
      ¬ hurriedSale.StopsAtSetup Simulation.backend ⟨false, true, some 0⟩ "2026-01-31T09:00:00Z"
        (.ofLatency 3) := by
  intro run
  have hsteps : run.report.steps.map StepResult.id = ["sell"] := by decide +kernel
  have hsources : run.report.errors.map RunError.source =
      ["setup", "step:sell", "assertion[0]"] := by decide +kernel
  have hphase : .phaseCompleted "setup" 0 true ∈ run.events := by decide +kernel
  refine ⟨?_, hsteps, hsources, hphase, fun h => ?_⟩
  · have hmem : "setup" ∈ run.report.errors.map RunError.source := by
      rw [hsources]
      exact List.mem_cons_self
    exact List.mem_map.1 hmem
  · rw [show run.report.steps = [] from h.steps] at hsteps
    cases hsteps

end Definition

end ProcessTest
