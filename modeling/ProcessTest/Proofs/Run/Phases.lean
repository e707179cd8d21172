import ProcessTest.Proofs.Run.Agreement
import ProcessTest.Proofs.Run.Outputs

/-!
# What each phase records

The loops of a run stop early, pass over failures or carry everything out.  In each case their
results are those of a prefix of what they were given, and their errors are those of their results.

* `EndsInFailure` — results of which the last is the first failure.
* `Runner.inTurn` — actions carried out one after the other, whatever they come to.
* `setupEnds_runSetup`, `results_runCleanup`, `errors_runCleanup` — setup and cleanup.
* `stepsEnd_runSteps` — steps; `errors_checkAll` — assertions.
-/

set_option autoImplicit false

namespace ProcessTest

variable {σ : Type}

/-- The last result is a failure, and all earlier ones are successes. -/
def EndsInFailure {α : Type} (success : α → Bool) (results : List α) : Prop :=
  ∃ earlier last, results = earlier ++ [last] ∧ success last = false ∧
    ∀ result ∈ earlier, success result = true

namespace EndsInFailure

variable {α : Type} {success : α → Bool} {result : α} {results : List α}

theorem singleton (h : success result = false) : EndsInFailure success [result] :=
  ⟨[], result, rfl, h, fun _ hr => absurd hr List.not_mem_nil⟩

theorem cons (h : success result = true) (hr : EndsInFailure success results) :
    EndsInFailure success (result :: results) := by
  obtain ⟨earlier, last, rfl, hlast, hearlier⟩ := hr
  refine ⟨result :: earlier, last, rfl, hlast, ?_⟩
  intro other hother
  rcases List.mem_cons.1 hother with rfl | hother
  · exact h
  · exact hearlier other hother

theorem exists_failure (h : EndsInFailure success results) :
    ∃ result ∈ results, success result = false := by
  obtain ⟨earlier, last, rfl, hlast, -⟩ := h
  exact ⟨last, List.mem_append_right _ (List.mem_singleton.2 rfl), hlast⟩

end EndsInFailure

namespace Runner

/-! ## Setup and cleanup -/

/-- The results of actions carried out one after the other, from the given index on, each in the
scope and the world that the one before leaves behind. -/
def inTurn (r : Runner σ) : Nat → List Action → Bindings → σ → List ActionResult
  | _, [], _, _ => []
  | index, a :: rest, scope, s =>
    let (result, scope, s) := r.actUnbounded index a scope s
    result :: r.inTurn (index + 1) rest scope s

theorem phaseErrors_of_success {phase : Phase} {result : ActionResult}
    (h : result.success = true) : phaseErrors phase result = [] := by
  unfold phaseErrors
  rw [failed?_eq_none_iff.2 h]
  rfl

/-- How a setup ends: with all its actions, at the ceiling of the run, or at a failure. -/
inductive SetupEnds (r : Runner σ) (actions : List Action) (run : PhaseRun σ) : Prop where
  | finished (all : ∀ result ∈ run.results, result.success = true)
      (length : run.results.length = actions.length) (errors : run.errors = [])
  | stopped (all : ∀ result ∈ run.results, result.success = true)
      (length : run.results.length < actions.length) (late : r.expired run.world = true)
      (errors : run.errors = [.ceilingInSetup])
  | failed (last : EndsInFailure ActionResult.success run.results)
      (length : run.results.length ≤ actions.length)
      (errors : run.errors = run.results.flatMap (phaseErrors .setup))

theorem results_runSetup (r : Runner σ) (index : Nat) (actions : List Action) (scope : Bindings)
    (s : σ) :
    (r.runSetup index actions scope s).results =
      r.inTurn index (actions.take (r.runSetup index actions scope s).results.length) scope s := by
  induction actions generalizing index scope s with
  | nil => rfl
  | cons a rest ih =>
    simp only [runSetup]
    split
    · rfl
    · rcases ha : r.actUnbounded index a scope s with ⟨result, scope', s'⟩
      simp only
      split
      · simp only [List.length_cons, List.take_succ_cons, inTurn, ha]
        rw [← ih (index + 1) scope' s']
      · simp only [List.length_cons, List.length_nil, Nat.zero_add, List.take_succ_cons,
          List.take_zero, inTurn, ha]

theorem setupEnds_runSetup (r : Runner σ) (index : Nat) (actions : List Action)
    (scope : Bindings) (s : σ) : SetupEnds r actions (r.runSetup index actions scope s) := by
  induction actions generalizing index scope s with
  | nil => exact .finished (fun _ h => absurd h List.not_mem_nil) rfl rfl
  | cons a rest ih =>
    simp only [runSetup]
    split
    · rename_i hexpired
      exact .stopped (fun _ h => absurd h List.not_mem_nil) (Nat.succ_pos _) hexpired rfl
    · rcases r.actUnbounded index a scope s with ⟨result, scope', s'⟩
      simp only
      split
      · rename_i hsuccess
        have hall : ∀ results : List ActionResult, (∀ x ∈ results, x.success = true) →
            ∀ x ∈ result :: results, x.success = true := by
          intro results h x hx
          rcases List.mem_cons.1 hx with rfl | hx
          · exact hsuccess
          · exact h x hx
        rcases ih (index + 1) scope' s' with ⟨h, hlength, herrors⟩ | ⟨h, hlength, hlate, herrors⟩ |
          ⟨hlast, hlength, herrors⟩
        · exact .finished (hall _ h) (by simp [hlength]) herrors
        · exact .stopped (hall _ h) (by simpa using hlength) hlate herrors
        · refine .failed (hlast.cons hsuccess) (by simpa using hlength) ?_
          rw [List.flatMap_cons, phaseErrors_of_success hsuccess]
          exact herrors
      · rename_i hfailure
        refine .failed (.singleton (by simpa using hfailure)) (by simp) ?_
        simp

theorem results_runCleanup (r : Runner σ) (index : Nat) (actions : List Action)
    (scope : Bindings) (s : σ) :
    (r.runCleanup index actions scope s).results = r.inTurn index actions scope s := by
  induction actions generalizing index scope s with
  | nil => rfl
  | cons a rest ih =>
    simp only [runCleanup, inTurn]
    rw [ih]

theorem errors_runCleanup (r : Runner σ) (index : Nat) (actions : List Action)
    (scope : Bindings) (s : σ) :
    (r.runCleanup index actions scope s).errors =
      (r.runCleanup index actions scope s).results.flatMap (phaseErrors .cleanup) := by
  induction actions generalizing index scope s with
  | nil => rfl
  | cons a rest ih =>
    simp only [runCleanup, List.flatMap_cons]
    rw [ih]

theorem length_inTurn (r : Runner σ) (index : Nat) (actions : List Action) (scope : Bindings)
    (s : σ) : (r.inTurn index actions scope s).length = actions.length := by
  induction actions generalizing index scope s with
  | nil => rfl
  | cons a rest ih =>
    simp only [inTurn, List.length_cons]
    rw [ih]

/-! ## Steps -/

end Runner

/-- The error of a step with the given result, if it failed. -/
def StepResult.runError? (result : StepResult) : Option RunError :=
  result.error.map (RunError.step result.id)

namespace Runner

theorem id_attempts (r : Runner σ) (step : Step) (b : Bindings) (start more number : Nat) (s : σ) :
    (r.attempts step b start more number s).result.id = step.id := by
  induction more generalizing number s with
  | zero =>
    unfold attempts
    split <;> rfl
  | succ more ih =>
    unfold attempts
    split
    · rfl
    · simp only
      split
      · exact ih (number + 1) _
      · rfl

theorem id_runStep (r : Runner σ) (step : Step) (b : Bindings) (s : σ) :
    (r.runStep step b s).result.id = step.id :=
  id_attempts r step b _ _ _ s

/-- What steps record: one result each, up to a failure that halts the run. -/
structure StepsEnd (proceed : Bool) (steps : List Step) (run : StepsRun σ) : Prop where
  ids : run.results.map StepResult.id = (steps.take run.results.length).map Step.id
  errors : run.errors = run.results.filterMap StepResult.runError?
  halted : run.halted = (!proceed && run.results.any fun result => !result.success)
  short : run.results.length < steps.length →
    proceed = false ∧ EndsInFailure StepResult.success run.results

theorem results_runSteps (r : Runner σ) (proceed : Bool) (steps : List Step) (b : Bindings)
    (s : σ) :
    (r.runSteps proceed steps b s).results =
      (r.runSteps true (steps.take (r.runSteps proceed steps b s).results.length) b s).results := by
  induction steps generalizing b s with
  | nil => rfl
  | cons step rest ih =>
    simp only [runSteps]
    split
    · simp only [List.length_cons, List.take_succ_cons, runSteps, Bool.or_true, if_true]
      rw [← ih]
    · simp only [List.length_cons, List.length_nil, Nat.zero_add, List.take_succ_cons,
        List.take_zero, runSteps, Bool.or_true, if_true]

theorem stepsEnd_runSteps (r : Runner σ) (proceed : Bool) (steps : List Step) (b : Bindings)
    (s : σ) : StepsEnd proceed steps (r.runSteps proceed steps b s) := by
  induction steps generalizing b s with
  | nil => exact ⟨rfl, rfl, by simp [runSteps], fun h => absurd h (Nat.lt_irrefl _)⟩
  | cons step rest ih =>
    have hid := r.id_runStep step b s
    simp only [runSteps]
    generalize r.runStep step b s = run at *
    have herror : ∀ results : List StepResult,
        (run.result.error.map (RunError.step step.id)).toList ++
            results.filterMap StepResult.runError? =
          (run.result :: results).filterMap StepResult.runError? := by
      intro results
      have herr : run.result.runError? = run.result.error.map (RunError.step step.id) := by
        unfold StepResult.runError?
        rw [hid]
      rw [List.filterMap_cons, herr]
      cases run.result.error.map (RunError.step step.id) with
      | none => rfl
      | some error => rfl
    obtain ⟨hids, herrors, hhalted, hshort⟩ := ih run.bindings run.world
    split
    · rename_i hon
      have hpassed : proceed = false → run.result.success = true := by
        rintro rfl
        simpa using hon
      refine ⟨?_, ?_, ?_, ?_⟩
      · simp only [List.map_cons, List.length_cons, List.take_succ_cons]
        rw [hid, hids]
      · rw [herrors]
        exact herror _
      · rw [hhalted]
        cases proceed with
        | true => rfl
        | false => simp [hpassed rfl]
      · intro hlength
        obtain ⟨hproceed, hlast⟩ := hshort (by simpa using hlength)
        exact ⟨hproceed, hlast.cons (hpassed hproceed)⟩
    · rename_i hoff
      obtain ⟨hfailed, hproceed⟩ : run.result.success = false ∧ proceed = false := by
        simpa using hoff
      refine ⟨?_, ?_, ?_, ?_⟩
      · simp [hid]
      · rw [← herror, List.filterMap_nil, List.append_nil]
      · simp [hproceed, hfailed]
      · intro _
        exact ⟨hproceed, .singleton hfailed⟩

/-! ## Assertions -/

/-- What the assertions come to one after the other: for each of them its failure, if it fails. -/
def verdicts (r : Runner σ) (b : Bindings) : List Assertion → σ → List (Option AssertionError)
  | [], _ => []
  | a :: rest, s =>
    let (verdict, s) := r.checkOne b a.check s
    verdict :: r.verdicts b rest s

/-- The errors of assertions with the given verdicts, numbered from the given index. -/
def verdictErrors (index : Nat) (assertions : List Assertion)
    (verdicts : List (Option AssertionError)) : List RunError :=
  ((assertions.zip verdicts).zipIdx index).filterMap fun ((a, verdict), i) =>
    verdict.map (RunError.assertion i a.label)

theorem errors_checkAll (r : Runner σ) (b : Bindings) (index : Nat) (assertions : List Assertion)
    (s : σ) :
    (r.checkAll b index assertions s).errors =
      verdictErrors index assertions (r.verdicts b assertions s) := by
  unfold verdictErrors
  induction assertions generalizing index s with
  | nil => rfl
  | cons a rest ih =>
    simp only [checkAll, verdicts]
    rcases r.checkOne b a.check s with ⟨_ | cause, s'⟩
    · simp only [ih (index + 1) s', List.zip_cons_cons, List.zipIdx_cons]
      rfl
    · simp only [ih (index + 1) s', List.zip_cons_cons, List.zipIdx_cons]
      rfl

end Runner

end ProcessTest
