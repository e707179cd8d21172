import ProcessTest.Proofs.Run.Agreement

/-!
# Where outputs come from

An action of a run passes only if its operation has passed its check and has come to its end in
time; its output is the record that the system answers with, and for a pause and for an interaction,
of which the system gives no record, a fixed one.  Nothing else in a report counts as a success.

* `Backend.Yields` — the output of an operation that succeeds.
* `perform_eq_ok_iff`, `perform_eq_none_iff` — when an operation succeeds, and when the deadline
  comes first.
* `exists_act_ok_iff` — when an action does.
* `answered_next`, `Definition.answered_run` — the results of a run, moment by moment.
-/

set_option autoImplicit false

namespace ProcessTest

variable {σ : Type}

/-- Whether the store answers to an operation. -/
def Operation.isStored : Operation → Bool
  | .entity _ | .transaction _ | .relationship _ | .field _ => true
  | .interaction _ | .request _ | .wait _ => false

theorem Operation.isStored_or (o : Operation) : o.isStored = true ∨
    (∃ p, o = .interaction p) ∨ (∃ p, o = .request p) ∨ ∃ ms, o = .wait ms := by
  cases o <;> simp [isStored]

/-- The output of an operation that comes to its end before a deadline, in a given state of the
system. -/
inductive Backend.Yields (backend : Backend σ) (deadline : Option Nat) (s : σ) :
    Operation → Value → Prop
  | paused {ms : Nat} (h : (backend.pause ms deadline s).1 = true) :
      Yields backend deadline s (.wait ms) (.map [("waited_ms", .ofNat ms)])
  | unseen (p : Interaction) : Yields backend deadline s (.interaction p)
      (.map [("interaction", .text p.gesture.name), ("executed", .bool false)])
  /-- The answer to a request has the status that is expected, if there is one. -/
  | answered {p : Request} {v : Value} (h : (backend.call (.request p) deadline s).1 = .record v)
      (hstatus : ∀ code ∈ p.expectStatus, (v.field? "status").bind Value.natural? = some code) :
      Yields backend deadline s (.request p) v
  | stored {o : Operation} {v : Value} (ho : o.isStored = true)
      (h : (backend.call o deadline s).1 = .record v) : Yields backend deadline s o v

/-- An operation that has not come to its end before a deadline. -/
inductive Backend.Overruns (backend : Backend σ) (deadline : Option Nat) (s : σ) :
    Operation → Prop
  | paused {ms : Nat} (h : (backend.pause ms deadline s).1 = false) :
      Overruns backend deadline s (.wait ms)
  | answered {p : Request} (h : (backend.call (.request p) deadline s).1 = .late) :
      Overruns backend deadline s (.request p)
  | stored {o : Operation} (ho : o.isStored = true) (h : (backend.call o deadline s).1 = .late) :
      Overruns backend deadline s o

/-! ## Replies -/

theorem Reply.outcome_eq_ok_iff {reply : Reply} {v : Value} :
    reply.outcome = some (.ok v) ↔ reply = .record v := by
  cases reply <;> simp [outcome]

theorem Reply.outcome_eq_none_iff {reply : Reply} : reply.outcome = none ↔ reply = .late := by
  cases reply <;> simp [outcome]

theorem checkStatus_eq_ok_iff {expected : Option Nat} {answer v : Value} :
    checkStatus expected answer = .ok v ↔ answer = v ∧
      ∀ code ∈ expected, (answer.field? "status").bind Value.natural? = some code := by
  unfold checkStatus
  cases expected with
  | none => simp
  | some code =>
    by_cases hcode : (answer.field? "status").bind Value.natural? = some code
    · simp [hcode]
    · simp [hcode]

namespace Runner

variable {r : Runner σ} {deadline : Option Nat} {s s' : σ} {o : Operation} {v : Value}

theorem perform_of_isStored (ho : o.isStored = true) :
    (r.perform deadline o s).1 = (r.backend.call o deadline s).1.outcome := by
  cases o with
  | entity p => rfl
  | transaction p => rfl
  | relationship p => rfl
  | field p => rfl
  | _ => cases ho

/-- **When an operation succeeds**, and with which output. -/
theorem perform_eq_ok_iff :
    (r.perform deadline o s).1 = some (.ok v) ↔ r.backend.Yields deadline s o v := by
  rcases o.isStored_or with ho | ⟨p, rfl⟩ | ⟨p, rfl⟩ | ⟨ms, rfl⟩
  · rw [perform_of_isStored ho, Reply.outcome_eq_ok_iff]
    refine ⟨.stored ho, fun h => ?_⟩
    cases h with
    | stored _ h => exact h
    | _ => cases ho
  · simp only [perform, Option.some.injEq, Except.ok.injEq]
    refine ⟨fun h => h ▸ .unseen p, fun h => ?_⟩
    cases h with
    | unseen => rfl
    | stored ho _ => cases ho
  · change (r.backend.call (.request p) deadline s).1.outcome.map
      (·.bind (checkStatus p.expectStatus)) = some (.ok v) ↔ _
    constructor
    · intro h
      obtain ⟨outcome, hreply, hok⟩ := Option.map_eq_some_iff.1 h
      cases outcome with
      | error cause => cases hok
      | ok answer =>
        obtain ⟨rfl, hstatus⟩ := checkStatus_eq_ok_iff.1 hok
        exact .answered (Reply.outcome_eq_ok_iff.1 hreply) hstatus
    · intro h
      cases h with
      | answered h hstatus =>
        rw [Reply.outcome_eq_ok_iff.2 h]
        exact congrArg some (checkStatus_eq_ok_iff.2 ⟨rfl, hstatus⟩)
      | stored ho _ => cases ho
  · cases hpause : (r.backend.pause ms deadline s).1 with
    | true =>
      simp only [perform, hpause, if_true, Option.some.injEq, Except.ok.injEq]
      refine ⟨fun h => h ▸ .paused hpause, fun h => ?_⟩
      cases h with
      | paused _ => rfl
      | stored ho _ => cases ho
    | false =>
      refine iff_of_false (by simp [perform, hpause]) fun h => ?_
      cases h with
      | paused h => exact Bool.false_ne_true (hpause.symm.trans h)
      | stored ho _ => cases ho

/-- **When the deadline comes before the end of an operation.** -/
theorem perform_eq_none_iff :
    (r.perform deadline o s).1 = none ↔ r.backend.Overruns deadline s o := by
  rcases o.isStored_or with ho | ⟨p, rfl⟩ | ⟨p, rfl⟩ | ⟨ms, rfl⟩
  · rw [perform_of_isStored ho, Reply.outcome_eq_none_iff]
    refine ⟨.stored ho, fun h => ?_⟩
    cases h with
    | stored _ h => exact h
    | _ => cases ho
  · refine iff_of_false nofun fun h => ?_
    cases h with
    | stored ho _ => cases ho
  · refine (Option.map_eq_none_iff.trans Reply.outcome_eq_none_iff).trans ⟨.answered, fun h => ?_⟩
    cases h with
    | answered h => exact h
    | stored ho _ => cases ho
  · have houtcome : (r.perform deadline (.wait ms) s).1 = none ↔
        (r.backend.pause ms deadline s).1 = false := by
      simp [perform]
    refine houtcome.trans ⟨.paused, fun h => ?_⟩
    cases h with
    | paused h => exact h
    | stored ho _ => cases ho

/-! ## Actions -/

theorem outcome_eq_ok_iff (hlive : r.dryRun = false) :
    (r.outcome deadline o s).1 = some (.ok v) ↔
      o.check = .ok () ∧ r.backend.Yields deadline s o v := by
  unfold outcome
  rw [if_neg (by simp [hlive]), ← perform_eq_ok_iff]
  cases o.check with
  | ok _ => simp
  | error cause => simp

variable {index : Nat} {a : Action} {scope scope' : Bindings} {result : ActionResult}

/-- **When an action succeeds**: it can be filled, its operation passes its check, and the system
gives an output in time. -/
theorem exists_act_ok_iff (hlive : r.dryRun = false) :
    (∃ result scope', (r.act deadline index a scope s).1 = some (result, scope') ∧
      result.outcome = .ok v) ↔
    ∃ filled, a.resolve scope = .ok filled ∧ filled.operation.check = .ok () ∧
      r.backend.Yields deadline s filled.operation v := by
  unfold act
  simp only [← outcome_eq_ok_iff hlive]
  cases a.resolve scope with
  | error cause => simp
  | ok filled =>
    rcases houtcome : r.outcome deadline filled.operation s with ⟨_ | cause | output, s'⟩
    all_goals simp [houtcome]

/-- A success is recorded with the operation that has passed its check, and with the output that
the system has given in the present state. -/
def Answered (r : Runner σ) (s : σ) (result : ActionResult) : Prop :=
  result.success = true → ∃ o deadline, result.resolved = some o ∧ o.check = .ok () ∧
    r.backend.Yields deadline s o result.output

theorem answered_act (hlive : r.dryRun = false)
    (h : r.act deadline index a scope s = (some (result, scope'), s')) : r.Answered s result := by
  unfold act at h
  simp only at h
  intro hsuccess
  split at h
  · cases h
    cases hsuccess
  · rename_i filled _
    rcases houtcome : r.outcome deadline filled.operation s with ⟨_ | cause | output, w⟩
    all_goals
      rw [houtcome] at h
      cases h
    · cases hsuccess
    · obtain ⟨hcheck, hyields⟩ := (outcome_eq_ok_iff hlive).1 (congrArg Prod.fst houtcome)
      exact ⟨filled.operation, deadline, rfl, hcheck, hyields⟩

theorem answered_actUnbounded (hlive : r.dryRun = false) (index : Nat) (a : Action)
    (scope : Bindings) (s : σ) : r.Answered s (r.actUnbounded index a scope s).1 := by
  unfold actUnbounded
  rcases h : r.act none index a scope s with ⟨_ | ⟨result, scope'⟩, s'⟩
  · intro hsuccess
    cases hsuccess
  · exact answered_act hlive h

end Runner

/-! ## From moment to moment -/

/-- The results of an attempt that has ended. -/
def Attempt.actions : Attempt → List ActionResult
  | .passed actions _ | .failed actions _ => actions

theorem Runner.actions_conclude (r : Runner σ) (step : Step) (results : List ActionResult)
    (scope : Bindings) : (r.conclude step results scope).actions = results := by
  unfold conclude
  simp only
  split <;> rfl

/-- The results of the attempt that has begun. -/
def Task.done : Task → List ActionResult
  | .act _ _ _ _ _ done _ => done
  | _ => []

/-- The results of all actions so far. -/
def Progress.results (g : Progress σ) : List ActionResult :=
  g.setup ++ g.steps.flatMap StepResult.actions ++ g.cleanup

/-- The results of all actions so far, with those of the attempt that has begun. -/
def Moment.results (m : Moment σ) : List ActionResult := m.toProgress.results ++ m.task.done

namespace Progress

variable (p : Plan σ) (g : Progress σ) {x : ActionResult}

theorem results_afterChecks : (g.afterChecks p).results = g.results := by
  unfold afterChecks
  split <;> exact List.append_nil _

theorem results_afterSteps : (g.afterSteps p).results = g.results := by
  unfold afterSteps
  split
  · exact results_afterChecks p g
  · exact List.append_nil _

theorem results_endSetup (scope : Bindings) : (g.endSetup p scope).results = g.results := by
  unfold endSetup
  simp only
  split
  · exact List.append_nil _
  · exact results_afterSteps p _

theorem mem_results_endStep {rest : List Step} {result : StepResult} {context : Bindings}
    (h : x ∈ (g.endStep p rest result context).results) : x ∈ g.results ∨ x ∈ result.actions := by
  have hresults : (g.endStep p rest result context).results =
      g.setup ++ (g.steps ++ [result]).flatMap StepResult.actions ++ g.cleanup := by
    unfold endStep
    simp only
    split
    · exact List.append_nil _
    · exact results_afterSteps p _
  rw [hresults] at h
  simp only [results, List.mem_append, List.flatMap_append, List.flatMap_singleton] at h ⊢
  tauto

theorem mem_results_endAttempt {t : Trial} {attempt : Attempt}
    (h : x ∈ (g.endAttempt p t attempt).results) : x ∈ g.results ∨ x ∈ attempt.actions := by
  unfold endAttempt at h
  split at h
  · exact mem_results_endStep p g h
  · simp only at h
    split at h
    · exact mem_results_endStep p g h
    · split at h
      · exact .inl (by simpa [Moment.results, Task.done] using h)
      · exact mem_results_endStep p g h

/-- Results that have been added are answered. -/
theorem answered_append {s : σ} {result : ActionResult} (hresult : p.runner.Answered s result)
    {earlier : List ActionResult} (h : x ∈ earlier ++ [result]) :
    x ∈ earlier ∨ p.runner.Answered s x := by
  rcases List.mem_append.1 h with h | h
  · exact .inl h
  · rw [List.mem_singleton.1 h]
    exact .inr hresult

theorem answered_nextSetup (hlive : p.runner.dryRun = false) {index : Nat} {rest : List Action}
    {scope : Bindings} (h : x ∈ (g.nextSetup p index rest scope).results) :
    x ∈ g.results ∨ p.runner.Answered g.world x := by
  unfold nextSetup at h
  split at h
  · rw [results_endSetup] at h
    exact .inl h
  · rename_i a rest
    split at h
    · rw [results_endSetup] at h
      exact .inl h
    · have hresult := Runner.answered_actUnbounded hlive index a scope g.world
      rcases hrun : p.runner.actUnbounded index a scope g.world with ⟨result, scope', s'⟩
      rw [hrun] at h hresult
      have hmem : x ∈ (g.setup ++ [result]) ++ g.steps.flatMap StepResult.actions ++
          g.cleanup := by
        simp only at h
        split at h
        · simpa [Moment.results, results, Task.done] using h
        · rwa [results_endSetup] at h
      have hadded : x ∈ g.results ++ [result] := by
        simp only [results, List.mem_append] at hmem ⊢
        tauto
      exact answered_append p hresult hadded

theorem mem_results_nextAttempt {t : Trial} (h : x ∈ (g.nextAttempt p t).results) :
    x ∈ g.results := by
  unfold nextAttempt at h
  split at h
  · exact (mem_results_endAttempt p g h).resolve_right List.not_mem_nil
  · split at h
    · exact (mem_results_endAttempt p g h).resolve_right List.not_mem_nil
    · simpa [Moment.results, Task.done] using h

theorem answered_nextAct (hlive : p.runner.dryRun = false) {t : Trial}
    {budget deadline index : Nat} {rest : List Action} {done : List ActionResult}
    {scope : Bindings}
    (h : x ∈ (g.nextAct p t budget deadline index rest done scope).results) :
    (x ∈ g.results ∨ x ∈ done) ∨ p.runner.Answered g.world x := by
  unfold nextAct at h
  split at h
  · have hmem := mem_results_endAttempt p g h
    rw [Runner.actions_conclude] at hmem
    exact .inl hmem
  · rename_i a rest
    split at h
    · exact .inl (mem_results_endAttempt p _ h)
    · rename_i result scope' s' hrun
      have hresult := Runner.answered_act hlive hrun
      have hmem : x ∈ g.results ∨ x ∈ done ++ [result] := by
        split at h
        · exact mem_results_endAttempt p _ h
        · exact List.mem_append.1 h
      rw [or_assoc]
      exact hmem.imp_right fun hdone => answered_append p hresult hdone

theorem answered_nextCleanup (hlive : p.runner.dryRun = false) {index : Nat}
    {rest : List Action} {scope : Bindings}
    (h : x ∈ (g.nextCleanup p index rest scope).results) :
    x ∈ g.results ∨ p.runner.Answered g.world x := by
  unfold nextCleanup at h
  split at h
  · exact .inl (by simpa [Moment.results, results, Task.done] using h)
  · rename_i a rest
    have hresult := Runner.answered_actUnbounded hlive index a scope g.world
    have hmem : x ∈ g.results ++ [(p.runner.actUnbounded index a scope g.world).1] := by
      simpa [Moment.results, results, Task.done] using h
    exact answered_append p hresult hmem

end Progress

/-- **What a moment adds to the results is answered** in the state of the system at that moment. -/
theorem answered_next {p : Plan σ} (hlive : p.runner.dryRun = false) {m : Moment σ}
    {x : ActionResult} (h : x ∈ (m.next p).results) :
    x ∈ m.results ∨ p.runner.Answered m.world x := by
  have hmem : x ∈ m.toProgress.results ∨ x ∈ m.task.done → x ∈ m.results := List.mem_append.2
  unfold Moment.next at h
  split at h
  · exact (Progress.answered_nextSetup p _ hlive h).imp_left fun h => hmem (.inl h)
  · rw [Progress.results_afterSteps] at h
    exact .inl (hmem (.inl h))
  · exact .inl (hmem (.inl ((List.mem_append.1 h).resolve_right List.not_mem_nil)))
  · exact .inl (hmem (.inl (Progress.mem_results_nextAttempt p _ h)))
  · rename_i htask
    rw [htask] at hmem
    exact (Progress.answered_nextAct p _ hlive h).imp_left hmem
  · rename_i index rest _
    refine .inl (hmem (.inl ?_))
    unfold Progress.nextCheck at h
    split at h
    · rwa [Progress.results_afterChecks] at h
    · exact (List.mem_append.1 h).resolve_right List.not_mem_nil
  · exact (Progress.answered_nextCleanup p _ hlive h).imp_left fun h => hmem (.inl h)
  · exact .inl h

namespace Definition

variable {backend : Backend σ} {options : RunOptions} {now : String} {d : Definition} {s : σ}
  {x : ActionResult}

theorem answered_moment (hlive : options.dryRun = false) {k : Nat}
    (h : x ∈ (d.moment backend options now s k).results) :
    ∃ j, (options.runner backend s).Answered (d.moment backend options now s j).world x := by
  induction k with
  | zero => cases h
  | succ k ih =>
    rw [moment_succ] at h
    rcases answered_next hlive h with h | h
    · exact ih h
    · exact ⟨k, h⟩

/-- **No success is made up.**  Whenever an action has passed in a run that is not dry, there is a
moment at which the system has given its output to an operation that has passed its check. -/
theorem answered_run (hlive : options.dryRun = false)
    (h : x ∈ (d.run backend options now s).report.setup ∨
      (∃ step ∈ (d.run backend options now s).report.steps, x ∈ step.actions) ∨
      x ∈ (d.run backend options now s).report.cleanup) (hsuccess : x.success = true) :
    ∃ k o deadline, x.resolved = some o ∧ o.check = .ok () ∧
      backend.Yields deadline (d.moment backend options now s k).world o x.output := by
  obtain ⟨halted, n, hend⟩ := exists_forall_moment_eq backend options now d s
  have hmem : x ∈ (d.moment backend options now s n).results := by
    rw [hend n (Nat.le_refl n)]
    simpa [Moment.results, Progress.results, Task.done, lastProgress, or_assoc] using h
  obtain ⟨k, hanswered⟩ := answered_moment hlive hmem
  obtain ⟨o, deadline, hfilled⟩ := hanswered hsuccess
  exact ⟨k, o, deadline, hfilled⟩

end Definition

end ProcessTest
