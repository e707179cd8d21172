import ProcessTest.Proofs.Run.Commits

/-!
# What a run asks of a system

From one moment to the next a run turns to the system at most once, and no operation gets there
that has not passed its check.

* `Asks` — what a run can ask of a system.
* `asks_act`, `asks_actUnbounded`, `asks_checkOne` — one action, one assertion.
* `asks_next` — one moment.
-/

set_option autoImplicit false

namespace ProcessTest

variable {σ : Type}

/-- What a run asks of a system at once: nothing, while time may pass, a pause, a call with a
checked operation, or a query. -/
inductive Asks (backend : Backend σ) : σ → σ → Prop
  | nothing (s : σ) : Asks backend s s
  | tick (s : σ) : Asks backend s (backend.tick s)
  | pause (ms : Nat) (deadline : Option Nat) (s : σ) :
      Asks backend s (backend.pause ms deadline s).2
  | call {o : Operation} (deadline : Option Nat) (s : σ) (h : o.check = .ok ()) :
      Asks backend s (backend.call o deadline s).2
  | query (table : String) (conditions : Entries) (s : σ) :
      Asks backend s (backend.query table conditions s).2

namespace Runner

variable (r : Runner σ) (deadline : Option Nat) (index : Nat) (a : Action) (scope : Bindings)
  (s : σ)

theorem asks_perform {o : Operation} (h : o.check = .ok ()) :
    Asks r.backend s (r.perform deadline o s).2 := by
  cases o with
  | wait ms => exact .pause ms deadline s
  | interaction p => exact .tick s
  | entity p => exact .call deadline s h
  | transaction p => exact .call deadline s h
  | relationship p => exact .call deadline s h
  | field p => exact .call deadline s h
  | request p => exact .call deadline s h

theorem asks_outcome (o : Operation) : Asks r.backend s (r.outcome deadline o s).2 := by
  unfold outcome
  split
  · exact .tick s
  · split
    · rename_i hcheck
      exact asks_perform r deadline s hcheck
    · exact .tick s

theorem asks_act : Asks r.backend s (r.act deadline index a scope s).2 := by
  unfold act
  simp only
  split
  · exact .tick s
  · rename_i filled _
    have h := r.asks_outcome deadline s filled.operation
    rcases hrun : r.outcome deadline filled.operation s with ⟨_ | _ | _, s'⟩
    all_goals
      rw [hrun] at h
      exact h

theorem asks_actUnbounded : Asks r.backend s (r.actUnbounded index a scope s).2.2 := by
  have h := r.asks_act none index a scope s
  unfold actUnbounded
  rcases hrun : r.act none index a scope s with ⟨_ | _, s'⟩
  all_goals
    rw [hrun] at h
    exact h

theorem asks_checkOne (check : Check) : Asks r.backend s (r.checkOne scope check s).2 := by
  cases check with
  | database table conditions expected =>
    have h : Asks r.backend s
        (r.backend.query table (Template.resolveEntries scope conditions) s).2 := .query ..
    unfold checkOne
    simp only
    rcases hrun : r.backend.query table (Template.resolveEntries scope conditions) s with
      ⟨_ | _, s'⟩
    all_goals
      rw [hrun] at h
      exact h
  | _ => exact .nothing s

end Runner

/-! ## From one moment to the next -/

namespace Progress

variable (p : Plan σ) (g : Progress σ)

theorem world_afterChecks : (g.afterChecks p).world = g.world := by
  unfold afterChecks
  split
  · rfl
  · rfl

theorem world_afterSteps : (g.afterSteps p).world = g.world := by
  unfold afterSteps
  split
  · exact world_afterChecks p g
  · rfl

theorem world_endSetup (scope : Bindings) : (g.endSetup p scope).world = g.world := by
  unfold endSetup
  simp only
  split
  · rfl
  · exact world_afterSteps p _

theorem world_endAttempt (t : Trial) (attempt : Attempt) :
    (g.endAttempt p t attempt).world = g.world := by
  unfold endAttempt
  cases attempt with
  | passed actions scope => exact world_endStep ..
  | failed actions cause =>
    simp only
    split
    · exact world_endStep ..
    · split
      · rfl
      · exact world_endStep ..

theorem asks_nextSetup (index : Nat) (rest : List Action) (scope : Bindings) :
    Asks p.runner.backend g.world (g.nextSetup p index rest scope).world := by
  unfold nextSetup
  split
  · rw [world_endSetup]
    exact .nothing _
  · rename_i a rest
    split
    · rw [world_endSetup]
      exact .nothing _
    · have h := p.runner.asks_actUnbounded index a scope g.world
      simp only
      split
      · exact h
      · rw [world_endSetup]
        exact h

theorem asks_nextAttempt (t : Trial) :
    Asks p.runner.backend g.world (g.nextAttempt p t).world := by
  unfold nextAttempt
  split
  · rw [world_endAttempt]
    exact .nothing _
  · split
    · rw [world_endAttempt]
      exact .nothing _
    · exact .nothing _

theorem asks_nextAct (t : Trial) (budget deadline index : Nat) (rest : List Action)
    (done : List ActionResult) (scope : Bindings) :
    Asks p.runner.backend g.world (g.nextAct p t budget deadline index rest done scope).world := by
  unfold nextAct
  split
  · rw [world_endAttempt]
    exact .nothing _
  · rename_i a rest
    have h := p.runner.asks_act (some deadline) index a scope g.world
    rcases hrun : p.runner.act (some deadline) index a scope g.world with
      ⟨_ | ⟨result, scope'⟩, s'⟩
    · rw [hrun] at h
      simp only
      rw [world_endAttempt]
      exact h
    · rw [hrun] at h
      simp only
      split
      · rw [world_endAttempt]
        exact h
      · exact h

theorem asks_nextCheck (index : Nat) (rest : List Assertion) :
    Asks p.runner.backend g.world (g.nextCheck p index rest).world := by
  unfold nextCheck
  split
  · rw [world_afterChecks]
    exact .nothing _
  · exact p.runner.asks_checkOne g.context g.world _

theorem asks_nextCleanup (index : Nat) (rest : List Action) (scope : Bindings) :
    Asks p.runner.backend g.world (g.nextCleanup p index rest scope).world := by
  unfold nextCleanup
  split
  · exact .nothing _
  · exact p.runner.asks_actUnbounded index _ scope g.world

end Progress

/-- **What a moment asks of the system**: at most one thing, and no unchecked operation. -/
theorem asks_next (p : Plan σ) (m : Moment σ) :
    Asks p.runner.backend m.world (m.next p).world := by
  unfold Moment.next
  split
  · exact Progress.asks_nextSetup ..
  · rw [Progress.world_afterSteps]
    exact .nothing _
  · exact .nothing _
  · exact Progress.asks_nextAttempt ..
  · exact Progress.asks_nextAct ..
  · exact Progress.asks_nextCheck ..
  · exact Progress.asks_nextCleanup ..
  · exact .nothing _

end ProcessTest
