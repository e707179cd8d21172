import ProcessTest.Proofs.Bindings.Growth
import ProcessTest.Run.Execution

/-!
# What actions store

An action that succeeds may keep its output under a name.  The bindings after actions are those
before them and the outputs kept on the way, in the order of the actions.

* `stored` — the outputs that actions with the given results keep.
* `act_spec`, `actUnbounded_spec` — one action; `scope_actAll`, `scope_runSetup`,
  `scope_runCleanup` — actions in a row.
* `attempt_passed` — what an attempt that passes binds.
-/

set_option autoImplicit false

namespace ProcessTest

variable {σ : Type}

/-- What an action with the given result keeps: its output, under the name it gives. -/
def kept (a : Action) (result : ActionResult) : Entries :=
  match result.outcome, a.storeAs with
  | .ok output, some name => [(name, output)]
  | _, _ => []

/-- What actions with the given results keep, in order. -/
def stored (actions : List Action) (results : List ActionResult) : Entries :=
  (actions.zip results).flatMap fun (a, result) => kept a result

theorem stored_nil_right (actions : List Action) : stored actions [] = [] := by
  unfold stored
  rw [List.zip_nil_right]
  rfl

theorem stored_cons (a : Action) (actions : List Action) (result : ActionResult)
    (results : List ActionResult) :
    stored (a :: actions) (result :: results) = kept a result ++ stored actions results := by
  unfold stored
  rw [List.zip_cons_cons, List.flatMap_cons]

/-- A kept entry is the output of a successful action under the name that the action gives. -/
theorem mem_kept_iff {a : Action} {result : ActionResult} {name : String} {v : Value} :
    (name, v) ∈ kept a result ↔
      result.success = true ∧ a.storeAs = some name ∧ result.output = v := by
  unfold kept ActionResult.success ActionResult.output
  cases result.outcome with
  | error cause => simp
  | ok output =>
    cases a.storeAs with
    | none => simp
    | some key => simp [eq_comm]

theorem failed?_eq_none_iff {result : ActionResult} :
    result.failed? = none ↔ result.success = true := by
  unfold ActionResult.failed? ActionResult.success
  cases result.outcome with
  | ok output => simp
  | error cause => simp

namespace Runner

variable {r : Runner σ} {a : Action} {result : ActionResult} {scope scope' : Bindings} {s s' : σ}

/-! ## One action -/

theorem store_eq_bindAll (a : Action) (output : Value) (scope : Bindings)
    (h : result.outcome = .ok output) : store a output scope = scope.bindAll (kept a result) := by
  unfold store kept
  rw [h]
  cases a.storeAs with
  | none => rfl
  | some name => rfl

/-- What an action before a deadline records and binds. -/
theorem act_spec {deadline : Option Nat} {index : Nat}
    (h : r.act deadline index a scope s = (some (result, scope'), s')) :
    result.index = index ∧ result.kind = a.operation.kind ∧
      scope' = scope.bindAll (kept a result) := by
  unfold act at h
  simp only at h
  split at h
  · cases h
    exact ⟨rfl, rfl, rfl⟩
  · rename_i filled _
    split at h
    · cases h
    · rename_i outcome _ _
      cases outcome with
      | error cause =>
        cases h
        exact ⟨rfl, rfl, rfl⟩
      | ok output =>
        cases h
        exact ⟨rfl, rfl, store_eq_bindAll a output scope rfl⟩

/-- What an action without a deadline records and binds. -/
theorem actUnbounded_spec {index : Nat}
    (h : r.actUnbounded index a scope s = (result, scope', s')) :
    result.index = index ∧ result.kind = a.operation.kind ∧
      scope' = scope.bindAll (kept a result) := by
  unfold actUnbounded at h
  split at h
  · rename_i ha
    cases h
    exact act_spec ha
  · cases h
    exact ⟨rfl, rfl, rfl⟩

/-! ## Actions in a row -/

/-- One round of `actAll`. -/
theorem actAll_cons (r : Runner σ) (deadline index : Nat) (a : Action) (rest : List Action)
    (scope : Bindings) (s : σ) :
    r.actAll deadline index (a :: rest) scope s =
      match r.act (some deadline) index a scope s with
      | (none, s) => ⟨[], .late, scope, s⟩
      | (some (result, scope), s) =>
        match result.failed? with
        | some failed => ⟨[result], .failed failed, scope, s⟩
        | none =>
          let more := r.actAll deadline (index + 1) rest scope s
          { more with results := result :: more.results } := (rfl)

theorem scope_actAll (r : Runner σ) (deadline index : Nat) (actions : List Action)
    (scope : Bindings) (s : σ) :
    (r.actAll deadline index actions scope s).scope =
      scope.bindAll (stored actions (r.actAll deadline index actions scope s).results) := by
  induction actions generalizing index scope s with
  | nil => rfl
  | cons a rest ih =>
    rw [actAll_cons]
    rcases ha : r.act (some deadline) index a scope s with ⟨_ | ⟨result, scope'⟩, s'⟩
    · simp only [stored_nil_right]
      rfl
    · obtain ⟨-, -, rfl⟩ := act_spec ha
      simp only
      cases result.failed? with
      | some failed =>
        simp only [stored_cons, stored_nil_right, List.append_nil]
      | none =>
        simp only [stored_cons, Bindings.bindAll_append]
        exact ih (index + 1) (scope.bindAll (kept a result)) s'

theorem scope_runSetup (r : Runner σ) (index : Nat) (actions : List Action) (scope : Bindings)
    (s : σ) :
    (r.runSetup index actions scope s).scope =
      scope.bindAll (stored actions (r.runSetup index actions scope s).results) := by
  induction actions generalizing index scope s with
  | nil => rfl
  | cons a rest ih =>
    simp only [runSetup]
    split
    · simp only [stored_nil_right]
      rfl
    · rcases ha : r.actUnbounded index a scope s with ⟨result, scope', s'⟩
      obtain ⟨-, -, rfl⟩ := actUnbounded_spec ha
      simp only
      split
      · simp only [stored_cons, Bindings.bindAll_append]
        exact ih (index + 1) (scope.bindAll (kept a result)) s'
      · simp only [stored_cons, stored_nil_right, List.append_nil]

theorem scope_runCleanup (r : Runner σ) (index : Nat) (actions : List Action) (scope : Bindings)
    (s : σ) :
    (r.runCleanup index actions scope s).scope =
      scope.bindAll (stored actions (r.runCleanup index actions scope s).results) := by
  induction actions generalizing index scope s with
  | nil => rfl
  | cons a rest ih =>
    simp only [runCleanup]
    rcases ha : r.actUnbounded index a scope s with ⟨result, scope', s'⟩
    obtain ⟨-, -, rfl⟩ := actUnbounded_spec ha
    simp only [stored_cons, Bindings.bindAll_append]
    exact ih (index + 1) (scope.bindAll (kept a result)) s'

/-! ## Attempts that pass -/

/-- Actions that finish have one successful result each. -/
theorem actAll_finished (r : Runner σ) (deadline index : Nat) (actions : List Action)
    (scope : Bindings) (s : σ)
    (h : (r.actAll deadline index actions scope s).ending = .finished) :
    let run := r.actAll deadline index actions scope s
    run.results.length = actions.length ∧ ∀ result ∈ run.results, result.success = true := by
  induction actions generalizing index scope s with
  | nil =>
    refine ⟨rfl, ?_⟩
    intro result hresult
    cases hresult
  | cons a rest ih =>
    rw [actAll_cons] at h ⊢
    rcases ha : r.act (some deadline) index a scope s with ⟨_ | ⟨result, scope'⟩, s'⟩
    · rw [ha] at h
      cases h
    · rw [ha] at h
      simp only at h ⊢
      cases hf : result.failed? with
      | some failed =>
        rw [hf] at h
        cases h
      | none =>
        rw [hf] at h
        obtain ⟨hlength, hsuccess⟩ := ih (index + 1) scope' s' h
        refine ⟨by simp [hlength], ?_⟩
        intro other hother
        rcases List.mem_cons.1 hother with rfl | hother
        · exact failed?_eq_none_iff.1 hf
        · exact hsuccess other hother

/-- What a step binds when an attempt with the given results passes. -/
def outputs (step : Step) (results : List ActionResult) : Entries :=
  stored step.actions results ++ [(step.id, mergedOutput results)]

/-- **An attempt that passes** has one successful result for each action, and binds what the
actions keep and then the output of the step. -/
theorem attempt_passed {step : Step} {b : Bindings} {results : List ActionResult}
    (h : r.attempt step b s = (.passed results scope, s')) :
    scope = b.bindAll (outputs step results) ∧ results.length = step.actions.length ∧
      ∀ result ∈ results, result.success = true := by
  unfold attempt at h
  split at h
  · cases h
  · split at h
    · cases h
    · rename_i budget _
      have hscope := r.scope_actAll (r.backend.now s + budget) 0 step.actions b s
      have hfinished := r.actAll_finished (r.backend.now s + budget) 0 step.actions b s
      simp only [Prod.mk.injEq] at h
      obtain ⟨h, -⟩ := h
      split at h
      · cases h
      · cases h
      · rename_i hending
        unfold conclude at h
        simp only at h
        split at h
        · cases h
        · cases h
          refine ⟨?_, hfinished hending⟩
          rw [hscope]
          unfold outputs
          rw [Bindings.bindAll_append, Bindings.bindAll_singleton]

end Runner

end ProcessTest
