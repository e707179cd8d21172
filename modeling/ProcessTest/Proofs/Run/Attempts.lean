import ProcessTest.Proofs.Run.Agreement
import ProcessTest.Proofs.Run.DryRun

/-!
# Attempts at a step

A step is attempted at least once, and no more often than its retries allow.  Every attempt starts
from the bindings before the step.  So a precondition that the first attempt has met is met by all
of them, and a step can fail for a precondition at its first attempt only.

* `Performs` — each action has one passing result, in order.
* `Runner.attempt_cases` — what one attempt comes to.
* `Runner.exists_tried` — the attempts at a step, by induction on how many may follow.
* `leads_to_attempt` — every attempt begins at a moment of its own.
* `retries_runStep` — whole steps.
-/

set_option autoImplicit false

namespace ProcessTest

variable {σ : Type}

/-! ## Actions in order -/

/-- An action with an index has passed. -/
structure Performed (index : Nat) (a : Action) (result : ActionResult) : Prop where
  index_eq : result.index = index
  kind_eq : result.kind = a.operation.kind
  success : result.success = true

/-- Each of the actions, numbered from an index, has one passing result, in order. -/
def Performs (index : Nat) (actions : List Action) (results : List ActionResult) : Prop :=
  List.Forall₂ (fun (a, i) result => Performed i a result) (actions.zipIdx index) results

theorem Performs.cons {index : Nat} {a : Action} {rest : List Action} {result : ActionResult}
    {results : List ActionResult} (h : Performed index a result)
    (hrest : Performs (index + 1) rest results) :
    Performs index (a :: rest) (result :: results) := by
  unfold Performs
  rw [List.zipIdx_cons]
  exact .cons h hrest

namespace Runner

/-- The same runner on a system that keeps a record of everything that is asked of it. -/
def watched (r : Runner σ) : Runner (σ × List Use) := ⟨r.backend.watched, r.dryRun, r.ceiling⟩

section Attempt

variable {r : Runner σ} {step : Step} {b : Bindings} {s s' : σ}

theorem performs_actAll {deadline index : Nat} {actions : List Action}
    (h : (r.actAll deadline index actions b s).ending = .finished) :
    Performs index actions (r.actAll deadline index actions b s).results := by
  induction actions generalizing index b s with
  | nil => exact .nil
  | cons a rest ih =>
    rw [actAll_cons] at h ⊢
    rcases ha : r.act (some deadline) index a b s with ⟨_ | ⟨result, scope⟩, w⟩
    · rw [ha] at h
      cases h
    · rw [ha] at h
      obtain ⟨hindex, hkind, -⟩ := act_spec ha
      simp only at h ⊢
      cases hf : result.failed? with
      | some failed =>
        rw [hf] at h
        cases h
      | none =>
        rw [hf] at h
        exact .cons ⟨hindex, hkind, failed?_eq_none_iff.1 hf⟩ (ih h)

/-! ## One attempt -/

theorem conclude_cases (r : Runner σ) (step : Step) (results : List ActionResult) (b : Bindings) :
    (∃ condition, r.conclude step results b = .failed results (.postcondition condition)) ∨
      ∃ scope, r.conclude step results b = .passed results scope := by
  unfold conclude
  simp only
  split
  · exact Or.inl ⟨_, rfl⟩
  · exact Or.inr ⟨_, rfl⟩

/-- No time is left for an attempt only once the ceiling has passed. -/
theorem expired_of_budget (h : r.budget step s = none) : r.expired s = true := by
  unfold budget at h
  unfold expired
  split at h
  · cases h
  · rename_i ceiling hceiling
    split at h
    · rename_i hle
      simpa [hceiling] using hle
    · cases h

/-- What an attempt comes to: a precondition is not met, the ceiling has passed, the actions end
before their end, or they are concluded. -/
theorem attempt_cases (r : Runner σ) (step : Step) (b : Bindings) (s : σ) :
    (∃ condition, r.unmet step.preconditions b = some condition ∧
      r.attempt step b s = (.failed [] (.precondition condition), s)) ∨
    (r.unmet step.preconditions b = none ∧ r.expired s = true ∧
      r.attempt step b s = (.failed [] .ceiling, s)) ∨
    (∃ results cause, cause.retryable = true ∧
      (r.attempt step b s).1 = .failed results cause) ∨
    ∃ results scope, Performs 0 step.actions results ∧
      (r.attempt step b s).1 = .passed results scope := by
  unfold attempt
  cases hunmet : r.unmet step.preconditions b with
  | some condition => exact Or.inl ⟨condition, rfl, rfl⟩
  | none =>
    right
    simp only
    cases hbudget : r.budget step s with
    | none =>
      left
      exact ⟨trivial, expired_of_budget hbudget, rfl⟩
    | some budget =>
      right
      simp only
      cases hending : (r.actAll (r.backend.now s + budget) 0 step.actions b s).ending with
      | late => exact Or.inl ⟨_, _, rfl, rfl⟩
      | failed action => exact Or.inl ⟨_, _, rfl, rfl⟩
      | finished =>
        have hperforms := performs_actAll hending
        rcases r.conclude_cases step
          (r.actAll (r.backend.now s + budget) 0 step.actions b s).results
          (r.actAll (r.backend.now s + budget) 0 step.actions b s).scope with
          ⟨condition, h⟩ | ⟨scope, h⟩
        · exact Or.inl ⟨_, _, rfl, h⟩
        · exact Or.inr ⟨_, _, hperforms, h⟩

theorem unmet_of_failed {actions : List ActionResult} {condition : String}
    (h : (r.attempt step b s).1 = .failed actions (.precondition condition)) :
    r.unmet step.preconditions b = some condition := by
  rcases r.attempt_cases step b s with ⟨_, hunmet, h'⟩ | ⟨-, -, h'⟩ | ⟨_, _, hcause, h'⟩ |
    ⟨_, _, -, h'⟩
  · rw [h'] at h
    cases h
    exact hunmet
  · rw [h'] at h
    cases h
  · rw [h'] at h
    cases h
    cases hcause
  · rw [h'] at h
    cases h

theorem holds_of_unmet {conditions : List String} {condition : String}
    (h : r.unmet conditions b = some condition) :
    condition ∈ conditions ∧ Condition.holds condition b = false := by
  unfold unmet at h
  split at h
  · cases h
  · exact ⟨List.mem_of_find?_eq_some h, by simpa using List.find?_some h⟩

end Attempt

/-! ## All attempts -/

section Attempts

variable {r : Runner σ} {step : Step} {b : Bindings} (start more number : Nat) {s s' : σ}
  {actions : List ActionResult}

theorem attempts_of_passed {scope : Bindings}
    (h : r.attempt step b s = (.passed actions scope, s')) :
    ∃ ms events, r.attempts step b start more number s =
      ⟨⟨step.id, number, actions, none, ms⟩, (b.absorb scope).1, events, s'⟩ := by
  unfold attempts
  rw [h]
  exact ⟨_, _, rfl⟩

theorem attempts_of_final {cause : StepError}
    (h : r.attempt step b s = (.failed actions cause, s'))
    (hfinal : more = 0 ∨ cause.retryable = false) :
    ∃ ms events, r.attempts step b start more number s =
      ⟨⟨step.id, number, actions, some cause, ms⟩, b, events, s'⟩ := by
  unfold attempts
  rw [h]
  cases more with
  | zero => exact ⟨_, _, rfl⟩
  | succ more =>
    have hcause : cause.retryable = false := by simpa using hfinal
    simp only [hcause, Bool.false_eq_true, if_false]
    exact ⟨_, _, rfl⟩

theorem attempts_of_retry {cause : StepError}
    (h : r.attempt step b s = (.failed actions cause, s')) (hcause : cause.retryable = true) :
    ∃ events, r.attempts step b start (more + 1) number s =
      { r.attempts step b start more (number + 1) s' with
        events := events ++ (r.attempts step b start more (number + 1) s').events } := by
  rw [attempts]
  simp only [h, hcause, if_true]
  exact ⟨_, rfl⟩

/-- How the attempts at a step, numbered from `first` to at most `most`, have come to an end: the
last of them was begun in the world `w`, and a failure before the last number allows no other. -/
structure Tried (r : Runner σ) (step : Step) (b : Bindings) (first most : Nat) (run : StepRun σ)
    (w : σ) : Prop where
  first_le : first ≤ run.result.attempts
  le_most : run.result.attempts ≤ most
  world_eq : (r.attempt step b w).2 = run.world
  last : LastAttempt b run.result run.bindings (r.attempt step b w).1
  final : run.result.attempts < most →
    ∀ cause, run.result.error = some cause → cause.retryable = false

theorem tried_of_passed {scope : Bindings} (h : r.attempt step b s = (.passed actions scope, s')) :
    r.Tried step b number (number + more) (r.attempts step b start more number s) s := by
  obtain ⟨ms, events, hrun⟩ := attempts_of_passed start more number h
  rw [hrun]
  refine ⟨Nat.le_refl _, Nat.le_add_right _ _, by rw [h], ?_, nofun⟩
  rw [h]
  exact .passed scope rfl rfl

theorem tried_of_final {cause : StepError}
    (h : r.attempt step b s = (.failed actions cause, s'))
    (hfinal : more = 0 ∨ cause.retryable = false) :
    r.Tried step b number (number + more) (r.attempts step b start more number s) s := by
  obtain ⟨ms, events, hrun⟩ := attempts_of_final start more number h hfinal
  rw [hrun]
  refine ⟨Nat.le_refl _, Nat.le_add_right _ _, by rw [h], ?_, ?_⟩
  · rw [h]
    exact .failed cause rfl rfl
  · rintro hlt _ ⟨⟩
    rcases hfinal with rfl | hcause
    · exact absurd hlt (Nat.lt_irrefl _)
    · exact hcause

theorem exists_tried (r : Runner σ) (step : Step) (b : Bindings) (s : σ) :
    ∃ w, r.Tried step b number (number + more) (r.attempts step b start more number s) w := by
  induction more generalizing number s with
  | zero =>
    rcases h : r.attempt step b s with ⟨⟨actions, scope⟩ | ⟨actions, cause⟩, s'⟩
    · exact ⟨s, tried_of_passed start _ number h⟩
    · exact ⟨s, tried_of_final start _ number h (Or.inl rfl)⟩
  | succ more ih =>
    rcases h : r.attempt step b s with ⟨⟨actions, scope⟩ | ⟨actions, cause⟩, s'⟩
    · exact ⟨s, tried_of_passed start _ number h⟩
    · cases hcause : cause.retryable with
      | false => exact ⟨s, tried_of_final start _ number h (Or.inr hcause)⟩
      | true =>
        obtain ⟨events, hrun⟩ := attempts_of_retry start more number h hcause
        obtain ⟨w, hfirst, hmost, hworld, hlast, hfinal⟩ := ih (number + 1) s'
        rw [hrun]
        refine ⟨w, Nat.le_of_succ_le hfirst, ?_, hworld, hlast, ?_⟩
        · exact Nat.le_trans hmost (by omega)
        · intro hlt
          exact hfinal (Nat.lt_of_lt_of_le hlt (by omega))

/-- A first attempt that is not the last one has failed, and the failure allows another. -/
theorem failed_of_lt
    (hlt : number < (r.attempts step b start more number s).result.attempts) :
    ∃ actions cause s', r.attempt step b s = (.failed actions cause, s') ∧
      cause.retryable = true := by
  rcases h : r.attempt step b s with ⟨⟨actions, scope⟩ | ⟨actions, cause⟩, s'⟩
  · obtain ⟨ms, events, hrun⟩ := attempts_of_passed start more number h
    rw [hrun] at hlt
    exact absurd hlt (Nat.lt_irrefl _)
  · cases hcause : cause.retryable with
    | true => exact ⟨actions, cause, s', rfl, hcause⟩
    | false =>
      obtain ⟨ms, events, hrun⟩ := attempts_of_final start more number h (Or.inr hcause)
      rw [hrun] at hlt
      exact absurd hlt (Nat.lt_irrefl _)

/-- A precondition that is not met ends the attempts at the first one, and nothing is asked of the
system. -/
theorem attempts_of_unmet {condition : String}
    (h : r.unmet step.preconditions b = some condition) :
    ∃ ms events, r.attempts step b start more number s =
      ⟨⟨step.id, number, [], some (.precondition condition), ms⟩, b, events, s⟩ := by
  have hattempt : r.attempt step b s = (.failed [] (.precondition condition), s) := by
    unfold attempt
    rw [h]
  exact attempts_of_final start more number hattempt (Or.inr rfl)

end Attempts

namespace Tried

variable {r : Runner σ} {step : Step} {b : Bindings} {first most : Nat} {run : StepRun σ} {w : σ}

theorem performs (h : r.Tried step b first most run w) (hs : run.result.success = true) :
    Performs 0 step.actions run.result.actions := by
  obtain ⟨scope, hattempt, -⟩ := h.last.of_success hs
  rcases r.attempt_cases step b w with ⟨_, -, h'⟩ | ⟨-, -, h'⟩ | ⟨_, _, -, h'⟩ |
    ⟨_, _, hperforms, h'⟩
  · rw [h'] at hattempt
    cases hattempt
  · rw [h'] at hattempt
    cases hattempt
  · rw [h'] at hattempt
    cases hattempt
  · rw [h'] at hattempt
    cases hattempt
    exact hperforms

theorem unmet {condition : String} (h : r.Tried step b first most run w)
    (herror : run.result.error = some (.precondition condition)) :
    r.unmet step.preconditions b = some condition :=
  unmet_of_failed (h.last.of_error herror)

theorem early (h : r.Tried step b first most run w) (hs : run.result.success = false)
    (hlt : run.result.attempts < most) :
    (∃ condition ∈ step.preconditions, Condition.holds condition b = false ∧
      run.result.error = some (.precondition condition)) ∨
    run.result.error = some .ceiling ∧ r.expired run.world = true := by
  obtain ⟨cause, herror⟩ : ∃ cause, run.result.error = some cause :=
    Option.isSome_iff_exists.1 (by simpa [StepResult.success] using hs)
  have hfinal := h.final hlt cause herror
  have hattempt := h.last.of_error herror
  rcases r.attempt_cases step b w with ⟨condition, hunmet, h'⟩ | ⟨-, hexpired, h'⟩ |
    ⟨_, _, hcause, h'⟩ | ⟨_, _, -, h'⟩
  · rw [h'] at hattempt
    injection hattempt with _ hcause
    subst hcause
    obtain ⟨hmem, hholds⟩ := holds_of_unmet hunmet
    exact Or.inl ⟨condition, hmem, hholds, herror⟩
  · have hworld := h.world_eq
    rw [h'] at hattempt hworld
    injection hattempt with _ hcause
    subst hcause
    rw [← hworld]
    exact Or.inr ⟨herror, hexpired⟩
  · rw [h'] at hattempt
    cases hattempt
    rw [hcause] at hfinal
    cases hfinal
  · rw [h'] at hattempt
    cases hattempt

end Tried

end Runner

/-! ## Moments of the attempts -/

/-- The attempt with a number at a step begins, with the bindings and results of a progress. -/
def Moment.Begins (m : Moment σ) (g : Progress σ) (step : Step) (number : Nat) : Prop :=
  m.context = g.context ∧ m.steps = g.steps ∧
    ∃ t, m.task = .attempt t ∧ t.step = step ∧ t.number = number

/-- From a moment at which an attempt is about to begin, the run comes to the end of the step. -/
theorem leads_endStep {p : Plan σ} (t : Trial) (g : Progress σ) :
    let run := p.runner.attempts t.step g.context t.start t.more t.number g.world
    Leads p (Unchanged g) ⟨g, .attempt t⟩
      (Progress.endStep p t.rest run.result run.bindings { g with world := run.world }) := by
  obtain ⟨s, more, hfirst, hlast, -⟩ := leads_attempts (p := p) t g
  exact hfirst.trans hlast

/-- Every attempt begins at a moment of its own, with the bindings and results before the step:
the run comes to it, and from there to the end of the step. -/
theorem leads_to_attempt {p : Plan σ} (t : Trial) (g : Progress σ) {number : Nat} :
    let run := p.runner.attempts t.step g.context t.start t.more t.number g.world
    t.number ≤ number → number ≤ run.result.attempts →
      ∃ m : Moment σ, m.Begins g t.step number ∧ Leads p (Unchanged g) ⟨g, .attempt t⟩ m ∧
        Leads p (Unchanged g) m
          (Progress.endStep p t.rest run.result run.bindings { g with world := run.world }) := by
  intro run hfirst hlast
  obtain ⟨step, rest, first, more, start⟩ := t
  induction more generalizing first g with
  | zero =>
    obtain ⟨w, htried⟩ := p.runner.exists_tried start 0 first step g.context g.world
    obtain rfl : first = number := Nat.le_antisymm hfirst (hlast.trans htried.le_most)
    exact ⟨_, ⟨rfl, rfl, _, rfl, rfl, rfl⟩, Leads.refl _, leads_endStep _ g⟩
  | succ more ih =>
    rcases Nat.eq_or_lt_of_le hfirst with rfl | hlt
    · exact ⟨_, ⟨rfl, rfl, _, rfl, rfl, rfl⟩, Leads.refl _, leads_endStep _ g⟩
    · obtain ⟨actions, cause, s', h, hcause⟩ :=
        Runner.failed_of_lt start (more + 1) first (Nat.lt_of_lt_of_le hlt hlast)
      obtain ⟨events, hrun⟩ := Runner.attempts_of_retry start more first h hcause
      have hnext : Leads p (Unchanged g) ⟨g, .attempt ⟨step, rest, first, more + 1, start⟩⟩
          ⟨{ g with world := s' }, .attempt ⟨step, rest, first + 1, more, start⟩⟩ := by
        have hattempt := leads_attempt (p := p) ⟨step, rest, first, more + 1, start⟩ g
        simp only [h, Progress.endAttempt, hcause, if_true] at hattempt
        exact hattempt
      simp only [run, hrun] at hlast ⊢
      obtain ⟨m, hm, hto, hfrom⟩ := ih { g with world := s' } (first + 1) hlt hlast
      exact ⟨m, hm, hnext.trans hto, hfrom⟩

/-! ## Whole steps -/

/-- How a step is retried: the attempts at it are bounded, all of them begin with the bindings and
results before the step, and only a failure that no other attempt could change ends them early. -/
structure Plan.Retries (p : Plan σ) (g : Progress σ) (step : Step) (rest : List Step)
    (run : StepRun σ) : Prop where
  attempts_pos : 1 ≤ run.result.attempts
  attempts_le : run.result.attempts ≤ min step.retry 10 + 1
  /-- A step that passes has one passing result for each of its actions, in order. -/
  passed : run.result.success = true → Performs 0 step.actions run.result.actions
  /-- Attempts that end before the last one end for a precondition or for the ceiling. -/
  early : run.result.success = false → run.result.attempts < min step.retry 10 + 1 →
    (∃ condition ∈ step.preconditions, Condition.holds condition g.context = false ∧
      run.result.error = some (.precondition condition)) ∨
    run.result.error = some .ceiling ∧ p.runner.expired run.world = true
  /-- Every attempt begins at a moment with the bindings and results before the step. -/
  restarts : ∀ number, 1 ≤ number → number ≤ run.result.attempts →
    ∃ m : Moment σ, m.Begins g step number ∧
      Leads p (Unchanged g) ⟨g, .steps (step :: rest)⟩ m ∧
      Leads p (Unchanged g) m
        (Progress.endStep p rest run.result run.bindings { g with world := run.world })
  /-- A step that fails for a precondition fails at its first attempt, and asks nothing of the
  system. -/
  untouched : ∀ condition, run.result.error = some (.precondition condition) →
    run.result.attempts = 1 ∧ run.result.actions = [] ∧ run.bindings = g.context ∧
      run.world = g.world ∧
      ∀ log, (p.runner.watched.runStep step g.context (g.world, log)).world = (g.world, log)

/-- **Retries are bounded and begin from the same bindings**: for every step, every progress of a
run, all options, and whatever the system does and however long it takes. -/
theorem retries_runStep (p : Plan σ) (g : Progress σ) (step : Step) (rest : List Step) :
    p.Retries g step rest (p.runner.runStep step g.context g.world) := by
  obtain ⟨w, htried⟩ := p.runner.exists_tried (p.runner.backend.now g.world)
    (min step.retry Step.maxRetry) 1 step g.context g.world
  change p.runner.Tried step g.context 1 _ (p.runner.runStep step g.context g.world) w at htried
  rw [Nat.add_comm] at htried
  constructor
  case attempts_pos => exact htried.first_le
  case attempts_le => exact htried.le_most
  case passed => exact htried.performs
  case early => exact htried.early
  case restarts =>
    intro number hfirst hlast
    obtain ⟨m, hm, hto, hfrom⟩ := leads_to_attempt (p.trial step rest g.world) g hfirst hlast
    exact ⟨m, hm, Leads.head ⟨rfl, rfl⟩ hto, hfrom⟩
  case untouched =>
    intro condition herror
    have hunmet := htried.unmet herror
    obtain ⟨ms, events, hrun⟩ := Runner.attempts_of_unmet (s := g.world)
      (p.runner.backend.now g.world) (min step.retry Step.maxRetry) 1 hunmet
    change p.runner.runStep step g.context g.world = _ at hrun
    rw [hrun]
    refine ⟨rfl, rfl, rfl, rfl, ?_⟩
    intro log
    obtain ⟨ms, events, hwatched⟩ := Runner.attempts_of_unmet (r := p.runner.watched)
      (s := (g.world, log)) (p.runner.backend.now g.world) (min step.retry Step.maxRetry) 1 hunmet
    exact congrArg StepRun.world hwatched

end ProcessTest
