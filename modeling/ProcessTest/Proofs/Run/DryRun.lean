import Mathlib.Logic.Function.Iterate
import ProcessTest.Proofs.Run.Filled
import ProcessTest.Proofs.Run.Outputs
import ProcessTest.Proofs.Run.Parts
import ProcessTest.Simulation

/-!
# Dry runs

A dry run fills every action and carries none out.  What it comes to depends on the definition and
on the time at which it starts, and on no system; only time passes, action by action.

* `Backend.watched` — a system that keeps a record of everything that is asked of it.
* `Rehearses` — each action has one passing result with the fixed output, in order.
* `Definition.RehearsedOn` — a dry run on a system differs in nothing but the time that passes.
* `exists_act`, `exists_actAll`, `exists_runStep`, `exists_runSteps`, `exists_runSetup`,
  `exists_runCleanup` — what each part of a dry run comes to, the same on every system.
* `fillable_of_decode` — whatever has been decoded can be filled, with any bindings.
* `exists_dryRun` — whole runs.
-/

set_option autoImplicit false

namespace ProcessTest

/-! ## Watched systems -/

/-- Something that is asked of a system. -/
inductive Use where
  | enter (organization : String)
  | call (o : Operation)
  | pause (milliseconds : Nat)
  | query (table : String) (conditions : Entries)
  deriving DecidableEq

/-- The system, with a record of everything that is asked of it. -/
def Backend.watched {σ : Type} (backend : Backend σ) : Backend (σ × List Use) where
  now s := backend.now s.1
  spent s := backend.spent s.1
  tick s := (backend.tick s.1, s.2)
  enter organization s := (backend.enter organization s.1, s.2 ++ [.enter organization])
  call o deadline s :=
    let (reply, s') := backend.call o deadline s.1
    (reply, s', s.2 ++ [.call o])
  pause ms deadline s :=
    let (inTime, s') := backend.pause ms deadline s.1
    (inTime, s', s.2 ++ [.pause ms])
  query table conditions s :=
    let (records, s') := backend.query table conditions s.1
    (records, s', s.2 ++ [.query table conditions])

/-- Time that passes is not asked for. -/
theorem Backend.tick_iterate_watched {σ : Type} (backend : Backend σ) (n : Nat) (s : σ)
    (log : List Use) : backend.watched.tick^[n] (s, log) = (backend.tick^[n] s, log) := by
  have hsemi : Function.Semiconj (·, log) backend.tick backend.watched.tick := fun _ => rfl
  exact (hsemi.iterate_right n s).symm

/-- What time leaves alone is the same after some time. -/
theorem Backend.view_tick_iterate {σ α : Type} (backend : Backend σ) {view : σ → α}
    (h : ∀ t, view (backend.tick t) = view t) (n : Nat) (s : σ) :
    view (backend.tick^[n] s) = view s := by
  have hsemi : Function.Semiconj view backend.tick id := h
  rw [hsemi.iterate_right n s, Function.iterate_id, id]

/-! ## Results of a dry run -/

/-- The result of an action of a dry run: it passes with the fixed output. -/
structure Rehearsal (index : Nat) (a : Action) (result : ActionResult) : Prop where
  index_eq : result.index = index
  kind_eq : result.kind = a.operation.kind
  filled : result.resolved.isSome = true
  outcome : result.outcome = .ok Runner.dryOutput

theorem Rehearsal.success {index : Nat} {a : Action} {result : ActionResult}
    (h : Rehearsal index a result) : result.success = true := by
  unfold ActionResult.success
  rw [h.outcome]

theorem Rehearsal.failed? {index : Nat} {a : Action} {result : ActionResult}
    (h : Rehearsal index a result) : result.failed? = none := by
  unfold ActionResult.failed?
  rw [h.outcome]

/-- Each of the actions, numbered from an index, has one passing result, in order. -/
def Rehearses (index : Nat) (actions : List Action) (results : List ActionResult) : Prop :=
  List.Forall₂ (fun (a, i) result => Rehearsal i a result) (actions.zipIdx index) results

theorem Rehearses.cons {index : Nat} {a : Action} {rest : List Action} {result : ActionResult}
    {results : List ActionResult} (h : Rehearsal index a result)
    (hrest : Rehearses (index + 1) rest results) :
    Rehearses index (a :: rest) (result :: results) := by
  unfold Rehearses
  rw [List.zipIdx_cons]
  exact .cons h hrest

theorem Rehearses.all_success {index : Nat} {actions : List Action} {results : List ActionResult}
    (h : Rehearses index actions results) : results.all ActionResult.success = true := by
  induction actions generalizing index results with
  | nil =>
    cases h
    rfl
  | cons a rest ih =>
    unfold Rehearses at h
    rw [List.zipIdx_cons] at h
    cases h with
    | cons hfirst hrest =>
      rw [List.all_cons, hfirst.success, ih hrest]
      rfl

/-- The result of a step of a dry run: it passes at the first attempt, with all its actions. -/
structure StepRehearsal (step : Step) (result : StepResult) : Prop where
  id_eq : result.id = step.id
  attempts : result.attempts = 1
  passed : result.error = none
  actions : Rehearses 0 step.actions result.actions

/-- The report of a dry run: everything in it passes, and nothing is left out. -/
structure Definition.Rehearsed (d : Definition) (report : Report) : Prop where
  setup : Rehearses 0 d.setup report.setup
  steps : List.Forall₂ StepRehearsal d.steps report.steps
  cleanup : Rehearses 0 d.cleanup report.cleanup
  errors : report.errors = []

/-- The report of a run that has taken other milliseconds. -/
def Report.lasting (milliseconds : Nat) (report : Report) : Report := { report with milliseconds }

/-- A dry run on a system, with what it comes to on every system. -/
structure Definition.RehearsedOn (d : Definition) (options : RunOptions) (now : String)
    (report : Report) (bindings : Bindings) (events : List Occurrence) {σ : Type}
    (backend : Backend σ) (s : σ) : Prop where
  /-- Time passes over the actions, and makes the only difference. -/
  run : let s' := backend.tick^[d.actionCount] s
    let ms := backend.now s' - backend.now s
    d.run backend options now s =
      ⟨report.lasting ms, bindings, events ++ [.runCompleted report.stepsPassed report.stepsFailed
        report.errors.length (secondsOf ms)], s'⟩
  /-- What time leaves alone stays as it is. -/
  untouched : ∀ {α : Type} (view : σ → α), (∀ t, view (backend.tick t) = view t) →
    view (d.run backend options now s).world = view s
  /-- Nothing is asked of the system. -/
  unasked : (d.run backend.watched options now (s, [])).world.2 = []

/-! ## Parts of a dry run -/

/-- The action can be filled with any bindings. -/
def Action.Fillable (a : Action) : Prop := ∀ b, Decode.Succeeds (a.resolve b)

namespace Runner

variable {σ : Type}

/-- It carries nothing out and knows no ceiling. -/
structure Dry (r : Runner σ) : Prop where
  dryRun : r.dryRun = true
  ceiling : r.ceiling = none

namespace Dry

variable {r : Runner σ}

theorem expired (h : r.Dry) (s : σ) : r.expired s = false := by
  unfold Runner.expired
  rw [h.ceiling]

theorem budget (h : r.Dry) (step : Step) (s : σ) : r.budget step s = some step.timeout := by
  unfold Runner.budget
  rw [h.ceiling]

theorem unmet (h : r.Dry) (conditions : List String) (scope : Bindings) :
    r.unmet conditions scope = none := by
  unfold Runner.unmet
  rw [if_pos h.dryRun]

/-- An action of a dry run is filled, while time passes. -/
theorem act (h : r.Dry) {a filled : Action} {scope : Bindings} (ha : a.resolve scope = .ok filled)
    (deadline : Option Nat) (index : Nat) (s : σ) :
    r.act deadline index a scope s =
      (some (⟨index, a.operation.kind, some filled.operation, .ok dryOutput, 0⟩,
        store a dryOutput scope), r.backend.tick s) := by
  have houtcome : r.outcome deadline filled.operation s =
      (some (.ok dryOutput), r.backend.tick s) := by
    unfold Runner.outcome
    rw [if_pos h.dryRun]
  unfold Runner.act
  simp only [ha, houtcome, h.dryRun, if_true]

end Dry

theorem actUnbounded_of_act {r : Runner σ} {index : Nat} {a : Action} {scope scope' : Bindings}
    {result : ActionResult} {s s' : σ}
    (h : r.act none index a scope s = (some (result, scope'), s')) :
    r.actUnbounded index a scope s = (result, scope', s') := by
  unfold actUnbounded
  rw [h]

/-- One action: its result and the bindings after it are the same on every system. -/
theorem exists_act {a : Action} (ha : a.Fillable) (index : Nat) (scope : Bindings) :
    ∃ result scope', Rehearsal index a result ∧
      ∀ {σ : Type} (r : Runner σ), r.Dry → ∀ deadline s,
        r.act deadline index a scope s = (some (result, scope'), r.backend.tick s) := by
  obtain ⟨filled, hfilled⟩ := ha scope
  exact ⟨_, _, ⟨rfl, rfl, rfl, rfl⟩, fun r hr deadline s => hr.act hfilled deadline index s⟩

/-- Actions of a step: all of them pass before any deadline. -/
theorem exists_actAll {actions : List Action} (ha : ∀ a ∈ actions, a.Fillable) (index : Nat)
    (scope : Bindings) :
    ∃ results scope', Rehearses index actions results ∧
      ∀ {σ : Type} (r : Runner σ), r.Dry → ∀ deadline s,
        r.actAll deadline index actions scope s =
          ⟨results, .finished, scope', r.backend.tick^[actions.length] s⟩ := by
  induction actions generalizing index scope with
  | nil => exact ⟨[], scope, .nil, fun _ _ _ _ => rfl⟩
  | cons a rest ih =>
    obtain ⟨hfirst, hrest⟩ := List.forall_mem_cons.1 ha
    obtain ⟨result, scope₁, hresult, hact⟩ := exists_act hfirst index scope
    obtain ⟨results, scope₂, hresults, hall⟩ := ih hrest (index + 1) scope₁
    refine ⟨result :: results, scope₂, hresults.cons hresult, ?_⟩
    intro σ r hr deadline s
    rw [actAll_cons, hact r hr]
    simp only [hresult.failed?, hall r hr]
    rfl

/-- The actions of the setup. -/
theorem exists_runSetup {actions : List Action} (ha : ∀ a ∈ actions, a.Fillable) (index : Nat)
    (scope : Bindings) :
    ∃ results scope', Rehearses index actions results ∧
      ∀ {σ : Type} (r : Runner σ), r.Dry → ∀ s,
        r.runSetup index actions scope s =
          ⟨results, [], scope', r.backend.tick^[actions.length] s⟩ := by
  induction actions generalizing index scope with
  | nil => exact ⟨[], scope, .nil, fun _ _ _ => rfl⟩
  | cons a rest ih =>
    obtain ⟨hfirst, hrest⟩ := List.forall_mem_cons.1 ha
    obtain ⟨result, scope₁, hresult, hact⟩ := exists_act hfirst index scope
    obtain ⟨results, scope₂, hresults, hall⟩ := ih hrest (index + 1) scope₁
    refine ⟨result :: results, scope₂, hresults.cons hresult, ?_⟩
    intro σ r hr s
    have hexpired : ¬ r.expired s = true := by simp [hr.expired s]
    simp only [runSetup, if_neg hexpired, actUnbounded_of_act (hact r hr none s), hresult.success,
      if_true, hall r hr]
    rfl

/-- The actions of the cleanup. -/
theorem exists_runCleanup {actions : List Action} (ha : ∀ a ∈ actions, a.Fillable) (index : Nat)
    (scope : Bindings) :
    ∃ results scope', Rehearses index actions results ∧
      ∀ {σ : Type} (r : Runner σ), r.Dry → ∀ s,
        r.runCleanup index actions scope s =
          ⟨results, [], scope', r.backend.tick^[actions.length] s⟩ := by
  induction actions generalizing index scope with
  | nil => exact ⟨[], scope, .nil, fun _ _ _ => rfl⟩
  | cons a rest ih =>
    obtain ⟨hfirst, hrest⟩ := List.forall_mem_cons.1 ha
    obtain ⟨result, scope₁, hresult, hact⟩ := exists_act hfirst index scope
    obtain ⟨results, scope₂, hresults, hall⟩ := ih hrest (index + 1) scope₁
    refine ⟨result :: results, scope₂, hresults.cons hresult, ?_⟩
    intro σ r hr s
    simp only [runCleanup, actUnbounded_of_act (hact r hr none s), phaseErrors, hresult.failed?,
      hall r hr]
    rfl

/-- A step: it passes at the first attempt, whatever its conditions. -/
theorem exists_runStep {step : Step} (ha : ∀ a ∈ step.actions, a.Fillable) (b : Bindings) :
    ∃ result b' events, StepRehearsal step result ∧
      ∀ {σ : Type} (r : Runner σ), r.Dry → ∀ s,
        r.runStep step b s =
          ⟨result, b', events, r.backend.tick^[step.actions.length] s⟩ := by
  obtain ⟨results, scope, hresults, hall⟩ := exists_actAll ha 0 b
  refine ⟨⟨step.id, 1, results, none, 0⟩,
    (b.absorb (scope.bind step.id (mergedOutput results))).1,
    [.stepStarted step.id 1, .stepPassed step.id 1 (secondsOf 0)], ⟨rfl, rfl, rfl, hresults⟩, ?_⟩
  intro σ r hr s
  have hattempt : r.attempt step b s =
      (.passed results (scope.bind step.id (mergedOutput results)),
        r.backend.tick^[step.actions.length] s) := by
    simp only [attempt, hr.unmet, hr.budget, hall r hr, conclude]
  unfold runStep attempts
  simp only [hattempt, hr.dryRun, if_true]

/-- The steps: all of them pass. -/
theorem exists_runSteps {steps : List Step}
    (ha : ∀ step ∈ steps, ∀ a ∈ step.actions, a.Fillable) (b : Bindings) :
    ∃ results b' events, List.Forall₂ StepRehearsal steps results ∧
      ∀ {σ : Type} (r : Runner σ), r.Dry → ∀ proceed s,
        r.runSteps proceed steps b s = ⟨results, [], events, b', false,
          r.backend.tick^[(steps.flatMap Step.actions).length] s⟩ := by
  induction steps generalizing b with
  | nil => exact ⟨[], b, [], .nil, fun _ _ _ _ => rfl⟩
  | cons step rest ih =>
    obtain ⟨hfirst, hrest⟩ := List.forall_mem_cons.1 ha
    obtain ⟨result, b₁, events, hresult, hrun⟩ := exists_runStep hfirst b
    obtain ⟨results, b₂, more, hresults, hall⟩ := ih hrest b₁
    refine ⟨result :: results, b₂, events ++ more, .cons hresult hresults, ?_⟩
    intro σ r hr proceed s
    rw [List.flatMap_cons, List.length_append, Nat.add_comm, Function.iterate_add_apply]
    simp only [runSteps, hrun r hr, StepResult.success, hresult.passed, Option.isNone_none,
      Bool.true_or, if_true, hall r hr]
    rfl

end Runner

/-! ## Whole runs -/

namespace Definition

/-- All actions of the definition can be filled with any bindings. -/
structure Fillable (d : Definition) : Prop where
  setup : ∀ a ∈ d.setup, a.Fillable
  steps : ∀ step ∈ d.steps, ∀ a ∈ step.actions, a.Fillable
  cleanup : ∀ a ∈ d.cleanup, a.Fillable

/-- What a dry run comes to is the same on every system, except for the time that has passed. -/
theorem exists_run_of_fillable {d : Definition} {options : RunOptions} (ha : d.Fillable)
    (hdry : options.dryRun = true) (hceiling : options.ceiling = none) (now : String) :
    ∃ report bindings events, d.Rehearsed report ∧
      ∀ {σ : Type} (backend : Backend σ) (s : σ),
        let s' := backend.tick^[d.actionCount] s
        let ms := backend.now s' - backend.now s
        d.run backend options now s =
          ⟨report.lasting ms, bindings, events ++ [.runCompleted report.stepsPassed
            report.stepsFailed report.errors.length (secondsOf ms)], s'⟩ := by
  obtain ⟨setup, scope, hsetup, hrunSetup⟩ :=
    Runner.exists_runSetup ha.setup 0 (Bindings.seeded d.setting now)
  obtain ⟨steps, b, events, hsteps, hrunSteps⟩ :=
    Runner.exists_runSteps ha.steps ((Bindings.seeded d.setting now).absorb scope).1
  obtain ⟨cleanup, scope', hcleanup, hrunCleanup⟩ := Runner.exists_runCleanup ha.cleanup 0 b
  refine ⟨⟨d.id, d.fingerprint, true, setup, steps, cleanup, [], 0⟩, (b.absorb scope').1,
    [.runStarted d.id true programVersion] ++ Runner.phaseEvents .setup d.setup setup ++ events ++
      Runner.phaseEvents .cleanup d.cleanup cleanup,
    ⟨hsetup, hsteps, hcleanup, rfl⟩, ?_⟩
  intro σ backend s
  have hr : (options.runner backend s).Dry := ⟨hdry, by simp [RunOptions.runner, hceiling]⟩
  have hticks : ∀ m n, backend.tick^[n] (backend.tick^[m] s) = backend.tick^[m + n] s := by
    intro m n
    rw [Nat.add_comm, Function.iterate_add_apply]
  have h₁ : d.setupRun backend options now s =
      ⟨setup, [], scope, backend.tick^[d.setup.length] s⟩ := by
    unfold setupRun
    rw [hrunSetup _ hr, if_pos hdry]
    rfl
  have h₂ : d.stepsRun backend options now s = ⟨steps, [], events, b, false,
      backend.tick^[d.setup.length + (d.steps.flatMap Step.actions).length] s⟩ := by
    unfold stepsRun
    simp only [h₁, hsetup.all_success, if_true, hrunSteps _ hr]
    rw [← hticks]
    rfl
  have h₃ : d.checked backend options now s = ⟨[], [],
      backend.tick^[d.setup.length + (d.steps.flatMap Step.actions).length] s⟩ := by
    unfold checked
    simp only [h₂, hdry, Bool.true_or, if_true]
  have h₄ : d.cleanupRun backend options now s =
      ⟨cleanup, [], scope', backend.tick^[d.actionCount] s⟩ := by
    unfold cleanupRun actionCount
    simp only [h₂, h₃, Bool.not_false, Bool.true_or, if_true, hrunCleanup _ hr]
    rw [← hticks (d.setup.length + _)]
    rfl
  have hrun := d.run_eq backend options now s
  rw [h₁, h₂, h₃, h₄, hdry] at hrun
  rw [hrun]
  simp only [Bool.not_false, Bool.true_or, if_true, List.append_nil]
  rfl

end Definition

/-! ## Decoded definitions -/

open Decode

section Decoded

variable {α : Type} {read : Value → Decoded α} {part : Entries} {name : String} {as : List α}

/-- Every item of a list that was read is one that was read. -/
theorem exists_of_mem_asList {v : Value} (h : asList read v = .ok as) {a : α} (ha : a ∈ as) :
    ∃ w, read w = .ok a := by
  cases v with
  | list vs =>
    obtain ⟨w, -, hw⟩ := exists_of_mem_items h ha
    exact ⟨w, hw⟩
  | _ => cases h

theorem exists_of_mem_defaulted (h : defaulted part name [] (asList read) = .ok as) {a : α}
    (ha : a ∈ as) : ∃ w, read w = .ok a := by
  unfold defaulted at h
  split at h
  · exact exists_of_mem_asList h ha
  · cases h
    cases ha

end Decoded

namespace Definition

variable {v : Value} {d : Definition}

theorem fillable_of_decode (h : decode v = .ok d) : d.Fillable := by
  have hread : d.ReadFrom (Validation.written d.encode) :=
    Definition.readFrom_of_decode (decode_encode h)
  refine ⟨fun a ha => ?_, fun step hstep a ha => ?_, fun a ha => ?_⟩
  · obtain ⟨w, hw⟩ := exists_of_mem_defaulted hread.setup ha
    exact Action.succeeds_resolve hw
  · obtain ⟨u, -, hsteps⟩ := exists_of_required hread.steps
    obtain ⟨w, hw⟩ := exists_of_mem_asList hsteps hstep
    have hstep : step.ReadFrom (Validation.written step.encode) :=
      Step.readFrom_of_decode (lossless_step.read_write hw)
    obtain ⟨u, -, hactions⟩ := exists_of_required hstep.actions
    obtain ⟨w, hw⟩ := exists_of_mem_asList hactions ha
    exact Action.succeeds_resolve hw
  · obtain ⟨w, hw⟩ := exists_of_mem_defaulted hread.cleanup ha
    exact Action.succeeds_resolve hw

/-- A table is booked for a guest; in a dry run the guest is no identifier but a record, so that
the relationship can be filled only as text. -/
def bookingDocument : Value :=
  .map [("id", .text "booking"), ("title", .text "A booking"),
    ("context", .map [("organization_id", .text "salon")]),
    ("personas", .map [("clerk", .map [("role", .text "clerk")])]),
    ("setup", .list [.map [("type", .text "create_entity"), ("entity_type", .text "guest"),
      ("entity_name", .text "Ada"), ("smart_code", .text "HERA.SALON.CRM.ENT.GUEST.v1"),
      ("store_as", .text "guest")]]),
    ("steps", .list [.map [("id", .text "book"), ("persona", .text "clerk"),
      ("preconditions", .list [.text "booked.id == 1"]),
      ("actions", .list [.map [("type", .text "create_relationship"),
        ("from_entity_id", .text "\x7b\x7bguest\x7d\x7d"), ("to_entity_id", .text "table"),
        ("relationship_type", .text "books"),
        ("smart_code", .text "HERA.SALON.CRM.REL.BOOKS.v1")]])]])]

/-- A ceiling can stop a dry run: here the first action takes all the time there is. -/
example :
    let backend := { Simulation.timed with tick := fun s => { s with now := s.now + 1 } }
    (decode bookingDocument).toOption.map (fun d => (d.run backend ⟨true, false, some 1⟩
      "2026-01-31T09:00:00Z" (.ofLatency 0)).report.errors) = some [.step "book" .ceiling] := by
  decide +kernel

end Definition

end ProcessTest
