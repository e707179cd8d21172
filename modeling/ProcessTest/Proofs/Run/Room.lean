import ProcessTest.Proofs.Run.Commits
import ProcessTest.Proofs.Validation.Names

/-!
# Room for the names to come

At every moment of a run the names that are bound and the names that may still be bound are, in
this order, some of the seeded names and the names that the definition declares.  If no name is
declared twice, a name that is about to be bound is therefore free.

* `Task.Room` — the invariant; `room_next` — a moment hands it on to the next one.
* `Task.insertion?` — the name that a moment is about to bind, and the scope that it goes to.
* `not_mem_of_insertion` — the scope has not bound it.
-/

set_option autoImplicit false

namespace ProcessTest

variable {σ : Type}

/-! ## Names of what is kept -/

theorem storeNames_cons (a : Action) (rest : List Action) :
    storeNames (a :: rest) = a.storeAs.toList ++ storeNames rest := by
  unfold storeNames
  rw [List.flatMap_cons]

theorem names_kept_sublist (a : Action) (result : ActionResult) :
    ((kept a result).map Prod.fst).Sublist a.storeAs.toList := by
  unfold kept
  split
  · rename_i hname
    rw [hname]
    exact List.Sublist.refl _
  · exact List.nil_sublist _

theorem names_stored_sublist (actions : List Action) (results : List ActionResult) :
    ((stored actions results).map Prod.fst).Sublist (storeNames actions) := by
  induction actions generalizing results with
  | nil => exact List.Sublist.refl _
  | cons a rest ih =>
    cases results with
    | nil =>
      rw [stored_nil_right]
      exact List.nil_sublist _
    | cons result results =>
      rw [stored_cons, storeNames_cons, List.map_append]
      exact (names_kept_sublist a result).append (ih results)

theorem names_outputs_sublist (step : Step) (results : List ActionResult) :
    ((Runner.outputs step results).map Prod.fst).Sublist step.names := by
  unfold Runner.outputs Step.names
  rw [List.map_append]
  exact (names_stored_sublist step.actions results).append (List.Sublist.refl _)

theorem names_committed_sublist (step : Step) (result : StepResult) :
    ((committed step result).map Prod.fst).Sublist step.names := by
  unfold committed
  split
  · exact names_outputs_sublist step result.actions
  · exact List.nil_sublist _

theorem names_committedAll_sublist (steps : List Step) (results : List StepResult) :
    ((committedAll steps results).map Prod.fst).Sublist (steps.flatMap Step.names) := by
  induction steps generalizing results with
  | nil => exact List.Sublist.refl _
  | cons step rest ih =>
    cases results with
    | nil =>
      rw [committedAll_nil_right]
      exact List.nil_sublist _
    | cons result results =>
      rw [committedAll_cons, List.flatMap_cons, List.map_append]
      exact (names_committed_sublist step result).append (ih results)

/-- What a run binds has names that the definition declares, in the order of the declarations. -/
theorem names_ledger_sublist (d : Definition) (report : Report) :
    ((d.ledger report).map Prod.fst).Sublist d.names := by
  unfold Definition.ledger Definition.names
  rw [List.map_append, List.map_append]
  exact ((names_stored_sublist _ _).append (names_committedAll_sublist _ _)).append
    (names_stored_sublist _ _)

/-! ## The invariant -/

/-- The names that are bound and those that may still be bound, in this order, are some of the
given names. -/
def Bindings.Fits (all : List String) (b : Bindings) (coming : List String) : Prop :=
  (b.names ++ coming).Sublist all

namespace Bindings.Fits

variable {all coming more names : List String} {b : Bindings}

/-- Names that are not going to be bound after all can be left out. -/
theorem drop (h : b.Fits all (names ++ coming)) : b.Fits all coming :=
  ((List.sublist_append_right names coming).append_left b.names).trans h

/-- Entries with some of the first names that are to come can be bound. -/
theorem bindAll {es : Entries} (h : b.Fits all (names ++ coming))
    (hes : (es.map Prod.fst).Sublist names) : (b.bindAll es).Fits all coming := by
  have hbound : (b.bindAll es).names.Sublist (b.names ++ names) :=
    (names_bindAll_sublist b es).trans (hes.append_left b.names)
  have hall := hbound.append (List.Sublist.refl coming)
  rw [List.append_assoc] at hall
  exact hall.trans h

/-- If no name is twice among the given ones, the next name is free. -/
theorem not_mem {name : String} (hall : all.Nodup) (h : b.Fits all (name :: coming)) :
    name ∉ b.names := by
  intro hname
  have hd := List.nodup_append.1 (hall.sublist h)
  exact hd.2.2 name hname name List.mem_cons_self rfl

end Bindings.Fits

/-- The names that are still to come after the steps that are left. -/
def Definition.namesFrom (d : Definition) (steps : List Step) : List String :=
  steps.flatMap Step.names ++ storeNames d.cleanup

/-- There is room in the context, or in a scope that has grown from it, for the names to come. -/
def Task.Room (d : Definition) (all : List String) (context : Bindings) : Task → Prop
  | .setup _ rest scope => context.entries <+: scope.entries ∧
      scope.Fits all (storeNames rest ++ d.namesFrom d.steps)
  | .steps rest => context.Fits all (d.namesFrom rest)
  | .attempt t => context.Fits all (t.step.names ++ d.namesFrom t.rest)
  | .act t _ _ _ rest _ scope => context.Fits all (t.step.names ++ d.namesFrom t.rest) ∧
      context.entries <+: scope.entries ∧
      scope.Fits all (storeNames rest ++ ([t.step.id] ++ d.namesFrom t.rest))
  | .check _ _ => context.Fits all (storeNames d.cleanup)
  | .cleanup _ rest scope => scope.Fits all (storeNames rest)
  | .ended => True

/-- There is room at a moment. -/
def Moment.Room (p : Plan σ) (all : List String) (m : Moment σ) : Prop :=
  m.task.Room p.definition all m.context

namespace Progress

variable {p : Plan σ} {all : List String} {g : Progress σ}

theorem room_afterChecks (h : g.context.Fits all (storeNames p.definition.cleanup)) :
    (g.afterChecks p).Room p all := by
  unfold afterChecks
  split
  · exact h
  · exact trivial

theorem room_afterSteps (h : g.context.Fits all (storeNames p.definition.cleanup)) :
    (g.afterSteps p).Room p all := by
  unfold afterSteps
  split
  · exact room_afterChecks h
  · exact h

theorem room_endSetup {scope : Bindings} (hscope : g.context.entries <+: scope.entries)
    (h : scope.Fits all (p.definition.namesFrom p.definition.steps)) :
    (g.endSetup p scope).Room p all := by
  unfold endSetup
  simp only [Bindings.absorb_of_prefix hscope]
  split
  · exact h
  · exact room_afterSteps (g := { g with context := scope, halted := true }) h.drop

theorem room_endStep {rest : List Step} {result : StepResult} {context : Bindings}
    (h : context.Fits all (p.definition.namesFrom rest)) :
    (g.endStep p rest result context).Room p all := by
  unfold endStep
  simp only
  split
  · exact h
  · exact room_afterSteps
      (g := { g with context, steps := g.steps ++ [result], halted := true }) h.drop

theorem room_failed {t : Trial} {actions : List ActionResult} {cause : StepError}
    (h : g.context.Fits all (t.step.names ++ p.definition.namesFrom t.rest)) :
    (g.endAttempt p t (.failed actions cause)).Room p all := by
  unfold endAttempt
  simp only
  split
  · exact room_endStep h.drop
  · split
    · exact h
    · exact room_endStep h.drop

theorem room_concluded {t : Trial} {done : List ActionResult} {scope : Bindings}
    (hcontext : g.context.Fits all (t.step.names ++ p.definition.namesFrom t.rest))
    (hscope : g.context.entries <+: scope.entries)
    (h : scope.Fits all ([t.step.id] ++ p.definition.namesFrom t.rest)) :
    (g.endAttempt p t (p.runner.conclude t.step done scope)).Room p all := by
  unfold Runner.conclude
  simp only
  split
  · exact room_failed hcontext
  · unfold endAttempt
    simp only
    have hgrown : g.context.entries <+: (scope.bind t.step.id (mergedOutput done)).entries :=
      hscope.trans Bindings.entries_prefix_bind
    rw [Bindings.absorb_of_prefix hgrown]
    have hid : ([(t.step.id, mergedOutput done)].map Prod.fst).Sublist [t.step.id] :=
      List.Sublist.refl _
    exact room_endStep (h.bindAll hid)

end Progress

namespace Progress

variable {p : Plan σ} {all : List String} {g : Progress σ}

theorem room_nextSetup {index : Nat} {rest : List Action} {scope : Bindings}
    (hscope : g.context.entries <+: scope.entries)
    (h : scope.Fits all (storeNames rest ++ p.definition.namesFrom p.definition.steps)) :
    (g.nextSetup p index rest scope).Room p all := by
  unfold nextSetup
  cases rest with
  | nil => exact room_endSetup hscope h
  | cons a rest =>
    rw [storeNames_cons, List.append_assoc] at h
    simp only
    split
    · exact room_endSetup hscope h.drop.drop
    · rcases ha : p.runner.actUnbounded index a scope g.world with ⟨result, scope', s'⟩
      obtain ⟨-, -, rfl⟩ := Runner.actUnbounded_spec ha
      have hgrown := hscope.trans (Bindings.entries_prefix_bindAll scope (kept a result))
      have hfits := h.bindAll (names_kept_sublist a result)
      simp only
      split
      · exact ⟨hgrown, hfits⟩
      · exact room_endSetup (g := { g with world := s', setup := g.setup ++ [result] }) hgrown
          hfits.drop

theorem room_nextAttempt {t : Trial}
    (h : g.context.Fits all (t.step.names ++ p.definition.namesFrom t.rest)) :
    (g.nextAttempt p t).Room p all := by
  unfold nextAttempt
  split
  · exact room_failed h
  · split
    · exact room_failed h
    · refine ⟨h, List.prefix_refl _, ?_⟩
      have hnames := h
      unfold Step.names at hnames
      rw [List.append_assoc] at hnames
      exact hnames

theorem room_nextAct {t : Trial} {budget deadline index : Nat} {rest : List Action}
    {done : List ActionResult} {scope : Bindings}
    (hcontext : g.context.Fits all (t.step.names ++ p.definition.namesFrom t.rest))
    (hscope : g.context.entries <+: scope.entries)
    (h : scope.Fits all (storeNames rest ++ ([t.step.id] ++ p.definition.namesFrom t.rest))) :
    (g.nextAct p t budget deadline index rest done scope).Room p all := by
  unfold nextAct
  cases rest with
  | nil => exact room_concluded hcontext hscope h
  | cons a rest =>
    rw [storeNames_cons, List.append_assoc] at h
    simp only
    rcases ha : p.runner.act (some deadline) index a scope g.world with ⟨_ | ⟨result, scope'⟩, s'⟩
    · exact room_failed (g := { g with world := s' }) hcontext
    · obtain ⟨-, -, rfl⟩ := Runner.act_spec ha
      have hgrown := hscope.trans (Bindings.entries_prefix_bindAll scope (kept a result))
      simp only
      split
      · exact room_failed (g := { g with world := s' }) hcontext
      · exact ⟨hcontext, hgrown, h.bindAll (names_kept_sublist a result)⟩

theorem room_nextCleanup {index : Nat} {rest : List Action} {scope : Bindings}
    (h : scope.Fits all (storeNames rest)) : (g.nextCleanup p index rest scope).Room p all := by
  unfold nextCleanup
  cases rest with
  | nil => exact trivial
  | cons a rest =>
    rw [storeNames_cons] at h
    simp only
    rcases ha : p.runner.actUnbounded index a scope g.world with ⟨result, scope', s'⟩
    obtain ⟨-, -, rfl⟩ := Runner.actUnbounded_spec ha
    exact h.bindAll (names_kept_sublist a result)

end Progress

/-- **Room is handed on from a moment to the next one.** -/
theorem room_next {p : Plan σ} {all : List String} {m : Moment σ} (h : m.Room p all) :
    (m.next p).Room p all := by
  obtain ⟨g, task⟩ := m
  cases task with
  | setup index rest scope => exact Progress.room_nextSetup h.1 h.2
  | steps rest =>
    cases rest with
    | nil => exact Progress.room_afterSteps h
    | cons step rest =>
      change g.context.Fits all (step.names ++ p.definition.namesFrom rest)
      have hnames : p.definition.namesFrom (step :: rest) =
          step.names ++ p.definition.namesFrom rest := by
        unfold Definition.namesFrom
        rw [List.flatMap_cons, List.append_assoc]
      rw [← hnames]
      exact h
  | attempt t => exact Progress.room_nextAttempt h
  | act t budget deadline index rest done scope => exact Progress.room_nextAct h.1 h.2.1 h.2.2
  | check index rest =>
    cases rest with
    | nil => exact Progress.room_afterChecks h
    | cons a rest => exact h
  | cleanup index rest scope => exact Progress.room_nextCleanup h
  | ended => exact trivial

/-! ## Insertions -/

/-- The name that a moment may be about to bind, and the scope that it goes to. -/
def Task.insertion? : Task → Option (String × Bindings)
  | .setup _ (a :: _) scope | .act _ _ _ _ (a :: _) _ scope | .cleanup _ (a :: _) scope =>
    a.storeAs.map (·, scope)
  | .act t _ _ _ [] _ scope => some (t.step.id, scope)
  | _ => none

/-- Where there is room, a name that is about to be bound is free. -/
theorem Moment.Room.not_mem_of_insertion {p : Plan σ} {all : List String} {m : Moment σ}
    (hall : all.Nodup) (h : m.Room p all) {name : String} {scope : Bindings}
    (hname : m.task.insertion? = some (name, scope)) : name ∉ scope.names := by
  have haction : ∀ (a : Action) (rest : List Action) (b : Bindings) (more : List String),
      a.storeAs.map (·, b) = some (name, scope) → b.Fits all (storeNames (a :: rest) ++ more) →
        name ∉ scope.names := by
    intro a rest b more hname hfits
    obtain ⟨key, hkey, hpair⟩ := Option.map_eq_some_iff.1 hname
    cases hpair
    rw [storeNames_cons, hkey] at hfits
    exact hfits.not_mem hall
  obtain ⟨g, task⟩ := m
  cases task with
  | setup index rest b =>
    cases rest with
    | nil => cases hname
    | cons a rest => exact haction a rest b _ hname h.2
  | act t budget deadline index rest done b =>
    cases rest with
    | nil =>
      cases hname
      exact h.2.2.not_mem hall
    | cons a rest => exact haction a rest b _ hname h.2.2
  | cleanup index rest b =>
    cases rest with
    | nil => cases hname
    | cons a rest => exact haction a rest b [] hname (by rw [List.append_nil]; exact h)
  | steps rest => cases hname
  | attempt t => cases hname
  | check index rest => cases hname
  | ended => cases hname

namespace Definition

variable (backend : Backend σ) (options : RunOptions) (now : String) (d : Definition) (s : σ)

/-- The names that a run may ever bind, in order. -/
def allNames : List String := (Bindings.seeded d.setting now).names ++ d.names

/-- There is room at every moment of a run. -/
theorem room_moment (k : Nat) :
    (d.moment backend options now s k).Room (d.plan backend options s) (d.allNames now) := by
  induction k with
  | zero =>
    refine ⟨List.prefix_refl _, ?_⟩
    unfold Bindings.Fits allNames names namesFrom
    rw [List.append_assoc (storeNames d.setup)]
    exact List.Sublist.refl _
  | succ k ih =>
    rw [moment_succ]
    exact room_next ih

/-- The seeded names and those of a well-named definition differ from each other. -/
theorem WellNamed.nodup_allNames (h : d.WellNamed) : (d.allNames now).Nodup := by
  refine List.nodup_append.2 ⟨(Bindings.seeded d.setting now).distinct, h.distinct, ?_⟩
  rintro name hseeded other hother rfl
  exact (h.proper name hother).2 (Bindings.mem_seededNames_of_mem_seeded hseeded)

end Definition

end ProcessTest
