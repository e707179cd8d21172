import ProcessTest.Proofs.Run.Ledger

/-!
# Bindings at every moment of a run

The bindings of a run only grow.  A step takes its own over when an attempt passes, all at once,
and otherwise leaves the bindings as it found them.

* `entries_prefix_moment` — of two moments, the earlier one's bindings are a prefix of the
  later one's.
* `CarriesOut` — what the moments from the start of a step to its end have in common.
* `run_transactional` — both for all moments of a run.
-/

set_option autoImplicit false

namespace ProcessTest

variable {σ : Type}

/-! ## From one moment to the next -/

namespace Progress

variable (p : Plan σ) (g : Progress σ)

theorem context_afterChecks : (g.afterChecks p).context = g.context := by
  unfold afterChecks
  split
  · rfl
  · rfl

theorem context_afterSteps : (g.afterSteps p).context = g.context := by
  unfold afterSteps
  split
  · exact context_afterChecks p g
  · rfl

theorem context_halt : (g.halt p).context = g.context :=
  context_afterSteps p { g with halted := true }

theorem context_endSetup (scope : Bindings) :
    (g.endSetup p scope).context = (g.context.absorb scope).1 := by
  unfold endSetup
  simp only
  split
  · rfl
  · exact context_halt p _

theorem context_endStep (rest : List Step) (result : StepResult) (context : Bindings) :
    (g.endStep p rest result context).context = context := by
  unfold endStep
  simp only
  split
  · rfl
  · exact context_halt p _

theorem steps_afterChecks : (g.afterChecks p).steps = g.steps := by
  unfold afterChecks
  split
  · rfl
  · rfl

theorem steps_afterSteps : (g.afterSteps p).steps = g.steps := by
  unfold afterSteps
  split
  · exact steps_afterChecks p g
  · rfl

theorem steps_endStep (rest : List Step) (result : StepResult) (context : Bindings) :
    (g.endStep p rest result context).steps = g.steps ++ [result] := by
  unfold endStep
  simp only
  split
  · rfl
  · exact steps_afterSteps p _

theorem world_endStep (rest : List Step) (result : StepResult) (context : Bindings) :
    (g.endStep p rest result context).world = g.world := by
  unfold endStep halt afterSteps afterChecks
  simp only
  repeat' split
  all_goals rfl

/-- An attempt that fails leaves the bindings alone; one that passes adds to them. -/
theorem entries_prefix_endAttempt (t : Trial) (attempt : Attempt) :
    g.context.entries <+: (g.endAttempt p t attempt).context.entries := by
  unfold endAttempt
  cases attempt with
  | passed actions scope =>
    simp only
    rw [context_endStep]
    exact Bindings.entries_prefix_absorb g.context scope
  | failed actions cause =>
    simp only
    split
    · exact Bindings.entries_prefix_of_eq (context_endStep ..)
    · split
      · exact List.prefix_refl _
      · exact Bindings.entries_prefix_of_eq (context_endStep ..)

end Progress

/-- **One moment only adds to the bindings.** -/
theorem entries_prefix_next (p : Plan σ) (m : Moment σ) :
    m.context.entries <+: (m.next p).context.entries := by
  unfold Moment.next
  split
  · unfold Progress.nextSetup
    split
    · rw [Progress.context_endSetup]
      exact Bindings.entries_prefix_absorb _ _
    · split
      · rw [Progress.context_endSetup]
        exact Bindings.entries_prefix_absorb _ _
      · simp only
        split
        · exact List.prefix_refl _
        · rw [Progress.context_endSetup]
          exact Bindings.entries_prefix_absorb _ _
  · exact Bindings.entries_prefix_of_eq (Progress.context_afterSteps ..)
  · exact List.prefix_refl _
  · unfold Progress.nextAttempt
    split
    · exact Progress.entries_prefix_endAttempt p _ _ _
    · split
      · exact Progress.entries_prefix_endAttempt p _ _ _
      · exact List.prefix_refl _
  · unfold Progress.nextAct
    split
    · exact Progress.entries_prefix_endAttempt p _ _ _
    · split
      · rename_i s _
        exact Progress.entries_prefix_endAttempt p { m.toProgress with world := s } _ _
      · rename_i s _
        split
        · exact Progress.entries_prefix_endAttempt p { m.toProgress with world := s } _ _
        · exact List.prefix_refl _
  · unfold Progress.nextCheck
    split
    · exact Bindings.entries_prefix_of_eq (Progress.context_afterChecks ..)
    · exact List.prefix_refl _
  · unfold Progress.nextCleanup
    split
    · exact Bindings.entries_prefix_absorb _ _
    · exact List.prefix_refl _
  · exact List.prefix_refl _

namespace Definition

variable (backend : Backend σ) (options : RunOptions) (now : String) (d : Definition) (s : σ)

/-- **Bindings only grow during a run.** -/
theorem entries_prefix_moment {i j : Nat} (h : i ≤ j) :
    (d.moment backend options now s i).context.entries <+:
      (d.moment backend options now s j).context.entries := by
  induction h with
  | refl => exact List.prefix_refl _
  | step _ ih =>
    rw [moment_succ]
    exact ih.trans (entries_prefix_next _ _)

end Definition

/-! ## From the start of a step to its end -/

/-- The moments from `first` to `last` carry out a step, and come to its result. -/
structure CarriesOut (r : Runner σ) (moment : Nat → Moment σ) (step : Step) (first last : Nat)
    (result : StepResult) : Prop where
  ends : first < last
  recorded : (moment last).steps = (moment first).steps ++ [result]
  /-- Until the step ends, neither bindings nor results change. -/
  unchanged : ∀ k, first ≤ k → k < last → Unchanged (moment first).toProgress (moment k)
  failed : result.success = false → (moment last).context = (moment first).context
  /-- The attempt that passes, begun in between, adds what it has put out itself. -/
  passed : result.success = true → ∃ k t scope, first < k ∧ k < last ∧
    (moment k).task = .attempt t ∧ t.step = step ∧ t.number = result.attempts ∧
    r.attempt step (moment first).context (moment k).world =
      (.passed result.actions scope, (moment last).world) ∧
    result.actions.length = step.actions.length ∧
    (∀ action ∈ result.actions, action.success = true) ∧
    (moment last).context.entries = (moment first).context.entries ++
      Entries.fresh (moment first).context.names (Runner.outputs step result.actions)

/-- What follows from the last attempt at a step, begun at a moment of its own. -/
theorem carriesOut_of_lastAttempt {p : Plan σ} {moment : Nat → Moment σ} {first k last : Nat}
    {g : Progress σ} {w s' : σ} {t : Trial} {result : StepResult} {after : Bindings}
    (hfirst : (moment first).toProgress = g) (hk : moment k = ⟨{ g with world := w }, .attempt t⟩)
    (hlast : moment last = Progress.endStep p t.rest result after { g with world := s' })
    (hfk : first < k) (hkl : k < last)
    (hunchanged : ∀ i, first ≤ i → i < last → Unchanged g (moment i))
    (ht : t.number = result.attempts) (hworld : (p.runner.attempt t.step g.context w).2 = s')
    (hattempt : LastAttempt g.context result after (p.runner.attempt t.step g.context w).1) :
    CarriesOut p.runner moment t.step first last result := by
  subst hfirst
  have hcontext : (moment last).context = after := by
    rw [hlast, Progress.context_endStep]
  have hsteps : (moment last).steps = (moment first).steps ++ [result] := by
    rw [hlast, Progress.steps_endStep]
  have hend : (moment last).world = s' := by
    rw [hlast, Progress.world_endStep]
  refine ⟨Nat.lt_trans hfk hkl, hsteps, hunchanged, ?_, ?_⟩
  · intro hfailed
    rw [hcontext]
    exact hattempt.of_failure hfailed
  · intro hpassed
    obtain ⟨scope, hrun, -⟩ := hattempt.of_success hpassed
    have hrun : p.runner.attempt t.step (moment first).context w =
        (.passed result.actions scope, s') := Prod.ext hrun hworld
    obtain ⟨-, hlength, hall⟩ := Runner.attempt_passed hrun
    refine ⟨k, t, scope, hfk, hkl, by rw [hk], rfl, ht, ?_, hlength, hall, ?_⟩
    · rw [hk, hend]
      exact hrun
    · rw [hcontext, hattempt.bindings_eq, Bindings.entries_bindAll]
      unfold committed
      rw [if_pos hpassed]

namespace Definition

variable (backend : Backend σ) (options : RunOptions) (now : String) (d : Definition) (s : σ)

/-- A lead from one of the moments of a run goes through the moments that follow. -/
theorem exists_moment_of_leads {P : Moment σ → Prop} {m m' : Moment σ} {i : Nat}
    (hi : d.moment backend options now s i = m) (h : Leads (d.plan backend options s) P m m') :
    ∃ last, i ≤ last ∧ d.moment backend options now s last = m' ∧
      ∀ k, i ≤ k → k < last → P (d.moment backend options now s k) := by
  subst hi
  obtain ⟨n, rfl, hbefore⟩ := h
  refine ⟨i + n, Nat.le_add_right i n, moment_add .., ?_⟩
  intro k hik hk
  obtain ⟨k, rfl⟩ := Nat.exists_eq_add_of_le hik
  rw [moment_add]
  exact hbefore k (by omega)

/-- A step that begins is carried out. -/
theorem exists_carriesOut {i : Nat} {step : Step} {rest : List Step}
    (hi : (d.moment backend options now s i).task = .steps (step :: rest)) :
    ∃ last result, CarriesOut (options.runner backend s) (d.moment backend options now s) step i
      last result := by
  generalize hg : (d.moment backend options now s i).toProgress = g
  have hm : d.moment backend options now s i = ⟨g, .steps (step :: rest)⟩ := by
    rw [← hg, ← hi]
  obtain ⟨w, more, hfirst, hlast, hworld, hattempt⟩ :=
    leads_attempts (p := d.plan backend options s)
      ((d.plan backend options s).trial step rest g.world) g
  have hfirst := Leads.head (m := ⟨g, .steps (step :: rest)⟩) (P := Unchanged g) ⟨rfl, rfl⟩ hfirst
  obtain ⟨k, hik, hk, hbefore⟩ := exists_moment_of_leads backend options now d s hm hfirst
  obtain ⟨n, hkn, hn, hafter⟩ := exists_moment_of_leads backend options now d s hk hlast
  have hunchanged : ∀ j, i ≤ j → j < n → Unchanged g (d.moment backend options now s j) := by
    intro j hij hj
    rcases Nat.lt_or_ge j k with hjk | hjk
    · exact hbefore j hij hjk
    · exact hafter j hjk hj
  -- Neither lead is empty: the first ends at another task, the second at one more result.
  have hne : i ≠ k := by
    rintro rfl
    have htask := congrArg (fun m : Moment σ => m.task) (hm.symm.trans hk)
    cases htask
  have hne' : k ≠ n := by
    rintro rfl
    have hsteps := congrArg (fun m : Moment σ => m.steps) (hk.symm.trans hn)
    simp [Progress.steps_endStep] at hsteps
  have hcarries := carriesOut_of_lastAttempt hg hk hn (Nat.lt_of_le_of_ne hik hne)
    (Nat.lt_of_le_of_ne hkn hne') hunchanged rfl hworld hattempt
  exact ⟨n, _, hcarries⟩

/-- **A run is transactional.**  It is over after finitely many moments, having come to what
`Definition.run` gives.  Between any two moments bindings are only appended.  A step that begins
at a moment ends at a later one: a failed step leaves the bindings as they were, and a step that
passes appends what the attempt that passes puts out itself, as far as its names are free.  In the
end nothing is bound but the seeded names and what the results of the report put out. -/
theorem run_transactional :
    (∃ halted n, ∀ k, n ≤ k → d.moment backend options now s k =
      ⟨d.lastProgress backend options now s halted, .ended⟩) ∧
    (∀ i j, i ≤ j → (d.moment backend options now s i).context.entries <+:
      (d.moment backend options now s j).context.entries) ∧
    (∀ i step rest, (d.moment backend options now s i).task = .steps (step :: rest) →
      ∃ last result, CarriesOut (options.runner backend s) (d.moment backend options now s) step
        i last result) ∧
    (d.run backend options now s).bindings.entries =
      (Bindings.seeded d.setting now).entries ++ Entries.fresh (Bindings.seeded d.setting now).names
        (d.ledger (d.run backend options now s).report) := by
  refine ⟨exists_forall_moment_eq backend options now d s, ?_, ?_, ?_⟩
  · intro i j hij
    exact entries_prefix_moment backend options now d s hij
  · intro i step rest hi
    exact exists_carriesOut backend options now d s hi
  · rw [bindings_run, Bindings.entries_bindAll]

end Definition

end ProcessTest
