import ProcessTest.Proofs.Encoding.Actions

/-!
# Steps that are written back

A step without faults that has been read is written as one without faults, which is read as the
same and claims the same names.

* `restore_actions` — the actions in a field.
* `restore_step` — whole steps; `restore_steps` — the steps of a document.
-/

set_option autoImplicit false

namespace ProcessTest.Validation

open Decode

section Actions

variable {personas names : List String} {path field : String} {part e : Entries}

/-- The actions in a field have no faults once written, and claim the same names. -/
theorem restore_actions {actions : List Action}
    (h : (checkActions personas path field names part).1 = [])
    (hread : defaulted part field [] (asList Action.decode) = .ok actions)
    (he : Entries.get? field e = some (.list (actions.map Action.encode))) :
    checkActions personas path field names e =
      ([], (checkActions personas path field names part).2) := by
  unfold checkActions at h ⊢
  simp only [he]
  unfold defaulted at hread
  split at hread
  · rename_i v hg
    cases v with
    | list vs =>
      simp only [hg] at h ⊢
      exact (restore_each restore_action h hread).1
    | _ => cases hread
  · rename_i hg
    cases hread
    simp only [hg]
    rfl

theorem Restores.actions (h : (checkActions personas path field names part).1 = []) :
    Restores part field .list (asList Action.decode) fun as => .list (as.map Action.encode) := by
  intro v actions hg _ haccepts hread
  obtain ⟨vs, rfl⟩ := list_of_accepts haccepts
  simp only [checkActions, hg] at h
  exact ⟨nofun, rfl, (restore_each restore_action h hread).2⟩

end Actions

section Steps

theorem restore_step {personas : List String} (path : String) (names : List String) (v : Value)
    (step : Step)
    (h : (checkStep personas path names v).1 = []) (hread : Step.decode v = .ok step) :
    checkStep personas path names step.encode = ([], (checkStep personas path names v).2) ∧
      Step.decode step.encode = .ok step := by
  have hwell := wellFormed_of_checkStep h hread
  obtain ⟨part, rfl, hpart, hnames⟩ := faultless_of_checkStep h
  have hread := Step.readFrom_of_decode hread
  have hm := hpart.table
  obtain ⟨e, he⟩ : ∃ e, e = written step.encode := ⟨_, rfl⟩
  have hencode : step.encode = .map e := by rw [he]; rfl
  have hid : Entries.get? "id" e = some (.text step.id) := by rw [he]; rfl
  have hpersona : Entries.get? "persona" e = some (.text step.persona) := by rw [he]; rfl
  have hlist : Entries.get? "actions" e = some (.list (step.actions.map Action.encode)) := by
    rw [he]; rfl
  have htimeout : Entries.get? "timeout" e = some (.ofNat step.timeout) := by
    simp [he, Step.encode, Entries.get?]
  have hretry : Entries.get? "retry" e = some (.ofNat step.retry) := by
    simp [he, Step.encode, Entries.get?]
  obtain ⟨m₁, r₁⟩ := hm.restore_required e (by decide) hread.id Keeps.name.restores hid
  obtain ⟨m₂, r₂⟩ := hm.restore_defaulted e (by decide) (by decide) hread.description
    Keeps.text.restores ⟨by simp, rfl, rfl⟩ (by rw [he]; rfl)
  obtain ⟨m₃, r₃⟩ := hm.restore_required e (by decide) hread.persona Keeps.name.restores hpersona
  obtain ⟨m₄, r₄⟩ := hm.restore_required e (by decide) hread.actions (.actions hpart.actions) hlist
  obtain ⟨m₅, r₅⟩ := hm.restore_omitted e (by decide) (by decide) hread.preconditions
    Keeps.texts.restores (fun hnil => by simp [he, Step.encode, Entries.get?, hnil])
    (fun hcons => by simp [he, Step.encode, Entries.get?, hcons, Encode.texts])
  obtain ⟨m₆, r₆⟩ := hm.restore_omitted e (by decide) (by decide) hread.postconditions
    Keeps.texts.restores (fun hnil => by simp [he, Step.encode, Entries.get?, hnil])
    (fun hcons => by simp [he, Step.encode, Entries.get?, hcons, Encode.texts])
  obtain ⟨m₇, r₇⟩ := hm.restore_defaulted e (by decide) (by decide) hread.timeout
    (Keeps.count 64).restores ⟨by simp [Value.ofNat], rfl, rfl⟩ htimeout
  obtain ⟨m₈, r₈⟩ := hm.restore_defaulted e (by decide) (by decide) hread.retry
    (Keeps.count 32).restores ⟨by simp [Value.ofNat], rfl, rfl⟩ hretry
  have hfields : checkFields path e stepFields "a step" = [] := by
    refine checkFields_eq_nil ?_ ?_
    · simp only [stepFields, meets_cons, meets_nil, and_true]
      exact ⟨m₁, m₂, m₃, m₄, m₅, m₆, m₇, m₈⟩
    · simp [he, Step.encode, stepFields, need, may]
  have hclaim : claim path e "id" "step id" names = claim path part "id" "step id" names :=
    claim_congr (hid.trans (get?_of_required hread.id).symm) _ _
  have href : checkPersonaRef personas path e = [] := by
    rw [checkPersonaRef_congr (hpersona.trans (get?_of_required hread.persona).symm)]
    exact hpart.persona
  have hactions := restore_actions hpart.actions (defaulted_of_required hread.actions) hlist
  have hpositive : step.timeout ≠ 0 := Nat.one_le_iff_ne_zero.1 hwell.timeout
  have hfew : ¬ Step.maxRetry < step.retry := Nat.not_lt.2 hwell.retry
  rw [hencode, hnames]
  refine ⟨?_, ?_⟩
  · simp [checkStep, hfields, hclaim, hpart.claimed, href, hactions, onNat, htimeout, hretry,
      onList, hlist, Value.ofNat, Value.natural?, hpositive, hfew, hwell.nonempty]
  · simp only [Step.decode, bind_eq_ok_iff]
    exact ⟨_, rfl, _, r₁, _, r₂, _, r₃, _, r₄, _, r₅, _, r₆, _, r₇, _, r₈, rfl⟩

end Steps

section Documents

variable {personas names : List String} {root e : Entries}

/-- The steps of a document have no faults once written, and claim the same names. -/
theorem restore_steps {steps : List Step} (h : (checkSteps personas names root).1 = [])
    (hread : required root "steps" (asList Step.decode) = .ok steps)
    (he : Entries.get? "steps" e = some (.list (steps.map Step.encode))) :
    checkSteps personas names e = ([], (checkSteps personas names root).2) := by
  obtain ⟨hnonempty, -⟩ := wellFormed_of_checkSteps h hread
  obtain ⟨v, hg, hsteps⟩ := exists_of_required hread
  cases v with
  | list vs =>
    cases vs with
    | nil => simp [checkSteps, hg] at h
    | cons v rest =>
      cases steps with
      | nil => exact absurd rfl hnonempty
      | cons step more =>
        simp only [checkSteps, hg] at h
        simp only [checkSteps, hg, he, List.map_cons]
        exact (restore_each restore_step h hsteps).1
  | _ => cases hsteps

theorem Restores.steps (h : (checkSteps personas names root).1 = []) :
    Restores root "steps" .list (asList Step.decode) fun steps =>
      .list (steps.map Step.encode) := by
  intro v steps hg _ haccepts hread
  obtain ⟨vs, rfl⟩ := list_of_accepts haccepts
  cases vs with
  | nil => simp [checkSteps, hg] at h
  | cons v rest =>
    simp only [checkSteps, hg] at h
    exact ⟨nofun, rfl, (restore_each restore_step h hread).2⟩

end Documents

end ProcessTest.Validation
