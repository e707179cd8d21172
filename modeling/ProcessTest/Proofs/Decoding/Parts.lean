import Mathlib.Data.List.Forall2
import ProcessTest.Proofs.Decoding.Success

/-!
# What a part was read from

A record that has been read out of a map has each of its fields from a field of that map.

* `Setting.ReadFrom`, `Action.ReadFrom`, `Step.ReadFrom`, `Definition.ReadFrom` — the reading of
  each field, with the default that stands in for it.
* `Operation.ReadFrom` — the kind of an operation and the reading of its payload.
* `items_eq_ok_iff` — a list is read item by item.
-/

set_option autoImplicit false

namespace ProcessTest

open Decode

theorem Decode.items_eq_ok_iff {α : Type} {read : Value → Decoded α} {vs : List Value}
    {as : List α} :
    items read vs = .ok as ↔ List.Forall₂ (fun v a => read v = .ok a) vs as := by
  induction vs generalizing as with
  | nil =>
    constructor
    · intro h; cases h; exact .nil
    · intro h; cases h; rfl
  | cons v rest ih =>
    simp only [items, bind_eq_ok_iff]
    constructor
    · rintro ⟨a, ha, more, hmore, h⟩
      cases h
      exact .cons ha (ih.1 hmore)
    · intro h
      cases h with
      | cons ha hmore => exact ⟨_, ha, _, ih.2 hmore, rfl⟩

/-- The fields that a setting was read from. -/
structure Setting.ReadFrom (part : Entries) (s : Setting) : Prop where
  tenant : optional part "tenant" asText = .ok s.tenant
  organization : required part "organization_id" asText = .ok s.organization
  currency : defaulted part "currency" "USD" asText = .ok s.currency
  locale : defaulted part "locale" "en-US" asText = .ok s.locale
  fiscalYear : optional part "fiscal_year" asInt32 = .ok s.fiscalYear
  clock : optional part "clock" asText = .ok s.clock

theorem Setting.readFrom_of_decode {part : Entries} {s : Setting}
    (h : Setting.decode (.map part) = .ok s) : s.ReadFrom part := by
  simp only [Setting.decode, bind_eq_ok_iff] at h
  obtain ⟨_, hr, _, h₁, _, h₂, _, h₃, _, h₄, _, h₅, _, h₆, h⟩ := h
  cases hr
  cases h
  exact ⟨h₁, h₂, h₃, h₄, h₅, h₆⟩

/-- The kind and the payload that an operation was read from. -/
inductive Operation.ReadFrom (part : Entries) : String → Operation → Prop
  | entity {p : NewEntity} (h : NewEntity.decode (.map part) = .ok p) :
      ReadFrom part "create_entity" (.entity p)
  | transaction {p : NewTransaction} (h : NewTransaction.decode (.map part) = .ok p) :
      ReadFrom part "create_transaction" (.transaction p)
  | relationship {p : NewRelationship} (h : NewRelationship.decode (.map part) = .ok p) :
      ReadFrom part "create_relationship" (.relationship p)
  | field {p : NewField} (h : NewField.decode (.map part) = .ok p) :
      ReadFrom part "set_dynamic_field" (.field p)
  | interaction {p : Interaction} (h : Interaction.decode (.map part) = .ok p) :
      ReadFrom part "ui_interaction" (.interaction p)
  | request {p : Request} (h : Request.decode (.map part) = .ok p) :
      ReadFrom part "api_call" (.request p)
  | wait {ms : Nat} (h : decodeWait (.map part) = .ok ms) : ReadFrom part "wait" (.wait ms)

theorem Operation.readFrom_of_decodeKind {part : Entries} {kind : String} {o : Operation}
    (h : Operation.decodeKind kind (.map part) = .ok o) : o.ReadFrom part kind := by
  unfold Operation.decodeKind at h
  split at h
  · obtain ⟨p, hp, rfl⟩ := map_eq_ok_iff.1 h
    exact .entity hp
  · obtain ⟨p, hp, rfl⟩ := map_eq_ok_iff.1 h
    exact .transaction hp
  · obtain ⟨p, hp, rfl⟩ := map_eq_ok_iff.1 h
    exact .relationship hp
  · obtain ⟨p, hp, rfl⟩ := map_eq_ok_iff.1 h
    exact .field hp
  · obtain ⟨p, hp, rfl⟩ := map_eq_ok_iff.1 h
    exact .interaction hp
  · obtain ⟨p, hp, rfl⟩ := map_eq_ok_iff.1 h
    exact .request hp
  · obtain ⟨ms, hms, rfl⟩ := map_eq_ok_iff.1 h
    exact .wait hms
  · cases h

/-- The fields that an action was read from. -/
structure Action.ReadFrom (part : Entries) (a : Action) : Prop where
  operation : Operation.decode .inside (.map part) = .ok a.operation
  persona : optional part "persona" asText = .ok a.persona
  storeAs : optional part "store_as" asText = .ok a.storeAs
  description : optional part "description" asText = .ok a.description

theorem Action.readFrom_of_decode {part : Entries} {a : Action}
    (h : Action.decode (.map part) = .ok a) : a.ReadFrom part := by
  simp only [Action.decode, bind_eq_ok_iff] at h
  obtain ⟨_, h₁, _, h₂, _, h₃, _, h₄, h⟩ := h
  cases h
  exact ⟨h₁, h₂, h₃, h₄⟩

/-- The fields that a step was read from. -/
structure Step.ReadFrom (part : Entries) (s : Step) : Prop where
  id : required part "id" asText = .ok s.id
  description : defaulted part "description" "" asText = .ok s.description
  persona : required part "persona" asText = .ok s.persona
  actions : required part "actions" (asList Action.decode) = .ok s.actions
  preconditions : defaulted part "preconditions" [] (asList asText) = .ok s.preconditions
  postconditions : defaulted part "postconditions" [] (asList asText) = .ok s.postconditions
  timeout : defaulted part "timeout" Step.defaultTimeout (asNat 64) = .ok s.timeout
  retry : defaulted part "retry" 0 (asNat 32) = .ok s.retry

theorem Step.readFrom_of_decode {part : Entries} {s : Step}
    (h : Step.decode (.map part) = .ok s) : s.ReadFrom part := by
  simp only [Step.decode, bind_eq_ok_iff] at h
  obtain ⟨_, hr, _, h₁, _, h₂, _, h₃, _, h₄, _, h₅, _, h₆, _, h₇, _, h₈, h⟩ := h
  cases hr
  cases h
  exact ⟨h₁, h₂, h₃, h₄, h₅, h₆, h₇, h₈⟩

/-- The fields that a definition was read from. -/
structure Definition.ReadFrom (root : Entries) (d : Definition) : Prop where
  version : defaulted root "version" "1.0" asText = .ok d.version
  id : required root "id" asText = .ok d.id
  title : required root "title" asText = .ok d.title
  industry : defaulted root "industry" "general" asText = .ok d.industry
  description : optional root "description" asText = .ok d.description
  setting : required root "context" Setting.decode = .ok d.setting
  personas : required root "personas" (asMap Persona.decode) = .ok d.personas
  setup : defaulted root "setup" [] (asList Action.decode) = .ok d.setup
  steps : required root "steps" (asList Step.decode) = .ok d.steps
  cleanup : defaulted root "cleanup" [] (asList Action.decode) = .ok d.cleanup
  assertions : defaulted root "assertions" [] (asList Assertion.decode) = .ok d.assertions
  metadata : defaulted root "metadata" Metadata.default Metadata.decode = .ok d.metadata
  policy : defaulted root "policy" Policy.default Policy.decode = .ok d.policy

theorem Definition.readFrom_of_decode {root : Entries} {d : Definition}
    (h : Definition.decode (.map root) = .ok d) : d.ReadFrom root := by
  simp only [Definition.decode, bind_eq_ok_iff] at h
  obtain ⟨_, hr, _, h₁, _, h₂, _, h₃, _, h₄, _, h₅, _, h₆, _, h₇, _, h₈, _, h₉, _, h₁₀, _, h₁₁,
    _, h₁₂, _, h₁₃, h⟩ := h
  cases hr
  cases h
  exact ⟨h₁, h₂, h₃, h₄, h₅, h₆, h₇, h₈, h₉, h₁₀, h₁₁, h₁₂, h₁₃⟩

end ProcessTest
