import ProcessTest.Proofs.Encoding.Assertions
import ProcessTest.Proofs.Encoding.Steps

/-!
# Definitions are written back

The tree that is written for a parsed definition is a document of its own: it has no faults, and
parsing it gives the definition again.  Defaults that the first document has left out are written,
and fields that are null or empty in it are left out.

* `RestoredPart` — a part of a document that is checked as a whole and written back.
* `restore_setting`, `restore_personas`, `restore_metadata`, `restore_policy` — the parts beside
  actions, steps and assertions.
* `parse_encode` — whole definitions.
-/

set_option autoImplicit false

namespace ProcessTest.Validation

open Decode

/-! ## Parts that are checked as a whole -/

/-- What is written for a part is a map without faults, which is read as the part. -/
structure RestoredPart {α : Type} (check : Entries → List Fault) (read : Value → Decoded α)
    (write : α → Value) (a : α) : Prop where
  write_eq : write a = .map (written (write a))
  check : check (written (write a)) = []
  read : read (write a) = .ok a

section Parts

variable {α : Type} {check : Entries → List Fault} {read : Value → Decoded α} {write : α → Value}
  {a : α} {root e : Entries} {table : List Field} {name : String}

theorem RestoredPart.carries (h : RestoredPart check read write a) :
    Carries .map read write a := by
  refine ⟨?_, ?_, h.read⟩
  · rw [h.write_eq]
    exact nofun
  · rw [h.write_eq]
    rfl

theorem RestoredPart.onMap_eq_nil (h : RestoredPart check read write a)
    (he : Entries.get? name e = some (write a)) : onMap e name check = [] := by
  unfold onMap
  rw [he, h.write_eq]
  exact h.check

/-- A part that a document needs. -/
theorem restored_of_required
    (hr : ∀ part a, check part = [] → read (.map part) = .ok a → RestoredPart check read write a)
    (hm : Meets root table) (hf : need name .map ∈ table) (h : onMap root name check = [])
    (hread : required root name read = .ok a) : RestoredPart check read write a := by
  obtain ⟨v, hg, hv⟩ := exists_of_required hread
  obtain ⟨part, rfl⟩ := map_of_accepts (hm.accepts ⟨true, hf⟩ nofun hg).2
  exact hr part a (by simpa only [onMap, hg] using h) hv

/-- A part that has a default. -/
theorem restored_of_defaulted {default : α}
    (hr : ∀ part a, check part = [] → read (.map part) = .ok a → RestoredPart check read write a)
    (hdefault : RestoredPart check read write default) (hm : Meets root table)
    (hf : may name .map ∈ table) (h : onMap root name check = [])
    (hread : defaulted root name default read = .ok a) : RestoredPart check read write a := by
  unfold defaulted at hread
  split at hread
  · rename_i v hg
    obtain ⟨part, rfl⟩ := map_of_accepts (hm.accepts ⟨false, hf⟩ nofun hg).2
    exact hr part a (by simpa only [onMap, hg] using h) hread
  · cases hread
    exact hdefault

end Parts

theorem restore_setting (part : Entries) (s : Setting) (h : checkSetting part = [])
    (hread : Setting.decode (.map part) = .ok s) :
    RestoredPart checkSetting Setting.decode Setting.encode s := by
  obtain ⟨hfields, hclock⟩ := List.append_eq_nil_iff.1 h
  have hm := meets_of_checkFields hfields
  have hread := Setting.readFrom_of_decode hread
  obtain ⟨e, he⟩ : ∃ e, e = written s.encode := ⟨_, rfl⟩
  have hencode : s.encode = .map e := by rw [he]; rfl
  have hget : Entries.get? "clock" e = s.clock.map .text := by
    simp [he, Setting.encode, Entries.get?]
  obtain ⟨m₁, r₁⟩ := hm.restore_optional e (by decide) hread.tenant Keeps.name.restores
    (by simp [he, Setting.encode, Entries.get?])
  obtain ⟨m₂, r₂⟩ := hm.restore_required e (by decide) hread.organization Keeps.name.restores
    (by simp [he, Setting.encode, Entries.get?])
  obtain ⟨m₃, r₃⟩ := hm.restore_defaulted e (by decide) (by decide) hread.currency
    Keeps.name.restores ⟨by simp, by decide, rfl⟩ (by simp [he, Setting.encode, Entries.get?])
  obtain ⟨m₄, r₄⟩ := hm.restore_defaulted e (by decide) (by decide) hread.locale
    Keeps.name.restores ⟨by simp, by decide, rfl⟩ (by simp [he, Setting.encode, Entries.get?])
  obtain ⟨m₅, r₅⟩ := hm.restore_optional e (by decide) hread.fiscalYear Keeps.year.restores
    (by simp [he, Setting.encode, Entries.get?])
  obtain ⟨m₆, r₆⟩ := hm.restore_optional e (by decide) hread.clock Keeps.name.restores hget
  refine ⟨rfl, ?_, ?_⟩
  · rw [← he, checkSetting]
    refine List.append_eq_nil_iff.2 ⟨checkFields_eq_nil ?_ ?_, ?_⟩
    · simp only [settingFields, meets_cons, meets_nil, and_true]
      exact ⟨m₁, m₂, m₃, m₄, m₅, m₆⟩
    · simp [he, Setting.encode, settingFields, need, may]
    · rw [onText_congr (hget.trans
        (hm.get?_of_optional (by decide) (by decide) hread.clock Keeps.name).symm)]
      exact hclock
  · rw [hencode]
    simp only [Setting.decode, bind_eq_ok_iff]
    exact ⟨_, rfl, _, r₁, _, r₂, _, r₃, _, r₄, _, r₅, _, r₆, rfl⟩

theorem restore_metadata (part : Entries) (m : Metadata) (h : checkMetadata part = [])
    (hread : Metadata.decode (.map part) = .ok m) :
    RestoredPart checkMetadata Metadata.decode Metadata.encode m := by
  have hm := meets_of_checkFields (List.append_eq_nil_iff.1 h).1
  obtain ⟨e, he⟩ : ∃ e, e = written m.encode := ⟨_, rfl⟩
  have hencode : m.encode = .map e := by rw [he]; rfl
  have hpriority : checkChoice "metadata" e "priority" (Priority.all.map Priority.name) = [] := by
    refine checkChoice_eq_nil (a := some m.priority) (by rw [he]; rfl) ?_
    intro priority
    cases priority <;> decide
  simp only [Metadata.decode, bind_eq_ok_iff] at hread
  obtain ⟨_, hr, _, h₁, _, h₂, _, h₃, hread⟩ := hread
  cases hr
  cases hread
  obtain ⟨m₁, r₁⟩ := hm.restore_defaulted e (by decide) (by decide) h₁ Keeps.texts.restores
    ⟨nofun, rfl, rfl⟩ (by rw [he]; rfl)
  obtain ⟨m₂, r₂⟩ := hm.restore_defaulted e (by decide) (by decide) h₂ Keeps.choice.restores
    ⟨nofun, by decide, rfl⟩ (by rw [he]; rfl)
  obtain ⟨m₃, r₃⟩ := hm.restore_defaulted e (by decide) (by decide) h₃ Keeps.texts.restores
    ⟨nofun, rfl, rfl⟩ (by rw [he]; rfl)
  refine ⟨rfl, ?_, ?_⟩
  · rw [← he, checkMetadata]
    refine List.append_eq_nil_iff.2 ⟨checkFields_eq_nil ?_ ?_, hpriority⟩
    · simp only [metadataFields, meets_cons, meets_nil, and_true]
      exact ⟨m₁, m₂, m₃⟩
    · simp [he, Metadata.encode, metadataFields, may]
  · rw [hencode]
    simp only [Metadata.decode, bind_eq_ok_iff]
    exact ⟨_, rfl, _, r₁, _, r₂, _, r₃, rfl⟩

theorem restore_policy (part : Entries) (p : Policy) (h : checkPolicy part = [])
    (hread : Policy.decode (.map part) = .ok p) :
    RestoredPart checkPolicy Policy.decode Policy.encode p := by
  have hm := meets_of_checkFields (List.append_eq_nil_iff.1 h).1
  obtain ⟨e, he⟩ : ∃ e, e = written p.encode := ⟨_, rfl⟩
  have hencode : p.encode = .map e := by rw [he]; rfl
  have hfailure : checkChoice "policy" e "failure" (FailurePolicy.all.map FailurePolicy.name) =
      [] := by
    refine checkChoice_eq_nil (a := some p.failure) (by rw [he]; rfl) ?_
    intro failure
    cases failure <;> decide
  simp only [Policy.decode, bind_eq_ok_iff] at hread
  obtain ⟨_, hr, _, h₁, _, h₂, hread⟩ := hread
  cases hr
  cases hread
  obtain ⟨m₁, r₁⟩ := hm.restore_defaulted e (by decide) (by decide) h₁ Keeps.choice.restores
    ⟨nofun, by decide, rfl⟩ (by rw [he]; rfl)
  obtain ⟨m₂, r₂⟩ := hm.restore_defaulted e (by decide) (by decide) h₂ Keeps.bool.restores
    ⟨nofun, rfl, rfl⟩ (by rw [he]; rfl)
  refine ⟨rfl, ?_, ?_⟩
  · rw [← he, checkPolicy]
    refine List.append_eq_nil_iff.2 ⟨checkFields_eq_nil ?_ ?_, hfailure⟩
    · simp only [policyFields, meets_cons, meets_nil, and_true]
      exact ⟨m₁, m₂⟩
    · simp [he, Policy.encode, policyFields, may]
  · rw [hencode]
    simp only [Policy.decode, bind_eq_ok_iff]
    exact ⟨_, rfl, _, r₁, _, r₂, rfl⟩

/-! ## Personas -/

theorem restore_persona {name : String} {v : Value} {p : Persona}
    (h : checkPersona (name, v) = []) (hread : Persona.decode v = .ok p) :
    checkPersona (name, p.encode) = [] ∧ Persona.decode p.encode = .ok p := by
  cases v with
  | map part =>
    have hm := meets_of_checkFields h
    obtain ⟨e, he⟩ : ∃ e, e = written p.encode := ⟨_, rfl⟩
    have hencode : p.encode = .map e := by rw [he]; rfl
    rw [hencode]
    simp only [Persona.decode, bind_eq_ok_iff] at hread ⊢
    obtain ⟨_, hr, _, h₁, _, h₂, hread⟩ := hread
    cases hr
    cases hread
    obtain ⟨m₁, r₁⟩ := hm.restore_required e (by decide) h₁ Keeps.name.restores (by rw [he]; rfl)
    obtain ⟨m₂, r₂⟩ := hm.restore_defaulted e (by decide) (by decide) h₂ Keeps.texts.restores
      ⟨nofun, rfl, rfl⟩ (by rw [he]; rfl)
    refine ⟨checkFields_eq_nil ?_ ?_, _, rfl, _, r₁, _, r₂, rfl⟩
    · simp only [personaFields, meets_cons, meets_nil, and_true]
      exact ⟨m₁, m₂⟩
    · simp [he, Persona.encode, personaFields, need, may]
  | _ => simp [checkPersona] at h

theorem restore_personas (part : Entries) (personas : List (String × Persona))
    (h : checkPersonas part = []) (hread : asMap Persona.decode (.map part) = .ok personas) :
    RestoredPart checkPersonas (asMap Persona.decode) (Encode.map Persona.encode) personas := by
  obtain ⟨hnonempty, hall⟩ := List.append_eq_nil_iff.1 h
  obtain ⟨hfaults, hdecode⟩ := restore_entries (fun _ _ _ => restore_persona) hall hread
  refine ⟨rfl, List.append_eq_nil_iff.2 ⟨?_, hfaults⟩, hdecode⟩
  cases personas with
  | nil =>
    have hkeys : part.map Prod.fst = [] := (keys_of_entries hread).symm
    rw [List.map_eq_nil_iff.1 hkeys] at hnonempty
    cases hnonempty
  | cons persona rest => rfl

/-! ## Documents -/

/-- The fields of a document hold what is written for a definition. -/
structure WrittenIn (e : Entries) (d : Definition) : Prop where
  version : Entries.get? "version" e = some (.text d.version)
  id : Entries.get? "id" e = some (.text d.id)
  title : Entries.get? "title" e = some (.text d.title)
  industry : Entries.get? "industry" e = some (.text d.industry)
  description : Entries.get? "description" e = d.description.map .text
  setting : Entries.get? "context" e = some d.setting.encode
  personas : Entries.get? "personas" e = some (Encode.map Persona.encode d.personas)
  setup : Entries.get? "setup" e = some (.list (d.setup.map Action.encode))
  steps : Entries.get? "steps" e = some (.list (d.steps.map Step.encode))
  cleanup : Entries.get? "cleanup" e = some (.list (d.cleanup.map Action.encode))
  assertions : Entries.get? "assertions" e = some (.list (d.assertions.map Assertion.encode))
  metadata : Entries.get? "metadata" e = some d.metadata.encode
  policy : Entries.get? "policy" e = some d.policy.encode

theorem writtenIn_encode (d : Definition) : WrittenIn (written d.encode) d := by
  constructor
  all_goals simp [Definition.encode, Entries.get?]

theorem within_definition (d : Definition) :
    Within (rootFields.map Field.name) (written d.encode) := by
  simp [Definition.encode, rootFields, need, may]

section Documents

variable {root e : Entries} {d : Definition}

/-! Each part of a document without faults is written back. -/

theorem setting_restored (h : FaultlessRoot root) (hd : d.ReadFrom root) :
    RestoredPart checkSetting Setting.decode Setting.encode d.setting :=
  restored_of_required restore_setting h.table (by decide) h.setting hd.setting

theorem personas_restored (h : FaultlessRoot root) (hd : d.ReadFrom root) :
    RestoredPart checkPersonas (asMap Persona.decode) (Encode.map Persona.encode) d.personas :=
  restored_of_required restore_personas h.table (by decide) h.personas hd.personas

theorem metadata_restored (h : FaultlessRoot root) (hd : d.ReadFrom root) :
    RestoredPart checkMetadata Metadata.decode Metadata.encode d.metadata :=
  restored_of_defaulted restore_metadata ⟨rfl, by decide, rfl⟩ h.table (by decide) h.metadata
    hd.metadata

theorem policy_restored (h : FaultlessRoot root) (hd : d.ReadFrom root) :
    RestoredPart checkPolicy Policy.decode Policy.encode d.policy :=
  restored_of_defaulted restore_policy ⟨rfl, by decide, rfl⟩ h.table (by decide) h.policy hd.policy

/-- The rows of the document that is written have no problems, and are read as before. -/
theorem restore_root (h : FaultlessRoot root) (hd : d.ReadFrom root) (he : WrittenIn e d) :
    Meets e rootFields ∧ Definition.decode (.map e) = .ok d := by
  have hm := h.table
  obtain ⟨m₁, r₁⟩ := hm.restore_defaulted e (by decide) (by decide) hd.version
    Keeps.name.restores ⟨nofun, by decide, rfl⟩ he.version
  obtain ⟨m₂, r₂⟩ := hm.restore_required e (by decide) hd.id Keeps.name.restores he.id
  obtain ⟨m₃, r₃⟩ := hm.restore_required e (by decide) hd.title Keeps.name.restores he.title
  obtain ⟨m₄, r₄⟩ := hm.restore_defaulted e (by decide) (by decide) hd.industry
    Keeps.name.restores ⟨nofun, by decide, rfl⟩ he.industry
  obtain ⟨m₅, r₅⟩ := hm.restore_optional e (by decide) hd.description Keeps.text.restores
    he.description
  obtain ⟨m₆, r₆⟩ := (setting_restored h hd).carries.required e he.setting
  obtain ⟨m₇, r₇⟩ := (personas_restored h hd).carries.required e he.personas
  obtain ⟨m₈, r₈⟩ := hm.restore_defaulted e (by decide) (by decide) hd.setup (.actions h.setup)
    ⟨nofun, rfl, rfl⟩ he.setup
  obtain ⟨m₉, r₉⟩ := hm.restore_required e (by decide) hd.steps (.steps h.steps) he.steps
  obtain ⟨m₁₀, r₁₀⟩ := hm.restore_defaulted e (by decide) (by decide) hd.cleanup
    (.actions h.cleanup) ⟨nofun, rfl, rfl⟩ he.cleanup
  obtain ⟨m₁₁, r₁₁⟩ := hm.restore_defaulted e (by decide) (by decide) hd.assertions
    (.list h.assertions restore_assertion) ⟨nofun, rfl, rfl⟩ he.assertions
  obtain ⟨m₁₂, r₁₂⟩ := (metadata_restored h hd).carries.defaulted e Metadata.default he.metadata
  obtain ⟨m₁₃, r₁₃⟩ := (policy_restored h hd).carries.defaulted e Policy.default he.policy
  refine ⟨?_, ?_⟩
  · simp only [rootFields, meets_cons, meets_nil, and_true]
    exact ⟨m₁, m₂, m₃, m₄, m₅, m₆, m₇, m₈, m₉, m₁₀, m₁₁, m₁₂, m₁₃⟩
  · simp only [Definition.decode, bind_eq_ok_iff]
    exact ⟨_, rfl, _, r₁, _, r₂, _, r₃, _, r₄, _, r₅, _, r₆, _, r₇, _, r₈, _, r₉, _, r₁₀, _, r₁₁,
      _, r₁₂, _, r₁₃, rfl⟩

/-- The personas that are written are those that have been read. -/
theorem personaNames_eq (h : FaultlessRoot root) (hd : d.ReadFrom root) (he : WrittenIn e d) :
    personaNames e = personaNames root := by
  rw [← (personas_of_faultless h hd).2]
  simp only [personaNames, he.personas, Encode.map, List.map_map]
  rfl

theorem checkVersion_eq_nil (h : FaultlessRoot root) (hd : d.ReadFrom root) (he : WrittenIn e d) :
    checkVersion e = [] := by
  simp [checkVersion, onText, he.version, version_of_faultless h hd]

/-- The document that is written has no faults: the checks of its parts claim the same names one
after the other. -/
theorem checkRoot_eq_nil (h : FaultlessRoot root) (hd : d.ReadFrom root) (he : WrittenIn e d)
    (hw : Within (rootFields.map Field.name) e) : checkRoot e = [] := by
  have hfields : checkFields "" e rootFields "the document" = [] :=
    checkFields_eq_nil (restore_root h hd he).1 hw
  have hsetup := restore_actions h.setup hd.setup he.setup
  have hsteps := restore_steps h.steps hd.steps he.steps
  have hcleanup := restore_actions h.cleanup hd.cleanup he.cleanup
  have hassertions : onList e "assertions" (checkItems checkAssertion "assertions" 0) = [] := by
    refine onList_restored restore_assertion h.assertions hd.assertions ?_
    simp [he.assertions]
  simp only [checkRoot, personaNames_eq h hd he, hsetup, hsteps, hcleanup, hfields,
    checkVersion_eq_nil h hd he, (setting_restored h hd).onMap_eq_nil he.setting,
    (personas_restored h hd).onMap_eq_nil he.personas, hassertions,
    (metadata_restored h hd).onMap_eq_nil he.metadata,
    (policy_restored h hd).onMap_eq_nil he.policy, List.append_nil]

/-- **Parsed definitions are written back**: what is written for a parsed definition is a document
without faults, which parses to the definition again; writing after parsing changes nothing the
second time. -/
theorem parse_encode {v : Value} (h : parse v = .ok d) :
    validate d.encode = [] ∧ parse d.encode = .ok d ∧
      (parse d.encode).map Definition.encode = .ok d.encode := by
  obtain ⟨hfaults, hread⟩ := parse_eq_ok_iff.1 h
  obtain ⟨root, rfl, hroot⟩ := faultless_of_validate hfaults
  have hd := Definition.readFrom_of_decode hread
  have he := writtenIn_encode d
  have hvalid : validate d.encode = [] := checkRoot_eq_nil hroot hd he (within_definition d)
  have hparse : parse d.encode = .ok d :=
    parse_eq_ok_iff.2 ⟨hvalid, (restore_root hroot hd he).2⟩
  refine ⟨hvalid, hparse, ?_⟩
  rw [hparse]
  rfl

/-- The order of a guest names no version; what is written for it does. -/
theorem parse_encode_orderDocument : ∃ d, parse orderDocument = .ok d ∧
    validate d.encode = [] ∧ parse d.encode = .ok d ∧ d.encode ≠ orderDocument := by
  have hsome : (parse orderDocument).toOption.isSome = true := by decide +kernel
  cases h : parse orderDocument with
  | ok d =>
    obtain ⟨hvalid, hparse, -⟩ := parse_encode h
    refine ⟨d, rfl, hvalid, hparse, fun heq => ?_⟩
    have hversion : some (.text d.version) = orderDocument.field? "version" :=
      congrArg (Value.field? "version") heq
    cases hversion
  | error e =>
    rw [h] at hsome
    cases hsome

end Documents

end ProcessTest.Validation
