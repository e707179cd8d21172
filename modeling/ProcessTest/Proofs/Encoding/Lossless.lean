import ProcessTest.Proofs.Encoding.Assertions

/-!
# Encoding loses nothing

Whatever has been read, with faults or without, is encoded in a form that is read as the same:
nothing of it gets lost, and no default gets in its place.

* `Lossless` — a way to write what a reader reads; there is an instance for each kind of field.
* `Lossless.required`, `optional`, `defaulted`, `omitted` — the fields of a record, once written.
* `lossless_action`, `lossless_assertion`, `lossless_definition` — the parts of a definition.
* `decode_encode` — whole definitions; `encode_injective` — no two have one encoding.
-/

set_option autoImplicit false

namespace ProcessTest

open Decode

namespace Decode

/-- What a reader reads is written in a form that is read as the same, and is null only if it has
been. -/
structure Lossless {α : Type} (read : Value → Decoded α) (write : α → Value) : Prop where
  read_write {v : Value} {a : α} (h : read v = .ok a) : read (write a) = .ok a
  write_ne_null {v : Value} {a : α} (h : read v = .ok a) (hv : v ≠ .null) : write a ≠ .null

namespace Lossless

variable {α : Type} {read : Value → Decoded α} {write : α → Value}

/-! ## Kinds of values -/

/-- What is written as it has been read. -/
theorem of_eq (h : ∀ v a, read v = .ok a → write a = v) : Lossless read write where
  read_write := by
    intro v a hread
    rw [h v a hread]
    exact hread
  write_ne_null := by
    intro v a hread hv
    rw [h v a hread]
    exact hv

theorem text : Lossless asText .text :=
  of_eq fun _ _ h => (eq_text_of_asText h).symm

theorem any : Lossless asIs id := by
  refine of_eq fun v a h => ?_
  cases h
  rfl

theorem bool : Lossless asBool .bool := by
  refine of_eq fun v b h => ?_
  cases v with
  | bool b =>
    cases h
    rfl
  | _ => cases h

theorem count (bits : Nat) : Lossless (asNat bits) .ofNat := by
  refine of_eq fun v n h => ?_
  unfold asNat at h
  split at h
  · split at h
    · cases h
      rfl
    · cases h
  · cases h
  · cases h

theorem year : Lossless asInt32 fun year => .number (.int year) := by
  refine of_eq fun v year h => ?_
  unfold asInt32 asInt at h
  split at h
  · split at h
    · cases h
      rfl
    · cases h
  · cases h

/-- However a name from a list was given, its text would have done. -/
theorem exists_choice_text {place : Place} {all : List α} {nameOf : α → String} {v : Value} {a : α}
    (h : Decode.choice place all nameOf v = .ok a) :
    ∃ s, Decode.choice place all nameOf (.text s) = .ok a := by
  unfold Decode.choice at h
  simp only at h
  split at h
  · exact ⟨_, h⟩
  · exact ⟨_, h⟩
  · split at h
    · exact ⟨_, h⟩
    · cases h
  · cases h

/-- A name from a list is written as its text. -/
theorem choice {place : Place} {all : List α} {nameOf : α → String} :
    Lossless (Decode.choice place all nameOf) fun a => .text (nameOf a) where
  read_write := by
    intro v a h
    obtain ⟨s, hs⟩ := exists_choice_text h
    have hs' := hs
    simp only [Decode.choice] at hs'
    split at hs'
    · rename_i hfound
      cases hs'
      have hname : nameOf a = s := by simpa using List.find?_some hfound
      rw [hname]
      exact hs
    · cases hs'
  write_ne_null := fun _ _ => nofun

theorem items (h : Lossless read write) {vs : List Value} {as : List α}
    (hread : Decode.items read vs = .ok as) : Decode.items read (as.map write) = .ok as := by
  rw [items_eq_ok_iff] at hread ⊢
  induction hread with
  | nil => exact .nil
  | cons ha _ ih => exact .cons (h.read_write ha) ih

theorem list (h : Lossless read write) :
    Lossless (asList read) fun as => .list (as.map write) where
  read_write := by
    intro v as hread
    cases v with
    | list vs => exact h.items hread
    | _ => cases hread
  write_ne_null := fun _ _ => nofun

theorem texts : Lossless (asList asText) Encode.texts := text.list

theorem entries (h : Lossless read write) {es : Entries} {as : List (String × α)}
    (hread : Decode.entries read es = .ok as) :
    Decode.entries read (as.map fun (key, a) => (key, write a)) = .ok as := by
  induction es generalizing as with
  | nil =>
    cases hread
    rfl
  | cons entry rest ih =>
    simp only [Decode.entries, bind_eq_ok_iff] at hread
    obtain ⟨a, ha, more, hmore, hread⟩ := hread
    cases hread
    simp only [List.map_cons, Decode.entries, bind_eq_ok_iff]
    exact ⟨a, h.read_write ha, more, ih hmore, rfl⟩

theorem map (h : Lossless read write) : Lossless (asMap read) (Encode.map write) where
  read_write := by
    intro v as hread
    cases v with
    | map es => exact h.entries hread
    | _ => cases hread
  write_ne_null := fun _ _ => nofun

/-- The entries of any values, written as they are. -/
theorem fields : Lossless (asMap asIs) .map := by
  refine of_eq fun v fs h => ?_
  cases v with
  | map es => exact congrArg Value.map (Validation.eq_of_entries h)
  | _ => cases h

/-! ## Fields of a record -/

section Fields

variable {part e : Entries} {name : String}

theorem required {a : α} (h : Lossless read write)
    (hread : Decode.required part name read = .ok a)
    (he : Entries.get? name e = some (write a)) : Decode.required e name read = .ok a := by
  obtain ⟨v, -, hv⟩ := exists_of_required hread
  simp only [Decode.required, he]
  exact h.read_write hv

theorem optional {a : Option α} (h : Lossless read write)
    (hread : Decode.optional part name read = .ok a)
    (he : Entries.get? name e = a.map write) : Decode.optional e name read = .ok a := by
  cases a with
  | none =>
    have hnone : Entries.get? name e = none := he
    simp only [Decode.optional, hnone]
  | some a =>
    obtain ⟨v, hg, hv⟩ := exists_of_optional hread
    have hne : v ≠ .null := by
      rintro rfl
      simp [Decode.optional, hg] at hread
    exact Validation.optional_of_some e he (h.write_ne_null hv hne) (h.read_write hv)

/-- What was read from a field with a default can be written, if the default can. -/
theorem read_write_defaulted {a default : α} (h : Lossless read write)
    (hdefault : read (write default) = .ok default)
    (hread : Decode.defaulted part name default read = .ok a) : read (write a) = .ok a := by
  unfold Decode.defaulted at hread
  split at hread
  · exact h.read_write hread
  · cases hread
    exact hdefault

theorem defaulted {a default : α} (h : Lossless read write)
    (hdefault : read (write default) = .ok default)
    (hread : Decode.defaulted part name default read = .ok a)
    (he : Entries.get? name e = some (write a)) :
    Decode.defaulted e name default read = .ok a := by
  simp only [Decode.defaulted, he]
  exact h.read_write_defaulted hdefault hread

/-- A field that is written only where its value is not the default. -/
theorem omitted {a default : α} (h : Lossless read write)
    (hdefault : read (write default) = .ok default)
    (hread : Decode.defaulted part name default read = .ok a)
    (hempty : a = default → Entries.get? name e = none)
    (hfull : a ≠ default → Entries.get? name e = some (write a)) :
    Decode.defaulted e name default read = .ok a := by
  by_cases ha : a = default
  · simp only [Decode.defaulted, hempty ha, ha]
  · exact h.defaulted hdefault hread (hfull ha)

end Fields

/-- A record that is written field by field. -/
theorem record {names : List String} {readFields : Entries → Decoded α} {write : α → Entries}
    (h : ∀ part a, readFields part = .ok a → readFields (write a) = .ok a) :
    Lossless (fun v => Decode.record names v >>= readFields) fun a => .map (write a) where
  read_write := by
    intro v a hread
    obtain ⟨part, -, hpart⟩ := bind_eq_ok_iff.1 hread
    exact h part a hpart
  write_ne_null := fun _ _ => nofun

end Lossless

end Decode

open Decode.Lossless

/-! ## Records -/

theorem lossless_setting : Lossless Setting.decode Setting.encode := by
  refine .record fun part s h => ?_
  simp only [bind_eq_ok_iff] at h ⊢
  obtain ⟨_, h₁, _, h₂, _, h₃, _, h₄, _, h₅, _, h₆, h⟩ := h
  cases h
  refine ⟨_, text.optional h₁ ?_, _, text.required h₂ ?_, _, text.defaulted rfl h₃ ?_,
    _, text.defaulted rfl h₄ ?_, _, year.optional h₅ ?_, _, text.optional h₆ ?_, rfl⟩
  all_goals simp [Entries.get?]

theorem lossless_persona : Lossless Persona.decode Persona.encode := by
  refine .record fun part p h => ?_
  simp only [bind_eq_ok_iff] at h ⊢
  obtain ⟨_, h₁, _, h₂, h⟩ := h
  cases h
  refine ⟨_, text.required h₁ ?_, _, texts.defaulted rfl h₂ ?_, rfl⟩
  all_goals simp [Entries.get?]

theorem lossless_lineItem {place : Place} :
    Lossless (LineItem.decode place) LineItem.encode := by
  refine .record fun part l h => ?_
  simp only [bind_eq_ok_iff] at h ⊢
  obtain ⟨_, h₁, _, h₂, _, h₃, _, h₄, _, h₅, _, h₆, _, h₇, h⟩ := h
  cases h
  refine ⟨_, choice.optional h₁ ?_, _, text.optional h₂ ?_, _, any.optional h₃ ?_,
    _, any.optional h₄ ?_, _, any.optional h₅ ?_, _, text.optional h₆ ?_,
    _, text.optional h₇ ?_, rfl⟩
  all_goals simp [LineItem.fields]

theorem lossless_entity : Lossless NewEntity.decode fun p => .map p.fields := by
  refine .record fun part p h => ?_
  simp only [bind_eq_ok_iff] at h ⊢
  obtain ⟨_, h₁, _, h₂, _, h₃, _, h₄, _, h₅, _, h₆, h⟩ := h
  cases h
  refine ⟨_, text.required h₁ ?_, _, text.required h₂ ?_, _, text.optional h₃ ?_,
    _, text.required h₄ ?_, _, fields.omitted rfl h₅ ?_ ?_, _, any.optional h₆ ?_, rfl⟩
  all_goals simp +contextual [NewEntity.fields, Entries.get?]

theorem lossless_transaction : Lossless NewTransaction.decode fun p => .map p.fields := by
  refine .record fun part p h => ?_
  simp only [bind_eq_ok_iff] at h ⊢
  obtain ⟨_, h₁, _, h₂, _, h₃, _, h₄, _, h₅, _, h₆, _, h₇, _, h₈, _, h₉, h⟩ := h
  cases h
  refine ⟨_, text.required h₁ ?_, _, text.required h₂ ?_, _, text.optional h₃ ?_,
    _, text.optional h₄ ?_, _, any.optional h₅ ?_, _, text.optional h₆ ?_,
    _, text.optional h₇ ?_, _, lossless_lineItem.list.omitted rfl h₈ ?_ ?_,
    _, any.optional h₉ ?_, rfl⟩
  all_goals simp +contextual [NewTransaction.fields, Entries.get?]

theorem lossless_relationship : Lossless NewRelationship.decode fun p => .map p.fields := by
  refine .record fun part p h => ?_
  simp only [bind_eq_ok_iff] at h ⊢
  obtain ⟨_, h₁, _, h₂, _, h₃, _, h₄, _, h₅, h⟩ := h
  cases h
  refine ⟨_, text.required h₁ ?_, _, text.required h₂ ?_, _, text.required h₃ ?_,
    _, text.required h₄ ?_, _, any.optional h₅ ?_, rfl⟩
  all_goals simp [NewRelationship.fields, Entries.get?]

theorem lossless_field : Lossless NewField.decode fun p => .map p.fields := by
  refine .record fun part p h => ?_
  simp only [bind_eq_ok_iff] at h ⊢
  obtain ⟨_, h₁, _, h₂, _, h₃, _, h₄, h⟩ := h
  cases h
  refine ⟨_, text.required h₁ ?_, _, text.required h₂ ?_, _, any.required h₃ ?_,
    _, text.optional h₄ ?_, rfl⟩
  all_goals simp [NewField.fields, Entries.get?]

theorem lossless_interaction : Lossless Interaction.decode fun p => .map p.fields := by
  refine .record fun part p h => ?_
  simp only [bind_eq_ok_iff] at h ⊢
  obtain ⟨_, h₁, _, h₂, _, h₃, _, h₄, h⟩ := h
  cases h
  refine ⟨_, choice.required h₁ ?_, _, text.optional h₂ ?_, _, text.optional h₃ ?_,
    _, text.optional h₄ ?_, rfl⟩
  all_goals simp [Interaction.fields, Entries.get?]

theorem lossless_request : Lossless Request.decode fun p => .map p.fields := by
  refine .record fun part p h => ?_
  simp only [bind_eq_ok_iff] at h ⊢
  obtain ⟨_, h₁, _, h₂, _, h₃, _, h₄, h⟩ := h
  cases h
  refine ⟨_, choice.required h₁ ?_, _, text.required h₂ ?_, _, any.optional h₃ ?_,
    _, (count 16).optional h₄ ?_, rfl⟩
  all_goals simp [Request.fields, Entries.get?]

theorem lossless_wait : Lossless decodeWait fun ms => .map (Operation.wait ms).payload := by
  refine .record fun part ms h => ?_
  exact (count 64).required h rfl

theorem lossless_journalEntry : Lossless JournalEntry.decode JournalEntry.encode := by
  refine .record fun part entry h => ?_
  simp only [bind_eq_ok_iff] at h ⊢
  obtain ⟨_, h₁, _, h₂, h⟩ := h
  cases h
  refine ⟨_, any.optional h₁ ?_, _, any.optional h₂ ?_, rfl⟩
  all_goals simp

theorem lossless_pageCheck : Lossless PageCheck.decode PageCheck.encode := by
  refine .record fun part check h => ?_
  simp only [bind_eq_ok_iff] at h ⊢
  obtain ⟨_, h₁, _, h₂, _, h₃, h⟩ := h
  cases h
  refine ⟨_, text.required h₁ ?_, _, bool.optional h₂ ?_, _, text.optional h₃ ?_, rfl⟩
  all_goals simp [Entries.get?]

theorem lossless_metadata : Lossless Metadata.decode Metadata.encode := by
  refine .record fun part m h => ?_
  simp only [bind_eq_ok_iff] at h ⊢
  obtain ⟨_, h₁, _, h₂, _, h₃, h⟩ := h
  cases h
  refine ⟨_, texts.defaulted rfl h₁ ?_, _, choice.defaulted rfl h₂ ?_,
    _, texts.defaulted rfl h₃ ?_, rfl⟩
  all_goals simp [Entries.get?]

theorem lossless_policy : Lossless Policy.decode Policy.encode := by
  refine .record fun part p h => ?_
  simp only [bind_eq_ok_iff] at h ⊢
  obtain ⟨_, h₁, _, h₂, h⟩ := h
  cases h
  refine ⟨_, choice.defaulted rfl h₁ ?_, _, bool.defaulted rfl h₂ ?_, rfl⟩
  all_goals simp [Entries.get?]

/-! ## Actions and steps -/

/-- What is written for an operation is of its kind, and is read as the operation. -/
theorem decodeKind_payload {kind : String} {v : Value} {o : Operation}
    (h : Operation.decodeKind kind v = .ok o) :
    o.kind = kind ∧ Operation.decodeKind kind (.map o.payload) = .ok o := by
  unfold Operation.decodeKind at h
  split at h
  · obtain ⟨p, hp, rfl⟩ := map_eq_ok_iff.1 h
    exact ⟨rfl, map_eq_ok_iff.2 ⟨p, lossless_entity.read_write hp, rfl⟩⟩
  · obtain ⟨p, hp, rfl⟩ := map_eq_ok_iff.1 h
    exact ⟨rfl, map_eq_ok_iff.2 ⟨p, lossless_transaction.read_write hp, rfl⟩⟩
  · obtain ⟨p, hp, rfl⟩ := map_eq_ok_iff.1 h
    exact ⟨rfl, map_eq_ok_iff.2 ⟨p, lossless_relationship.read_write hp, rfl⟩⟩
  · obtain ⟨p, hp, rfl⟩ := map_eq_ok_iff.1 h
    exact ⟨rfl, map_eq_ok_iff.2 ⟨p, lossless_field.read_write hp, rfl⟩⟩
  · obtain ⟨p, hp, rfl⟩ := map_eq_ok_iff.1 h
    exact ⟨rfl, map_eq_ok_iff.2 ⟨p, lossless_interaction.read_write hp, rfl⟩⟩
  · obtain ⟨p, hp, rfl⟩ := map_eq_ok_iff.1 h
    exact ⟨rfl, map_eq_ok_iff.2 ⟨p, lossless_request.read_write hp, rfl⟩⟩
  · obtain ⟨ms, hms, rfl⟩ := map_eq_ok_iff.1 h
    exact ⟨rfl, map_eq_ok_iff.2 ⟨ms, lossless_wait.read_write hms, rfl⟩⟩
  · cases h

/-- The kind and the fields that a tagged map was read as. -/
theorem Decode.eq_of_tagged {place : Place} {tag kind : String} {kinds : List String}
    {es : Entries} {w : Value} (h : tagged place tag kinds (.map es) = .ok (kind, w)) :
    w = .map es := by
  simp only [tagged, bind_eq_ok_iff] at h
  obtain ⟨_, -, h⟩ := h
  cases h
  rfl

/-- The kind of an operation has a table. -/
theorem exists_operationFields (o : Operation) :
    ∃ fields, (o.kind, fields) ∈ Validation.operationFields := by
  have hkind : o.kind ∈ Validation.operationFields.map Prod.fst := by
    cases o <;> simp [Operation.kind, Validation.operationFields]
  obtain ⟨⟨kind, fields⟩, hmem, hname⟩ := List.mem_map.1 hkind
  exact ⟨fields, hname ▸ hmem⟩

theorem lossless_action : Lossless Action.decode Action.encode where
  read_write := by
    intro v a h
    cases v with
    | map part =>
      have hread := Action.readFrom_of_decode h
      obtain ⟨⟨kind, w⟩, htag, hkind⟩ := bind_eq_ok_iff.1 hread.operation
      obtain rfl := eq_of_tagged htag
      obtain ⟨rfl, hpayload⟩ := decodeKind_payload hkind
      obtain ⟨fields, hmem⟩ := exists_operationFields a.operation
      have hw := Validation.within_payload (Operation.readFrom_of_decodeKind hkind) hmem
      obtain ⟨hpersona, hstore, hdescription⟩ := Validation.get?_encode hmem hw
      have htype : Entries.get? "type" (Validation.written a.encode) =
          some (.text a.operation.kind) := by
        simp [Action.encode, Operation.fields, Entries.get?]
      have hmem' : a.operation.kind ∈ Operation.kinds := List.mem_map_of_mem (f := Prod.fst) hmem
      have hencode : a.encode = .map (Validation.written a.encode) := rfl
      rw [hencode]
      simp only [Action.decode, Operation.decode, tagged_eq_ok htype hmem', bind_eq_ok_iff]
      refine ⟨_, ⟨_, rfl, ?_⟩, _, text.optional hread.persona hpersona,
        _, text.optional hread.storeAs hstore, _, text.optional hread.description hdescription, rfl⟩
      exact (Validation.decodeKind_congr hmem (Validation.agrees_encode hmem)).trans hpayload
    | _ => cases h
  write_ne_null := fun _ _ => nofun

theorem lossless_step : Lossless Step.decode Step.encode := by
  refine .record fun part s h => ?_
  simp only [bind_eq_ok_iff] at h ⊢
  obtain ⟨_, h₁, _, h₂, _, h₃, _, h₄, _, h₅, _, h₆, _, h₇, _, h₈, h⟩ := h
  cases h
  refine ⟨_, text.required h₁ ?_, _, text.defaulted rfl h₂ ?_, _, text.required h₃ ?_,
    _, lossless_action.list.required h₄ ?_, _, text.list.omitted rfl h₅ ?_ ?_,
    _, text.list.omitted rfl h₆ ?_ ?_, _, (count 64).defaulted rfl h₇ ?_,
    _, (count 32).defaulted rfl h₈ ?_, rfl⟩
  all_goals simp +contextual [Entries.get?]

/-! ## Assertions -/

/-- What is written for a rule is of its name, and is read as the rule. -/
theorem decodeNamed_operands {name : String} {v : Value} {r : Rule}
    (h : Rule.decodeNamed name v = .ok r) :
    r.name = name ∧ Rule.decodeNamed name (.map r.operands) = .ok r := by
  unfold Rule.decodeNamed at h
  split at h
  · simp only [bind_eq_ok_iff] at h
    obtain ⟨_, -, _, h₁, _, h₂, _, h₃, _, h₄, h⟩ := h
    cases h
    simp only [Rule.decodeNamed, record_bind, bind_eq_ok_iff]
    refine ⟨rfl, _, any.required h₁ ?_, _, any.required h₂ ?_, _, any.required h₃ ?_,
      _, any.optional h₄ ?_, rfl⟩
    all_goals simp [Rule.operands, Entries.get?]
  · simp only [bind_eq_ok_iff] at h
    obtain ⟨_, -, _, h₁, _, h₂, h⟩ := h
    cases h
    simp only [Rule.decodeNamed, record_bind, bind_eq_ok_iff]
    refine ⟨rfl, _, lossless_journalEntry.list.required h₁ ?_, _, any.optional h₂ ?_, rfl⟩
    all_goals simp [Rule.operands, Entries.get?]
  · simp only [bind_eq_ok_iff] at h
    obtain ⟨_, -, _, h₁, _, h₂, _, h₃, _, h₄, _, h₅, h⟩ := h
    cases h
    simp only [Rule.decodeNamed, record_bind, bind_eq_ok_iff]
    refine ⟨rfl, _, any.required h₁ ?_, _, any.required h₂ ?_, _, bool.defaulted rfl h₃ ?_,
      _, any.optional h₄ ?_, _, any.optional h₅ ?_, rfl⟩
    all_goals simp [Rule.operands, Entries.get?]
  · simp only [bind_eq_ok_iff] at h
    obtain ⟨_, -, _, h₁, _, h₂, _, h₃, h⟩ := h
    cases h
    simp only [Rule.decodeNamed, record_bind, bind_eq_ok_iff]
    refine ⟨rfl, _, text.required h₁ ?_, _, text.required h₂ ?_, _, texts.map.required h₃ ?_, rfl⟩
    all_goals simp [Rule.operands, Entries.get?]
  · simp only [bind_eq_ok_iff] at h
    obtain ⟨_, -, _, h₁, h⟩ := h
    cases h
    simp only [Rule.decodeNamed, record_bind, bind_eq_ok_iff]
    exact ⟨rfl, _, text.required h₁ rfl, rfl⟩
  · cases h

/-- The name of a rule has a table, which has all its operands. -/
theorem exists_ruleFields (r : Rule) : ∃ fields, (r.name, fields) ∈ Validation.ruleFields ∧
    Validation.Within (fields.map Validation.Field.name) r.operands := by
  have hname : r.name ∈ Validation.ruleFields.map Prod.fst := by
    cases r <;> simp [Rule.name, Validation.ruleFields]
  obtain ⟨⟨name, fields⟩, hmem, hfields⟩ := List.mem_map.1 hname
  refine ⟨fields, hfields ▸ hmem, ?_⟩
  have hlookup := Validation.lookup_ruleFields hmem
  cases r <;> cases hfields <;> cases hlookup <;>
    simp [Rule.operands, Validation.need, Validation.may]

/-- What is written for an assertion is of its kind, and is read as the assertion. -/
theorem decodeKind_written {kind : String} {v : Value} {a : Assertion}
    (h : Assertion.decodeKind kind v = .ok a) :
    a.check.kind = kind ∧ Assertion.decodeKind kind a.encode = .ok a := by
  unfold Assertion.decodeKind at h
  split at h
  · simp only [bind_eq_ok_iff] at h
    obtain ⟨_, -, _, h₁, _, h₂, _, h₃, _, h₄, h⟩ := h
    cases h
    simp only [Assertion.decodeKind, Assertion.encode, record_bind, bind_eq_ok_iff]
    refine ⟨rfl, _, text.optional h₁ ?_, _, text.required h₂ ?_, _, fields.defaulted rfl h₃ ?_,
      _, (count 64).required h₄ ?_, rfl⟩
    all_goals simp [Check.fields, Entries.get?]
  · simp only [bind_eq_ok_iff] at h
    obtain ⟨_, -, _, h₁, _, h₂, h⟩ := h
    cases h
    simp only [Assertion.decodeKind, Assertion.encode, record_bind, bind_eq_ok_iff]
    refine ⟨rfl, _, text.optional h₁ ?_, _, lossless_pageCheck.list.required h₂ ?_, rfl⟩
    all_goals simp [Check.fields, Entries.get?]
  · split at h
    · simp only [Rule.decode, bind_eq_ok_iff] at h
      obtain ⟨description, h₁, r, ⟨⟨name, w⟩, -, hname⟩, h⟩ := h
      cases h
      obtain ⟨rfl, hoperands⟩ := decodeNamed_operands hname
      obtain ⟨table, hmem, hw⟩ := exists_ruleFields r
      obtain ⟨hagrees, hdescription⟩ := Validation.agrees_operands description hmem hw
      have htag : Entries.get? "rule"
          (Validation.written (Assertion.encode ⟨description, .rule r⟩)) = some (.text r.name) := by
        simp [Assertion.encode, Check.fields, Rule.fields, Entries.get?]
      have hmem' : r.name ∈ Rule.names := List.mem_map_of_mem (f := Prod.fst) hmem
      have hencode : Assertion.encode ⟨description, .rule r⟩ =
          .map (Validation.written (Assertion.encode ⟨description, .rule r⟩)) := rfl
      refine ⟨rfl, ?_⟩
      rw [hencode]
      simp only [Assertion.decodeKind, Rule.decode, tagged_eq_ok htag hmem', bind_eq_ok_iff]
      exact ⟨_, text.optional h₁ hdescription,
        _, ⟨_, rfl, (Validation.decodeNamed_congr hmem hagrees).trans hoperands⟩, rfl⟩
    · cases h
  · simp only [bind_eq_ok_iff] at h
    obtain ⟨_, -, _, h₁, _, h₂, _, h₃, h⟩ := h
    cases h
    simp only [Assertion.decodeKind, Assertion.encode, record_bind, bind_eq_ok_iff]
    refine ⟨rfl, _, text.optional h₁ ?_, _, text.required h₂ ?_, _, any.optional h₃ ?_, rfl⟩
    all_goals simp [Check.fields, Entries.get?]
  · cases h

theorem lossless_assertion : Lossless Assertion.decode Assertion.encode where
  read_write := by
    intro v a h
    obtain ⟨⟨kind, w⟩, -, hkind⟩ := bind_eq_ok_iff.1 h
    obtain ⟨rfl, hread⟩ := decodeKind_written hkind
    have htag : Entries.get? "type" (Validation.written a.encode) = some (.text a.check.kind) := rfl
    have hmem : a.check.kind ∈ Check.kinds := by
      cases a.check <;> simp [Check.kind, Check.kinds]
    have hencode : a.encode = .map (Validation.written a.encode) := rfl
    rw [Assertion.decode, hencode, tagged_eq_ok htag hmem, ← hencode]
    exact hread
  write_ne_null := fun _ _ => nofun

/-! ## Definitions -/

theorem lossless_definition : Lossless Definition.decode Definition.encode := by
  refine .record fun part d h => ?_
  simp only [bind_eq_ok_iff] at h ⊢
  obtain ⟨_, h₁, _, h₂, _, h₃, _, h₄, _, h₅, _, h₆, _, h₇, _, h₈, _, h₉, _, h₁₀, _, h₁₁,
    _, h₁₂, _, h₁₃, h⟩ := h
  cases h
  refine ⟨_, text.defaulted rfl h₁ ?_, _, text.required h₂ ?_, _, text.required h₃ ?_,
    _, text.defaulted rfl h₄ ?_, _, text.optional h₅ ?_, _, lossless_setting.required h₆ ?_,
    _, lossless_persona.map.required h₇ ?_, _, lossless_action.list.defaulted rfl h₈ ?_,
    _, lossless_step.list.required h₉ ?_, _, lossless_action.list.defaulted rfl h₁₀ ?_,
    _, lossless_assertion.list.defaulted rfl h₁₁ ?_, _, lossless_metadata.defaulted rfl h₁₂ ?_,
    _, lossless_policy.defaulted rfl h₁₃ ?_, rfl⟩
  all_goals simp [Entries.get?]

namespace Definition

variable {v w : Value} {a b : Definition}

/-- **Encoding loses nothing of what has been read**, be there faults in it or not. -/
theorem decode_encode (h : decode v = .ok a) : decode a.encode = .ok a :=
  lossless_definition.read_write h

/-- No two definitions that have been read have one encoding. -/
theorem encode_injective (ha : decode v = .ok a) (hb : decode w = .ok b)
    (h : a.encode = b.encode) : a = b := by
  have hread := decode_encode ha
  rw [h, decode_encode hb] at hread
  cases hread
  rfl

end Definition

end ProcessTest
