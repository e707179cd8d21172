import ProcessTest.Proofs.Encoding.Rows

/-!
# Actions that are written back

An action without faults that has been read is written as one without faults, which is read as the
same and claims the same name.

* `onText_congr`, `checkChoice_eq_nil`, `onList_restored` — the checks of single fields.
* `restore_operation` — what each kind of operation asks for, in what is written for it.
* `decodeKind_congr`, `checkOperation_congr` — only the fields of its kind count for an operation,
  so that the fields of the action around them make no difference.
* `restore_action` — whole actions.
-/

set_option autoImplicit false

namespace ProcessTest.Validation

open Decode

/-! ## Checks of single fields -/

section Fields

variable {e part : Entries} {path field : String}

theorem onText_congr {α : Type} (h : Entries.get? field e = Entries.get? field part)
    (check : String → List α) : onText e field check = onText part field check := by
  unfold onText
  rw [h]

theorem onNat_congr {α : Type} (h : Entries.get? field e = Entries.get? field part)
    (check : Nat → List α) : onNat e field check = onNat part field check := by
  unfold onNat
  rw [h]

theorem claim_congr (h : Entries.get? field e = Entries.get? field part) (what : String)
    (names : List String) : claim path e field what names = claim path part field what names := by
  unfold claim
  rw [h]

theorem checkPersonaRef_congr (h : Entries.get? "persona" e = Entries.get? "persona" part)
    (personas : List String) :
    checkPersonaRef personas path e = checkPersonaRef personas path part :=
  onText_congr h _

/-- A name that is written for a value is one of the names of all values. -/
theorem checkChoice_eq_nil {α : Type} {all : List α} {nameOf : α → String} {a : Option α}
    (hg : Entries.get? field e = a.map fun a => .text (nameOf a)) (hall : ∀ a, a ∈ all) :
    checkChoice path e field (all.map nameOf) = [] := by
  unfold checkChoice onText
  rw [hg]
  cases a with
  | none => rfl
  | some a => simp [List.mem_map_of_mem (hall a)]

/-- A smart code that conforms, or is left to the run, has no fault. -/
theorem checkSmartCode_eq_nil {code : Option String}
    (hg : Entries.get? "smart_code" e = code.map .text)
    (hvalid : ∀ s, code = some s → Template.hasPlaceholder s = false → SmartCode.isValid s = true) :
    checkSmartCode path e = [] := by
  unfold checkSmartCode onText
  rw [hg]
  cases code with
  | none => rfl
  | some s =>
    cases hp : Template.hasPlaceholder s with
    | true => simp [hp]
    | false =>
      have hs : (SmartCode.check s).valid = true := hvalid s rfl hp
      simp [hs]

/-- The items of a list that is written, if it is, have no faults. -/
theorem onList_restored {α : Type} {read : Value → Decoded α} {encode : α → Value}
    {check : String → Value → List Fault} {index : Nat} {as : List α}
    (hr : ∀ path v a, check path v = [] → read v = .ok a →
      check path (encode a) = [] ∧ read (encode a) = .ok a)
    (h : onList part field (checkItems check path index) = [])
    (hread : defaulted part field [] (asList read) = .ok as)
    (he : ∀ v, Entries.get? field e = some v → v = .list (as.map encode)) :
    onList e field (checkItems check path index) = [] := by
  have hitems : checkItems check path index (as.map encode) = [] := by
    unfold defaulted at hread
    split at hread
    · rename_i v hg
      cases v with
      | list vs =>
        simp only [onList, hg] at h
        exact (restore_items hr h hread).1
      | _ => cases hread
    · cases hread
      rfl
  unfold onList
  split
  · rename_i items hg
    cases he _ hg
    exact hitems
  · rfl

end Fields

/-! ## Kinds of actions -/

section Operations

variable {path kind : String} {part : Entries} {fields : List Field} {o : Operation}

theorem restore_lineItem (path : String) (v : Value) (item : LineItem)
    (h : checkLineItem path v = []) (hread : LineItem.decode .inside v = .ok item) :
    checkLineItem path item.encode = [] ∧ LineItem.decode .inside item.encode = .ok item := by
  have hcodes : ∀ {code}, item.smartCode = some code → Template.hasPlaceholder code = false →
      SmartCode.isValid code = true := isValid_of_checkLineItem h hread
  cases v with
  | map part =>
    simp only [checkLineItem, List.append_eq_nil_iff] at h
    have hm := meets_of_checkFields h.1.1
    obtain ⟨e, he⟩ : ∃ e, e = item.fields := ⟨_, rfl⟩
    have hencode : item.encode = .map e := congrArg Value.map he.symm
    have hside : checkChoice path e "line_type" (Side.all.map Side.name) = [] := by
      refine checkChoice_eq_nil (a := item.side) (by simp [he, LineItem.fields]) ?_
      intro side
      cases side <;> decide
    have hsmart : checkSmartCode path e = [] :=
      checkSmartCode_eq_nil (by simp [he, LineItem.fields]) fun _ => hcodes
    have hw : Within (lineItemFields.map Field.name) e := by
      simp [he, LineItem.fields, lineItemFields, may]
    rw [hencode]
    simp only [LineItem.decode, bind_eq_ok_iff] at hread ⊢
    obtain ⟨_, hr, _, h₁, _, h₂, _, h₃, _, h₄, _, h₅, _, h₆, _, h₇, hitem⟩ := hread
    cases hr
    cases hitem
    obtain ⟨m₁, r₁⟩ := hm.restore_optional e (by decide) h₁ Keeps.choice.restores
      (by simp [he, LineItem.fields])
    obtain ⟨m₂, r₂⟩ := hm.restore_optional e (by decide) h₂ Keeps.name.restores
      (by simp [he, LineItem.fields])
    obtain ⟨m₃, r₃⟩ := hm.restore_optional e (by decide) h₃ Keeps.amount.restores
      (by simp [he, LineItem.fields])
    obtain ⟨m₄, r₄⟩ := hm.restore_optional e (by decide) h₄ Keeps.amount.restores
      (by simp [he, LineItem.fields])
    obtain ⟨m₅, r₅⟩ := hm.restore_optional e (by decide) h₅ Keeps.amount.restores
      (by simp [he, LineItem.fields])
    obtain ⟨m₆, r₆⟩ := hm.restore_optional e (by decide) h₆ Keeps.name.restores
      (by simp [he, LineItem.fields])
    obtain ⟨m₇, r₇⟩ := hm.restore_optional e (by decide) h₇ Keeps.text.restores
      (by simp [he, LineItem.fields])
    have hmeets : Meets e lineItemFields := by
      simp only [lineItemFields, meets_cons, meets_nil, and_true]
      exact ⟨m₁, m₂, m₃, m₄, m₅, m₆, m₇⟩
    refine ⟨?_, _, rfl, _, r₁, _, r₂, _, r₃, _, r₄, _, r₅, _, r₆, _, r₇, rfl⟩
    simp only [checkLineItem, checkFields_eq_nil hmeets hw, hside, hsmart, List.append_nil]
  | _ => simp [checkLineItem] at h

theorem restore_entity {p : NewEntity}
    (hk : ("create_entity", fields) ∈ operationFields) (hm : Meets part fields)
    (h : NewEntity.decode (.map part) = .ok p) :
    Meets p.fields fields ∧ NewEntity.decode (.map p.fields) = .ok p := by
  cases lookup_operationFields hk
  obtain ⟨e, he⟩ : ∃ e, e = p.fields := ⟨_, rfl⟩
  rw [← he]
  simp only [NewEntity.decode, bind_eq_ok_iff] at h ⊢
  obtain ⟨_, hr, _, h₁, _, h₂, _, h₃, _, h₄, _, h₅, _, h₆, h⟩ := h
  cases hr
  cases h
  obtain ⟨m₁, r₁⟩ := hm.restore_required e (by decide) h₁ Keeps.name.restores
    (by simp [he, NewEntity.fields, Entries.get?])
  obtain ⟨m₂, r₂⟩ := hm.restore_required e (by decide) h₂ Keeps.name.restores
    (by simp [he, NewEntity.fields, Entries.get?])
  obtain ⟨m₃, r₃⟩ := hm.restore_optional e (by decide) h₃ Keeps.name.restores
    (by simp [he, NewEntity.fields, Entries.get?])
  obtain ⟨m₄, r₄⟩ := hm.restore_required e (by decide) h₄ Keeps.name.restores
    (by simp [he, NewEntity.fields, Entries.get?])
  obtain ⟨m₅, r₅⟩ := hm.restore_omitted e (by decide) (by decide) h₅ Keeps.fields.restores
    (fun hnil => by simp [he, NewEntity.fields, Entries.get?, hnil])
    (fun hcons => by simp [he, NewEntity.fields, Entries.get?, hcons])
  obtain ⟨m₆, r₆⟩ := hm.restore_optional e (by decide) h₆ Keeps.tree.restores
    (by simp [he, NewEntity.fields, Entries.get?])
  refine ⟨?_, _, rfl, _, r₁, _, r₂, _, r₃, _, r₄, _, r₅, _, r₆, rfl⟩
  simp only [meets_cons, meets_nil, and_true]
  exact ⟨m₁, m₂, m₃, m₄, m₅, m₆⟩

theorem restore_transaction {p : NewTransaction}
    (hk : ("create_transaction", fields) ∈ operationFields) (hm : Meets part fields)
    (hlines : onList part "line_items" (checkItems checkLineItem path 0) = [])
    (h : NewTransaction.decode (.map part) = .ok p) :
    Meets p.fields fields ∧ NewTransaction.decode (.map p.fields) = .ok p := by
  cases lookup_operationFields hk
  obtain ⟨e, he⟩ : ∃ e, e = p.fields := ⟨_, rfl⟩
  rw [← he]
  simp only [NewTransaction.decode, bind_eq_ok_iff] at h ⊢
  obtain ⟨_, hr, _, h₁, _, h₂, _, h₃, _, h₄, _, h₅, _, h₆, _, h₇, _, h₈, _, h₉, h⟩ := h
  cases hr
  cases h
  obtain ⟨m₁, r₁⟩ := hm.restore_required e (by decide) h₁ Keeps.name.restores
    (by simp [he, NewTransaction.fields, Entries.get?])
  obtain ⟨m₂, r₂⟩ := hm.restore_required e (by decide) h₂ Keeps.name.restores
    (by simp [he, NewTransaction.fields, Entries.get?])
  obtain ⟨m₃, r₃⟩ := hm.restore_optional e (by decide) h₃ Keeps.name.restores
    (by simp [he, NewTransaction.fields, Entries.get?])
  obtain ⟨m₄, r₄⟩ := hm.restore_optional e (by decide) h₄ Keeps.name.restores
    (by simp [he, NewTransaction.fields, Entries.get?])
  obtain ⟨m₅, r₅⟩ := hm.restore_optional e (by decide) h₅ Keeps.amount.restores
    (by simp [he, NewTransaction.fields, Entries.get?])
  obtain ⟨m₆, r₆⟩ := hm.restore_optional e (by decide) h₆ Keeps.name.restores
    (by simp [he, NewTransaction.fields, Entries.get?])
  obtain ⟨m₇, r₇⟩ := hm.restore_optional e (by decide) h₇ Keeps.name.restores
    (by simp [he, NewTransaction.fields, Entries.get?])
  obtain ⟨m₈, r₈⟩ := hm.restore_omitted e (by decide) (by decide) h₈ (.list hlines restore_lineItem)
    (fun hnil => by simp [he, NewTransaction.fields, Entries.get?, hnil])
    (fun hcons => by simp [he, NewTransaction.fields, Entries.get?, hcons])
  obtain ⟨m₉, r₉⟩ := hm.restore_optional e (by decide) h₉ Keeps.tree.restores
    (by simp [he, NewTransaction.fields, Entries.get?])
  refine ⟨?_, _, rfl, _, r₁, _, r₂, _, r₃, _, r₄, _, r₅, _, r₆, _, r₇, _, r₈, _, r₉, rfl⟩
  simp only [meets_cons, meets_nil, and_true]
  exact ⟨m₁, m₂, m₃, m₄, m₅, m₆, m₇, m₈, m₉⟩

theorem restore_relationship {p : NewRelationship}
    (hk : ("create_relationship", fields) ∈ operationFields) (hm : Meets part fields)
    (h : NewRelationship.decode (.map part) = .ok p) :
    Meets p.fields fields ∧ NewRelationship.decode (.map p.fields) = .ok p := by
  cases lookup_operationFields hk
  obtain ⟨e, he⟩ : ∃ e, e = p.fields := ⟨_, rfl⟩
  rw [← he]
  simp only [NewRelationship.decode, bind_eq_ok_iff] at h ⊢
  obtain ⟨_, hr, _, h₁, _, h₂, _, h₃, _, h₄, _, h₅, h⟩ := h
  cases hr
  cases h
  obtain ⟨m₁, r₁⟩ := hm.restore_required e (by decide) h₁ Keeps.name.restores
    (by simp [he, NewRelationship.fields, Entries.get?])
  obtain ⟨m₂, r₂⟩ := hm.restore_required e (by decide) h₂ Keeps.name.restores
    (by simp [he, NewRelationship.fields, Entries.get?])
  obtain ⟨m₃, r₃⟩ := hm.restore_required e (by decide) h₃ Keeps.name.restores
    (by simp [he, NewRelationship.fields, Entries.get?])
  obtain ⟨m₄, r₄⟩ := hm.restore_required e (by decide) h₄ Keeps.name.restores
    (by simp [he, NewRelationship.fields, Entries.get?])
  obtain ⟨m₅, r₅⟩ := hm.restore_optional e (by decide) h₅ Keeps.tree.restores
    (by simp [he, NewRelationship.fields, Entries.get?])
  refine ⟨?_, _, rfl, _, r₁, _, r₂, _, r₃, _, r₄, _, r₅, rfl⟩
  simp only [meets_cons, meets_nil, and_true]
  exact ⟨m₁, m₂, m₃, m₄, m₅⟩

theorem restore_field {p : NewField}
    (hk : ("set_dynamic_field", fields) ∈ operationFields) (hm : Meets part fields)
    (h : NewField.decode (.map part) = .ok p) :
    Meets p.fields fields ∧ NewField.decode (.map p.fields) = .ok p := by
  cases lookup_operationFields hk
  obtain ⟨e, he⟩ : ∃ e, e = p.fields := ⟨_, rfl⟩
  rw [← he]
  simp only [NewField.decode, bind_eq_ok_iff] at h ⊢
  obtain ⟨_, hr, _, h₁, _, h₂, _, h₃, _, h₄, h⟩ := h
  cases hr
  cases h
  obtain ⟨m₁, r₁⟩ := hm.restore_required e (by decide) h₁ Keeps.name.restores
    (by simp [he, NewField.fields, Entries.get?])
  obtain ⟨m₂, r₂⟩ := hm.restore_required e (by decide) h₂ Keeps.name.restores
    (by simp [he, NewField.fields, Entries.get?])
  obtain ⟨m₃, r₃⟩ := hm.restore_required e (by decide) h₃ Keeps.any.restores
    (by simp [he, NewField.fields, Entries.get?])
  obtain ⟨m₄, r₄⟩ := hm.restore_optional e (by decide) h₄ Keeps.name.restores
    (by simp [he, NewField.fields, Entries.get?])
  refine ⟨?_, _, rfl, _, r₁, _, r₂, _, r₃, _, r₄, rfl⟩
  simp only [meets_cons, meets_nil, and_true]
  exact ⟨m₁, m₂, m₃, m₄⟩

theorem restore_interaction {p : Interaction}
    (hk : ("ui_interaction", fields) ∈ operationFields) (hm : Meets part fields)
    (h : Interaction.decode (.map part) = .ok p) :
    Meets p.fields fields ∧ Interaction.decode (.map p.fields) = .ok p := by
  cases lookup_operationFields hk
  obtain ⟨e, he⟩ : ∃ e, e = p.fields := ⟨_, rfl⟩
  rw [← he]
  simp only [Interaction.decode, bind_eq_ok_iff] at h ⊢
  obtain ⟨_, hr, _, h₁, _, h₂, _, h₃, _, h₄, h⟩ := h
  cases hr
  cases h
  obtain ⟨m₁, r₁⟩ := hm.restore_required e (by decide) h₁ Keeps.choice.restores
    (by simp [he, Interaction.fields, Entries.get?])
  obtain ⟨m₂, r₂⟩ := hm.restore_optional e (by decide) h₂ Keeps.name.restores
    (by simp [he, Interaction.fields, Entries.get?])
  obtain ⟨m₃, r₃⟩ := hm.restore_optional e (by decide) h₃ Keeps.text.restores
    (by simp [he, Interaction.fields, Entries.get?])
  obtain ⟨m₄, r₄⟩ := hm.restore_optional e (by decide) h₄ Keeps.name.restores
    (by simp [he, Interaction.fields, Entries.get?])
  refine ⟨?_, _, rfl, _, r₁, _, r₂, _, r₃, _, r₄, rfl⟩
  simp only [meets_cons, meets_nil, and_true]
  exact ⟨m₁, m₂, m₃, m₄⟩

theorem restore_request {p : Request}
    (hk : ("api_call", fields) ∈ operationFields) (hm : Meets part fields)
    (h : Request.decode (.map part) = .ok p) :
    Meets p.fields fields ∧ Request.decode (.map p.fields) = .ok p := by
  cases lookup_operationFields hk
  obtain ⟨e, he⟩ : ∃ e, e = p.fields := ⟨_, rfl⟩
  rw [← he]
  simp only [Request.decode, bind_eq_ok_iff] at h ⊢
  obtain ⟨_, hr, _, h₁, _, h₂, _, h₃, _, h₄, h⟩ := h
  cases hr
  cases h
  obtain ⟨m₁, r₁⟩ := hm.restore_required e (by decide) h₁ Keeps.choice.restores
    (by simp [he, Request.fields, Entries.get?])
  obtain ⟨m₂, r₂⟩ := hm.restore_required e (by decide) h₂ Keeps.name.restores
    (by simp [he, Request.fields, Entries.get?])
  obtain ⟨m₃, r₃⟩ := hm.restore_optional e (by decide) h₃ Keeps.any.restores
    (by simp [he, Request.fields, Entries.get?])
  obtain ⟨m₄, r₄⟩ := hm.restore_optional e (by decide) h₄ (Keeps.count 16).restores
    (by simp [he, Request.fields, Entries.get?])
  refine ⟨?_, _, rfl, _, r₁, _, r₂, _, r₃, _, r₄, rfl⟩
  simp only [meets_cons, meets_nil, and_true]
  exact ⟨m₁, m₂, m₃, m₄⟩

theorem restore_wait {ms : Nat} (hk : ("wait", fields) ∈ operationFields)
    (hm : Meets part fields) (h : decodeWait (.map part) = .ok ms) :
    Meets (Operation.wait ms).payload fields ∧
      decodeWait (.map (Operation.wait ms).payload) = .ok ms := by
  cases lookup_operationFields hk
  simp only [decodeWait, bind_eq_ok_iff] at h ⊢
  obtain ⟨_, hr, h₁⟩ := h
  cases hr
  obtain ⟨m₁, r₁⟩ := hm.restore_required (Operation.wait ms).payload (by decide) h₁
    (Keeps.count 64).restores rfl
  exact ⟨meets_cons.2 ⟨m₁, meets_nil⟩, _, rfl, r₁⟩

/-- The check of an interaction finds no fault in one that has all that its gesture needs. -/
theorem checkInteraction_eq_nil {p : Interaction} (h : p.IsEquipped) :
    checkInteraction path p.fields = [] := by
  have hgesture : Entries.get? "interaction" p.fields = some (.text p.gesture.name) := rfl
  have hselector : Entries.get? "selector" p.fields = p.selector.map .text := by
    simp [Interaction.fields, Entries.get?]
  have hvalue : Entries.get? "value" p.fields = p.value.map .text := by
    simp [Interaction.fields, Entries.get?]
  have hurl : Entries.get? "url" p.fields = p.url.map .text := by
    simp [Interaction.fields, Entries.get?]
  have hfind : Gesture.all.find? (fun g => g.name = p.gesture.name) = some p.gesture := by
    cases p.gesture <;> rfl
  have hneeds : ∀ field ∈ gestureNeeds p.gesture, (Entries.get? field p.fields).isSome = true := by
    unfold Interaction.IsEquipped at h
    cases hg : p.gesture <;> simp only [hg] at h
    all_goals simp [gestureNeeds, hselector, hvalue, hurl, h]
  simp only [checkInteraction, onText, hgesture, hfind]
  refine List.map_eq_nil_iff.2 (List.filter_eq_nil_iff.2 fun field hfield => ?_)
  rw [Bool.not_eq_true, Option.isNone_eq_false_iff]
  exact hneeds field hfield

/-- The check of a request finds no fault in what is written for one without faults. -/
theorem restore_checkRequest {p : Request} (hk : ("api_call", fields) ∈ operationFields)
    (hm : Meets part fields) (h : checkRequest path part = [])
    (hread : Request.decode (.map part) = .ok p) : checkRequest path p.fields = [] := by
  cases lookup_operationFields hk
  have hmethod : checkChoice path p.fields "method" (Method.all.map Method.name) = [] := by
    refine checkChoice_eq_nil (a := some p.method) rfl ?_
    intro method
    cases method <;> decide
  have hstatus : Entries.get? "expect_status" p.fields = Entries.get? "expect_status" part := by
    simp only [Request.decode, bind_eq_ok_iff] at hread
    obtain ⟨_, hr, _, -, _, -, _, -, _, hstatus, hread⟩ := hread
    cases hr
    cases hread
    rw [hm.get?_of_optional (by decide) (by decide) hstatus (Keeps.count 16)]
    simp [Request.fields, Entries.get?]
  unfold checkRequest
  rw [hmethod, onNat_congr hstatus]
  exact (List.append_eq_nil_iff.1 h).2

/-- The smart code of what an operation creates stands among its fields. -/
theorem get?_smartCode (o : Operation) :
    Entries.get? "smart_code" o.payload = o.smartCode?.map .text := by
  cases o <;> simp [Operation.payload, Operation.smartCode?, NewEntity.fields,
    NewTransaction.fields, NewRelationship.fields, NewField.fields, Interaction.fields,
    Request.fields, Entries.get?]

theorem mem_codes {code : String} (h : o.smartCode? = some code) : code ∈ o.codes := by
  cases o with
  | transaction p =>
    cases h
    exact List.mem_cons_self
  | _ => exact Option.mem_toList.2 h

/-- The fields of an operation are those of its kind. -/
theorem within_payload (h : o.ReadFrom part kind) (hk : (kind, fields) ∈ operationFields) :
    Within (fields.map Field.name) o.payload := by
  have hfields := lookup_operationFields hk
  cases h <;> cases hfields <;> simp [Operation.payload, NewEntity.fields,
    NewTransaction.fields, NewRelationship.fields, NewField.fields, Interaction.fields,
    Request.fields, need, may]

/-- What the kind of an operation asks for, in what is written for it. -/
structure RestoredOperation (path kind : String) (fields : List Field) (o : Operation) : Prop where
  kind_eq : o.kind = kind
  table : Meets o.payload fields
  read : Operation.decodeKind kind (.map o.payload) = .ok o
  check : checkOperation path kind o.payload = []

theorem restore_operation (h : o.ReadFrom part kind) (hk : (kind, fields) ∈ operationFields)
    (hm : Meets part fields) (ho : checkOperation path kind part = []) :
    RestoredOperation path kind fields o := by
  cases h with
  | entity h =>
    obtain ⟨hmeets, hread⟩ := restore_entity hk hm h
    exact ⟨rfl, hmeets, map_eq_ok_iff.2 ⟨_, hread, rfl⟩, rfl⟩
  | transaction h =>
    obtain ⟨hmeets, hread⟩ := restore_transaction hk hm ho h
    refine ⟨rfl, hmeets, map_eq_ok_iff.2 ⟨_, hread, rfl⟩, ?_⟩
    refine onList_restored restore_lineItem ho (get?_of_decodeTransaction h).2 ?_
    simp [Operation.payload, NewTransaction.fields, Entries.get?]
  | relationship h =>
    obtain ⟨hmeets, hread⟩ := restore_relationship hk hm h
    exact ⟨rfl, hmeets, map_eq_ok_iff.2 ⟨_, hread, rfl⟩, rfl⟩
  | field h =>
    obtain ⟨hmeets, hread⟩ := restore_field hk hm h
    exact ⟨rfl, hmeets, map_eq_ok_iff.2 ⟨_, hread, rfl⟩, rfl⟩
  | interaction h =>
    obtain ⟨hmeets, hread⟩ := restore_interaction hk hm h
    refine ⟨rfl, hmeets, map_eq_ok_iff.2 ⟨_, hread, rfl⟩, ?_⟩
    cases lookup_operationFields hk
    exact checkInteraction_eq_nil (isEquipped_of_checkInteraction hm ho h)
  | request h =>
    obtain ⟨hmeets, hread⟩ := restore_request hk hm h
    exact ⟨rfl, hmeets, map_eq_ok_iff.2 ⟨_, hread, rfl⟩, restore_checkRequest hk hm ho h⟩
  | wait h =>
    obtain ⟨hmeets, hread⟩ := restore_wait hk hm h
    exact ⟨rfl, hmeets, map_eq_ok_iff.2 ⟨_, hread, rfl⟩, rfl⟩

/-! ## Whole actions -/

/-- Reading an operation looks at the fields of its kind only. -/
theorem decodeKind_congr {e : Entries} (hk : (kind, fields) ∈ operationFields)
    (h : Agrees fields e part) :
    Operation.decodeKind kind (.map e) = Operation.decodeKind kind (.map part) := by
  simp only [operationFields, List.mem_cons, Prod.mk.injEq, List.not_mem_nil, or_false] at hk
  rcases hk with ⟨rfl, rfl⟩ | ⟨rfl, rfl⟩ | ⟨rfl, rfl⟩ | ⟨rfl, rfl⟩ | ⟨rfl, rfl⟩ | ⟨rfl, rfl⟩ |
    ⟨rfl, rfl⟩
  all_goals
    simp only [Agrees, List.forall_mem_cons, need, may] at h
    simp only [Operation.decodeKind, NewEntity.decode, NewTransaction.decode,
      NewRelationship.decode, NewField.decode, Interaction.decode, Request.decode, decodeWait,
      record_bind, required, Decode.optional, defaulted, h]

theorem checkInteraction_congr {e : Entries}
    (h : Agrees [need "interaction" .name, may "selector" .name, may "value" .text,
      may "url" .name] e part) : checkInteraction path e = checkInteraction path part := by
  simp only [Agrees, List.forall_mem_cons, need, may] at h
  obtain ⟨hinteraction, hselector, hvalue, hurl, -⟩ := h
  have hneeds : ∀ gesture, ∀ field ∈ gestureNeeds gesture,
      (Entries.get? field e).isNone = (Entries.get? field part).isNone := by
    intro gesture
    cases gesture <;> simp [gestureNeeds, hselector, hvalue, hurl]
  unfold checkInteraction
  rw [onText_congr hinteraction]
  congr 1
  funext s
  split
  · exact onText_congr hinteraction _
  · rename_i gesture _
    rw [List.filter_congr (hneeds gesture)]

/-- Checking an operation looks at the fields of its kind only. -/
theorem checkOperation_congr {e : Entries} (hk : (kind, fields) ∈ operationFields)
    (h : Agrees fields e part) : checkOperation path kind e = checkOperation path kind part := by
  simp only [operationFields, List.mem_cons, Prod.mk.injEq, List.not_mem_nil, or_false] at hk
  rcases hk with ⟨rfl, rfl⟩ | ⟨rfl, rfl⟩ | ⟨rfl, rfl⟩ | ⟨rfl, rfl⟩ | ⟨rfl, rfl⟩ | ⟨rfl, rfl⟩ |
    ⟨rfl, rfl⟩
  · rfl
  · have hlines : Entries.get? "line_items" e = Entries.get? "line_items" part :=
      h (may "line_items" .list) (by decide)
    simp only [checkOperation, onList, hlines]
  · rfl
  · rfl
  · exact checkInteraction_congr h
  · have hmethod : Entries.get? "method" e = Entries.get? "method" part :=
      h (need "method" .name) (by decide)
    have hstatus : Entries.get? "expect_status" e = Entries.get? "expect_status" part :=
      h (may "expect_status" .count) (by decide)
    simp only [checkOperation, checkRequest, checkChoice, onText, onNat, hmethod, hstatus]
  · rfl

end Operations

section Actions

variable {a : Action} {kind : String} {part : Entries} {fields : List Field}

/-- The fields of the operation stand in the action. -/
theorem agrees_encode (hk : (kind, fields) ∈ operationFields) :
    Agrees fields (written a.encode) a.operation.payload := by
  have hdisjoint : ∀ row ∈ operationFields, ∀ field ∈ row.2,
      field.name ∉ actionFields.map Field.name := by decide
  intro field hf
  have hname := hdisjoint _ hk field hf
  simp only [actionFields, need, may, List.map_cons, List.map_nil, List.mem_cons,
    List.not_mem_nil, or_false, not_or] at hname
  obtain ⟨htype, hpersona, hstore, hdescription⟩ := hname
  simp [Action.encode, Operation.fields, Entries.get?, Ne.symm htype, Ne.symm hpersona,
    Ne.symm hstore, Ne.symm hdescription]

/-- The fields of every action are no fields of an operation. -/
theorem get?_encode (hk : (kind, fields) ∈ operationFields)
    (hw : Within (fields.map Field.name) a.operation.payload) :
    Entries.get? "persona" (written a.encode) = a.persona.map .text ∧
      Entries.get? "store_as" (written a.encode) = a.storeAs.map .text ∧
      Entries.get? "description" (written a.encode) = a.description.map .text := by
  have hdisjoint : ∀ row ∈ operationFields, ∀ name ∈ ["persona", "store_as", "description"],
      name ∉ row.2.map Field.name := by decide
  have hnone : ∀ name ∈ ["persona", "store_as", "description"],
      Entries.get? name a.operation.payload = none :=
    fun name hname => hw.get?_eq_none (hdisjoint _ hk name hname)
  simp only [List.forall_mem_cons] at hnone
  obtain ⟨hpersona, hstore, hdescription, -⟩ := hnone
  refine ⟨?_, ?_, ?_⟩
  · simp [Action.encode, Operation.fields, Entries.get?, hpersona]
  · simp [Action.encode, Operation.fields, Entries.get?, hstore]
  · simp [Action.encode, Operation.fields, Entries.get?, hdescription]

theorem within_encode (hw : Within (fields.map Field.name) a.operation.payload) :
    Within ((actionFields ++ fields).map Field.name) (written a.encode) := by
  have hpayload : Within ("type" :: "persona" :: "store_as" :: "description" ::
      fields.map Field.name) a.operation.payload := hw.mono fun name hname => by simp [hname]
  simp [Action.encode, Operation.fields, hpayload, actionFields, need, may]

theorem restore_action {personas : List String} (path : String) (names : List String) (v : Value)
    (a : Action) (h : (checkAction personas path names v).1 = [])
    (hread : Action.decode v = .ok a) :
    checkAction personas path names a.encode = ([], (checkAction personas path names v).2) ∧
      Action.decode a.encode = .ok a := by
  have hwell := wellFormed_of_checkAction h hread
  obtain ⟨part, kind, fields, rfl, hpart, hnames⟩ := faultless_of_checkAction h
  have hread := Action.readFrom_of_decode hread
  have hkind : kind ∈ Operation.kinds := List.mem_map_of_mem (f := Prod.fst) hpart.mem
  have hoperation := hpart.readFrom hread
  have hm := hpart.table.append_left
  have hrest := restore_operation hoperation hpart.mem hpart.table.append_right hpart.operation
  have hw := within_payload hoperation hpart.mem
  obtain ⟨e, he⟩ : ∃ e, e = written a.encode := ⟨_, rfl⟩
  have hencode : a.encode = .map e := by rw [he]; rfl
  have hagrees : Agrees fields e a.operation.payload := he ▸ agrees_encode hpart.mem
  have htype : Entries.get? "type" e = some (.text kind) := by
    simp [he, Action.encode, Operation.fields, Entries.get?, hrest.kind_eq]
  obtain ⟨hpersona, hstore, hdescription⟩ := he ▸ get?_encode hpart.mem hw
  obtain ⟨m₁, r₁⟩ := hm.restore_optional e (by decide) hread.persona Keeps.name.restores hpersona
  obtain ⟨m₂, r₂⟩ := hm.restore_optional e (by decide) hread.storeAs Keeps.name.restores hstore
  obtain ⟨m₃, r₃⟩ := hm.restore_optional e (by decide) hread.description Keeps.text.restores
    hdescription
  have hmeets : Meets e (actionFields ++ fields) := by
    have m₀ : (need "type" .name).problem? e = none :=
      (problem?_congr e (htype.trans hpart.kind_eq.symm)).trans (hm _ (by decide))
    refine meets_append.2 ⟨?_, hagrees.meets hrest.table⟩
    simp only [actionFields, meets_cons, meets_nil, and_true]
    exact ⟨m₀, m₁, m₂, m₃⟩
  have hfields : ∀ owner, checkFields path e (actionFields ++ fields) owner = [] :=
    fun owner => checkFields_eq_nil hmeets (he ▸ within_encode hw)
  have hclaim : claim path e "store_as" "store_as name" names =
      claim path part "store_as" "store_as name" names := by
    refine claim_congr (hstore.trans ?_) _ _
    exact (hm.get?_of_optional (by decide) (by decide) hread.storeAs Keeps.name).symm
  have href : checkPersonaRef personas path e = [] := by
    rw [checkPersonaRef_congr (hpersona.trans
      (hm.get?_of_optional (by decide) (by decide) hread.persona Keeps.name).symm)]
    exact hpart.persona
  have hsmart : checkSmartCode path e = [] := by
    have hcode : Entries.get? "smart_code" e = a.operation.smartCode?.map .text := by
      simp [he, Action.encode, Operation.fields, Entries.get?, get?_smartCode]
    exact checkSmartCode_eq_nil hcode fun s hs => hwell.codes s (mem_codes hs)
  rw [hencode, hnames]
  refine ⟨?_, ?_⟩
  · simp only [checkAction, htype, lookup_operationFields hpart.mem, hclaim, hpart.claimed,
      hfields, href, hsmart, checkOperation_congr hpart.mem hagrees, hrest.check, List.append_nil]
  · simp only [Action.decode, Operation.decode, tagged_eq_ok htype hkind, bind_eq_ok_iff]
    refine ⟨_, ⟨_, rfl, ?_⟩, _, r₁, _, r₂, _, r₃, rfl⟩
    exact (decodeKind_congr hpart.mem hagrees).trans hrest.read

end Actions

end ProcessTest.Validation
