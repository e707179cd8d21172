import ProcessTest.Proofs.Decoding.Parts
import ProcessTest.Proofs.Validation.Faultless

/-!
# A document without faults is a definition

The validator and the readers describe the language of documents twice: once by tables of fields
and checks beside them, once by typed records.  Here the two agree on every part.

* `Meets` — a part meets a table: no field of the table has a problem in it.  `Meets.required`,
  `Meets.defaulted` and `Meets.optional` turn a row of a table into a reading that succeeds.
* `succeeds_decodeAction`, `succeeds_decodeStep`, `succeeds_decodeAssertion` — a part without
  faults is read.
* `exists_parse_eq_ok_iff` — a document without faults becomes a definition exactly if its fiscal
  year, where it has one, fits 32 bits.
-/

set_option autoImplicit false

namespace ProcessTest.Validation

open Decode

/-! ## Rows of a table -/

/-- What a field of the given kind may hold in this part is read. -/
def Reads {α : Type} (part : Entries) (name : String) (kind : FieldKind)
    (read : Value → Decoded α) : Prop :=
  ∀ v, Entries.get? name part = some v → kind.accepts v = true → Succeeds (read v)

section Rows

variable {α : Type} {part : Entries} {table : List Field} {name : String} {kind : FieldKind}
  {read : Value → Decoded α}

theorem Meets.required (hm : Meets part table) (hf : need name kind ∈ table)
    (hr : Reads part name kind read) : Succeeds (Decode.required part name read) := by
  rcases problem?_eq_none_cases (hm _ hf) with ⟨-, hreq⟩ | ⟨-, hreq, -⟩ | ⟨v, hg, -, ha⟩
  · cases hreq
  · cases hreq
  · simp only [need] at hg ha
    simpa [Decode.required, hg] using hr v hg ha

theorem Meets.defaulted (hm : Meets part table) (hf : may name kind ∈ table) (hk : kind ≠ .any)
    {default : α} (hr : Reads part name kind read) :
    Succeeds (Decode.defaulted part name default read) := by
  rcases problem?_eq_none_cases (hm _ hf) with ⟨hg, -⟩ | ⟨-, -, hany⟩ | ⟨v, hg, -, ha⟩
  · simp only [may] at hg
    exact ⟨default, by simp [Decode.defaulted, hg]⟩
  · exact absurd hany hk
  · simp only [may] at hg ha
    simpa [Decode.defaulted, hg] using hr v hg ha

theorem Meets.optional (hm : Meets part table) (hf : may name kind ∈ table)
    (hr : Reads part name kind read) : Succeeds (Decode.optional part name read) := by
  rcases problem?_eq_none_cases (hm _ hf) with ⟨hg, -⟩ | ⟨hg, -, -⟩ | ⟨v, hg, hnull, ha⟩
  · simp only [may] at hg
    exact ⟨none, by simp [Decode.optional, hg]⟩
  · simp only [may] at hg
    exact ⟨none, by simp [Decode.optional, hg]⟩
  · simp only [may] at hg ha
    have hread : Decode.optional part name read = (read v).map some := by
      unfold Decode.optional
      split
      · rename_i hn; rw [hn] at hg; cases hg
      · rename_i hn; rw [hn] at hg; cases hg; exact absurd rfl hnull
      · rename_i w _ hn; rw [hn] at hg; cases hg; rfl
    rw [hread]
    exact (hr v hg ha).map

end Rows

/-! ## Kinds of fields -/

section Kinds

variable {part : Entries} {key : String}

theorem succeeds_texts {v : Value} (h : FieldKind.texts.accepts v = true) :
    Succeeds (asList asText v) := by
  cases v with
  | list items =>
    refine succeeds_asList fun v hv => ?_
    obtain ⟨s, rfl⟩ := text_of_areTexts h v hv
    exact .ok s
  | _ => simp [FieldKind.accepts] at h

theorem Reads.name : Reads part key .name asText := by
  intro v _ ha
  obtain ⟨s, rfl⟩ := text_of_accepts_name ha
  exact .ok s

theorem Reads.text : Reads part key .text asText := by
  intro v _ ha
  cases v with
  | text s => exact .ok s
  | _ => simp [FieldKind.accepts] at ha

theorem Reads.bool : Reads part key .bool asBool := by
  intro v _ ha
  cases v with
  | bool b => exact .ok b
  | _ => simp [FieldKind.accepts] at ha

theorem Reads.any : Reads part key .any asIs := fun v _ _ => .ok v

theorem Reads.amount : Reads part key .amount asIs := fun v _ _ => .ok v

theorem Reads.tree : Reads part key .map asIs := fun v _ _ => .ok v

theorem Reads.texts : Reads part key .texts (asList asText) := fun _ _ ha => succeeds_texts ha

theorem Reads.fields : Reads part key .map (asMap asIs) := by
  intro v _ ha
  obtain ⟨entries, rfl⟩ := map_of_accepts ha
  exact succeeds_asMap fun e _ => .ok e.2

theorem Reads.count (hw : Value.WordSizedEntries part) : Reads part key .count (asNat 64) :=
  fun _ hg ha => succeeds_asNat_of_wordSized (hw.of_get? hg) ha

/-- A count below a bound that a check enforces. -/
theorem Reads.bounded {bits : Nat}
    (h : ∀ n, (Entries.get? key part).bind Value.natural? = some n → n < Nat.pow 2 bits) :
    Reads part key .count (asNat bits) := by
  intro v hg ha
  obtain ⟨n, hn⟩ := Option.isSome_iff_exists.1 ha
  have hlt := h n (by rw [hg]; exact hn)
  obtain rfl := eq_of_natural? hn
  exact succeeds_asNat hlt

theorem Reads.choice {α : Type} {place : Place} {all : List α} {nameOf : α → String}
    {path : String} (h : checkChoice path part key (all.map nameOf) = []) :
    Reads part key .name (choice place all nameOf) := by
  intro v hg ha
  obtain ⟨s, rfl⟩ := text_of_accepts_name ha
  refine succeeds_choice ?_
  by_cases hs : s ∈ all.map nameOf
  · exact hs
  · simp [checkChoice, onText, hg, hs] at h

/-- A map that is checked as a whole. -/
theorem Reads.map {α : Type} {read : Value → Decoded α} {check : Entries → List Fault}
    (h : onMap part key check = [])
    (hr : ∀ entries, Entries.get? key part = some (.map entries) → check entries = [] →
      Succeeds (read (.map entries))) : Reads part key .map read := by
  intro v hg ha
  obtain ⟨entries, rfl⟩ := map_of_accepts ha
  exact hr entries hg (by simpa [onMap, hg] using h)

/-- A list whose items are checked one by one. -/
theorem Reads.list {α : Type} {read : Value → Decoded α} (hw : Value.WordSizedEntries part)
    {check : String → Value → List Fault} {path : String} {index : Nat}
    (h : onList part key (checkItems check path index) = [])
    (hr : ∀ p v, v.WordSized → check p v = [] → Succeeds (read v)) :
    Reads part key .list (asList read) := by
  intro v hg ha
  obtain ⟨items, rfl⟩ := list_of_accepts ha
  have hitems : checkItems check path index items = [] := by simpa [onList, hg] using h
  have hsized : Value.WordSizedItems items := hw.of_get? hg
  refine succeeds_asList fun w hv => ?_
  obtain ⟨p, hp⟩ := eq_nil_of_checkItems hitems w hv
  exact hr p w (hsized.of_mem hv) hp

end Kinds

/-! ## Actions -/

theorem succeeds_decodeLineItem {path : String} {v : Value} (h : checkLineItem path v = []) :
    Succeeds (LineItem.decode .inside v) := by
  cases v with
  | map item =>
    simp only [checkLineItem, List.append_eq_nil_iff] at h
    obtain ⟨⟨hfields, hside⟩, -⟩ := h
    have hm := meets_of_checkFields hfields
    refine .record ?_
    exact (hm.optional (by decide) (.choice hside)).bind fun _ =>
      (hm.optional (by decide) .name).bind fun _ =>
      (hm.optional (by decide) .amount).bind fun _ =>
      (hm.optional (by decide) .amount).bind fun _ =>
      (hm.optional (by decide) .amount).bind fun _ =>
      (hm.optional (by decide) .name).bind fun _ =>
      (hm.optional (by decide) .text).bind fun _ => .ok _
  | _ => simp [checkLineItem] at h

section Operations

variable {path : String} {part : Entries} {fields : List Field}

theorem succeeds_decodeEntity (hm : Meets part
    [need "entity_type" .name, need "entity_name" .name, may "entity_code" .name,
      need "smart_code" .name, may "dynamic_fields" .map, may "metadata" .map]) :
    Succeeds (NewEntity.decode (.map part)) := by
  refine .record ?_
  exact (hm.required (by decide) .name).bind fun _ =>
    (hm.required (by decide) .name).bind fun _ =>
    (hm.optional (by decide) .name).bind fun _ =>
    (hm.required (by decide) .name).bind fun _ =>
    (hm.defaulted (by decide) (by decide) .fields).bind fun _ =>
    (hm.optional (by decide) .tree).bind fun _ => .ok _

theorem succeeds_decodeTransaction (hw : Value.WordSizedEntries part)
    (hm : Meets part
      [need "transaction_type" .name, need "smart_code" .name, may "transaction_code" .name,
        may "transaction_date" .name, may "total_amount" .amount, may "source_entity_id" .name,
        may "target_entity_id" .name, may "line_items" .list, may "metadata" .map])
    (hlines : onList part "line_items" (checkItems checkLineItem path 0) = []) :
    Succeeds (NewTransaction.decode (.map part)) := by
  refine .record ?_
  exact (hm.required (by decide) .name).bind fun _ =>
    (hm.required (by decide) .name).bind fun _ =>
    (hm.optional (by decide) .name).bind fun _ =>
    (hm.optional (by decide) .name).bind fun _ =>
    (hm.optional (by decide) .amount).bind fun _ =>
    (hm.optional (by decide) .name).bind fun _ =>
    (hm.optional (by decide) .name).bind fun _ =>
    (hm.defaulted (by decide) (by decide)
      (.list hw hlines fun _ _ _ hv => succeeds_decodeLineItem hv)).bind fun _ =>
    (hm.optional (by decide) .tree).bind fun _ => .ok _

theorem succeeds_decodeRelationship (hm : Meets part
    [need "from_entity_id" .name, need "to_entity_id" .name, need "relationship_type" .name,
      need "smart_code" .name, may "metadata" .map]) :
    Succeeds (NewRelationship.decode (.map part)) := by
  refine .record ?_
  exact (hm.required (by decide) .name).bind fun _ =>
    (hm.required (by decide) .name).bind fun _ =>
    (hm.required (by decide) .name).bind fun _ =>
    (hm.required (by decide) .name).bind fun _ =>
    (hm.optional (by decide) .tree).bind fun _ => .ok _

theorem succeeds_decodeField (hm : Meets part
    [need "entity_id" .name, need "field_name" .name, need "field_value" .any,
      may "smart_code" .name]) : Succeeds (NewField.decode (.map part)) := by
  refine .record ?_
  exact (hm.required (by decide) .name).bind fun _ =>
    (hm.required (by decide) .name).bind fun _ =>
    (hm.required (by decide) .any).bind fun _ =>
    (hm.optional (by decide) .name).bind fun _ => .ok _

/-- The gesture of an interaction without faults is one of the gestures. -/
theorem checkChoice_of_checkInteraction (h : checkInteraction path part = []) :
    checkChoice path part "interaction" (Gesture.all.map Gesture.name) = [] := by
  unfold checkInteraction onText at h
  unfold checkChoice onText
  split
  · rename_i s hg
    simp only [hg] at h
    cases hfound : Gesture.all.find? fun g => decide (g.name = s) with
    | none => simpa [hfound, checkChoice, onText, hg] using h
    | some gesture =>
      have hmem := List.mem_of_find?_eq_some hfound
      have hname : gesture.name = s := by simpa using List.find?_some hfound
      simp [← hname, List.mem_map_of_mem hmem]
  · rfl

theorem succeeds_decodeInteraction (hm : Meets part
    [need "interaction" .name, may "selector" .name, may "value" .text, may "url" .name])
    (h : checkInteraction path part = []) : Succeeds (Interaction.decode (.map part)) := by
  refine .record ?_
  exact (hm.required (by decide) (.choice (checkChoice_of_checkInteraction h))).bind fun _ =>
    (hm.optional (by decide) .name).bind fun _ =>
    (hm.optional (by decide) .text).bind fun _ =>
    (hm.optional (by decide) .name).bind fun _ => .ok _

/-- An expected status without faults fits 16 bits. -/
theorem status_lt_of_checkRequest (h : checkRequest path part = []) {n : Nat}
    (hn : (Entries.get? "expect_status" part).bind Value.natural? = some n) : n < Nat.pow 2 16 := by
  have hstatus := (List.append_eq_nil_iff.1 h).2
  simp only [onNat, hn, Bool.and_eq_true, decide_eq_true_eq] at hstatus
  split at hstatus
  · rename_i hrange
    simp only [Nat.pow_eq, Nat.reducePow]
    omega
  · cases hstatus

theorem succeeds_decodeRequest (hm : Meets part
    [need "method" .name, need "endpoint" .name, may "body" .any, may "expect_status" .count])
    (h : checkRequest path part = []) : Succeeds (Request.decode (.map part)) := by
  have hmethod := (List.append_eq_nil_iff.1 h).1
  refine .record ?_
  exact (hm.required (by decide) (.choice hmethod)).bind fun _ =>
    (hm.required (by decide) .name).bind fun _ =>
    (hm.optional (by decide) .any).bind fun _ =>
    (hm.optional (by decide) (.bounded fun _ => status_lt_of_checkRequest h)).bind fun _ => .ok _

theorem succeeds_decodeWait (hw : Value.WordSizedEntries part)
    (hm : Meets part [need "duration_ms" .count]) : Succeeds (decodeWait (.map part)) := by
  refine .record ?_
  exact hm.required (by decide) (.count hw)

/-- The operation of a known kind is read. -/
theorem succeeds_decodeKind {kind : String} (hw : Value.WordSizedEntries part)
    (hk : (kind, fields) ∈ operationFields) (hm : Meets part fields)
    (ho : checkOperation path kind part = []) :
    Succeeds (Operation.decodeKind kind (.map part)) := by
  simp only [operationFields, List.mem_cons, Prod.mk.injEq, List.not_mem_nil, or_false] at hk
  rcases hk with ⟨rfl, rfl⟩ | ⟨rfl, rfl⟩ | ⟨rfl, rfl⟩ | ⟨rfl, rfl⟩ | ⟨rfl, rfl⟩ | ⟨rfl, rfl⟩ |
    ⟨rfl, rfl⟩
  · exact (succeeds_decodeEntity hm).map
  · exact (succeeds_decodeTransaction hw hm ho).map
  · exact (succeeds_decodeRelationship hm).map
  · exact (succeeds_decodeField hm).map
  · exact (succeeds_decodeInteraction hm ho).map
  · exact (succeeds_decodeRequest hm ho).map
  · exact (succeeds_decodeWait hw hm).map

end Operations

theorem succeeds_decodeAction {personas names : List String} {path : String} {v : Value}
    (hw : v.WordSized) (h : (checkAction personas path names v).1 = []) :
    Succeeds (Action.decode v) := by
  obtain ⟨part, kind, fields, rfl, ha, -⟩ := faultless_of_checkAction h
  have hkind : kind ∈ Operation.kinds := List.mem_map_of_mem (f := Prod.fst) ha.mem
  have htag : tagged .inside "type" Operation.kinds (.map part) = .ok (kind, .map part) :=
    tagged_eq_ok ha.kind_eq hkind
  have hoperation : Succeeds (Operation.decode .inside (.map part)) := by
    rw [Operation.decode, htag]
    exact succeeds_decodeKind hw ha.mem ha.table.append_right ha.operation
  have hm := ha.table.append_left
  exact hoperation.bind fun _ =>
    (hm.optional (by decide) .name).bind fun _ =>
    (hm.optional (by decide) .name).bind fun _ =>
    (hm.optional (by decide) .text).bind fun _ => .ok _

theorem Reads.actions {personas names : List String} {path key : String} {part : Entries}
    (hw : Value.WordSizedEntries part)
    (h : (checkActions personas path key names part).1 = []) :
    Reads part key .list (asList Action.decode) := by
  intro v hg ha
  obtain ⟨items, rfl⟩ := list_of_accepts ha
  have hsized : Value.WordSizedItems items := hw.of_get? hg
  simp only [checkActions, hg] at h
  refine succeeds_asList fun w hv => ?_
  obtain ⟨p, ns, hp⟩ := eq_nil_of_checkEach h w hv
  exact succeeds_decodeAction (hsized.of_mem hv) hp

/-! ## Steps -/

theorem succeeds_decodeStep {personas names : List String} {path : String} {v : Value}
    (hw : v.WordSized) (h : (checkStep personas path names v).1 = []) :
    Succeeds (Step.decode v) := by
  obtain ⟨part, rfl, hs, -⟩ := faultless_of_checkStep h
  have hm := hs.table
  have hretry : Reads part "retry" .count (asNat 32) :=
    .bounded fun n hn => Nat.lt_of_le_of_lt (hs.retry n hn) (by decide)
  refine .record ?_
  exact (hm.required (by decide) .name).bind fun _ =>
    (hm.defaulted (by decide) (by decide) .text).bind fun _ =>
    (hm.required (by decide) .name).bind fun _ =>
    (hm.required (by decide) (.actions hw hs.actions)).bind fun _ =>
    (hm.defaulted (by decide) (by decide) .texts).bind fun _ =>
    (hm.defaulted (by decide) (by decide) .texts).bind fun _ =>
    (hm.defaulted (by decide) (by decide) (.count hw)).bind fun _ =>
    (hm.defaulted (by decide) (by decide) hretry).bind fun _ => .ok _

/-! ## Assertions -/

theorem succeeds_decodeJournalEntry {path : String} {v : Value}
    (h : checkJournalLine path v = []) : Succeeds (JournalEntry.decode v) := by
  cases v with
  | map part =>
    have hm := meets_of_checkFields h
    refine .record ?_
    exact (hm.optional (by decide) .amount).bind fun _ =>
      (hm.optional (by decide) .amount).bind fun _ => .ok _
  | _ => simp [checkJournalLine] at h

theorem succeeds_decodePageCheck {path : String} {v : Value} (h : checkPageCheck path v = []) :
    Succeeds (PageCheck.decode v) := by
  cases v with
  | map part =>
    have hm := meets_of_checkFields h
    refine .record ?_
    exact (hm.required (by decide) .name).bind fun _ =>
      (hm.optional (by decide) .bool).bind fun _ =>
      (hm.optional (by decide) .text).bind fun _ => .ok _
  | _ => simp [checkPageCheck] at h

/-- The rows of a transition table without faults list texts. -/
theorem Reads.transitions {path : String} {part : Entries}
    (h : onMap part "transitions" (checkTransitions path) = []) :
    Reads part "transitions" .map (asMap (asList asText)) := by
  refine .map h fun table _ hrows => succeeds_asMap fun row hrow => ?_
  have hfilter := List.filter_eq_nil_iff.1 (List.map_eq_nil_iff.1 hrows) row hrow
  exact succeeds_texts (by simpa using hfilter)

section Assertions

variable {path : String} {part : Entries} {fields : List Field}

/-- The rule of a known name is read. -/
theorem succeeds_decodeNamed {rule : String} (hw : Value.WordSizedEntries part)
    (hk : (rule, fields) ∈ ruleFields) (hm : Meets part fields)
    (ho : checkOperands path rule part = []) :
    Succeeds (Rule.decodeNamed rule (.map part)) := by
  simp only [ruleFields, List.mem_cons, Prod.mk.injEq, List.not_mem_nil, or_false] at hk
  rcases hk with ⟨rfl, rfl⟩ | ⟨rfl, rfl⟩ | ⟨rfl, rfl⟩ | ⟨rfl, rfl⟩ | ⟨rfl, rfl⟩
  · refine .record ?_
    exact (hm.required (by decide) .amount).bind fun _ =>
      (hm.required (by decide) .amount).bind fun _ =>
      (hm.required (by decide) .amount).bind fun _ =>
      (hm.optional (by decide) .amount).bind fun _ => .ok _
  · refine .record ?_
    exact (hm.required (by decide)
        (.list hw ho fun _ _ _ hv => succeeds_decodeJournalEntry hv)).bind fun _ =>
      (hm.optional (by decide) .amount).bind fun _ => .ok _
  · refine .record ?_
    exact (hm.required (by decide) .amount).bind fun _ =>
      (hm.required (by decide) .amount).bind fun _ =>
      (hm.defaulted (by decide) (by decide) .bool).bind fun _ =>
      (hm.optional (by decide) .amount).bind fun _ =>
      (hm.optional (by decide) .amount).bind fun _ => .ok _
  · refine .record ?_
    exact (hm.required (by decide) .name).bind fun _ =>
      (hm.required (by decide) .name).bind fun _ =>
      (hm.required (by decide) (.transitions ho)).bind fun _ => .ok _
  · refine .record ?_
    exact (hm.required (by decide) .name).bind fun _ => .ok _

theorem succeeds_decodeRule (hw : Value.WordSizedEntries part) (h : checkRule path part = []) :
    Succeeds (Rule.decode .inside (.map part)) := by
  obtain ⟨rule, operands, hr⟩ := faultless_of_checkRule h
  have hname : rule ∈ Rule.names := List.mem_map_of_mem (f := Prod.fst) hr.mem
  have htag : tagged .inside "rule" Rule.names (.map part) = .ok (rule, .map part) :=
    tagged_eq_ok hr.rule_eq hname
  rw [Rule.decode, htag]
  exact succeeds_decodeNamed hw hr.mem hr.table.append_right hr.operands

/-- The description of a rule's assertion stands among the fields of the rule. -/
theorem succeeds_description (h : checkRule path part = []) :
    Succeeds (Decode.optional part "description" asText) := by
  obtain ⟨rule, operands, hr⟩ := faultless_of_checkRule h
  exact hr.table.append_left.append_left.optional (by decide) .text

/-- The assertion of a known kind is read. -/
theorem succeeds_decodeCheck {kind : String} (hw : Value.WordSizedEntries part)
    (ha : FaultlessAssertion path part kind fields) :
    Succeeds (Assertion.decodeKind kind (.map part)) := by
  have hk := ha.mem
  simp only [checkKindFields, List.mem_cons, Prod.mk.injEq, List.not_mem_nil, or_false] at hk
  rcases hk with ⟨rfl, rfl⟩ | ⟨rfl, rfl⟩ | ⟨rfl, rfl⟩ | ⟨rfl, rfl⟩
  · have hm := ha.table (by decide)
    refine .record ?_
    exact (hm.optional (by decide) .text).bind fun _ =>
      (hm.required (by decide) .name).bind fun _ =>
      (hm.defaulted (by decide) (by decide) .fields).bind fun _ =>
      (hm.required (by decide) (.count hw)).bind fun _ => .ok _
  · have hm := ha.table (by decide)
    have hchecks :
        onList part "checks" (checkItems checkPageCheck (inField path "checks") 0) = [] := by
      have hpage := ha.page rfl
      unfold checkPage onList at hpage
      unfold onList
      split at hpage
      · exact (List.append_eq_nil_iff.1 hpage).2
      · rfl
    refine .record ?_
    exact (hm.optional (by decide) .text).bind fun _ =>
      (hm.required (by decide)
        (.list hw hchecks fun _ _ _ hv => succeeds_decodePageCheck hv)).bind fun _ => .ok _
  · have hrule := ha.rule rfl
    exact (succeeds_description hrule).bind fun _ =>
      (succeeds_decodeRule hw hrule).bind fun _ => .ok _
  · have hm := ha.table (by decide)
    refine .record ?_
    exact (hm.optional (by decide) .text).bind fun _ =>
      (hm.required (by decide) .name).bind fun _ =>
      (hm.optional (by decide) .any).bind fun _ => .ok _

end Assertions

theorem succeeds_decodeAssertion {path : String} {v : Value} (hw : v.WordSized)
    (h : checkAssertion path v = []) : Succeeds (Assertion.decode v) := by
  obtain ⟨part, kind, fields, rfl, ha⟩ := faultless_of_checkAssertion h
  have hkind : kind ∈ Check.kinds := List.mem_map_of_mem (f := Prod.fst) ha.mem
  have htag : tagged .direct "type" Check.kinds (.map part) = .ok (kind, .map part) :=
    tagged_eq_ok ha.kind_eq hkind
  rw [Assertion.decode, htag]
  exact succeeds_decodeCheck hw ha

/-! ## Documents -/

theorem succeeds_decodePersona {persona : String × Value} (h : checkPersona persona = []) :
    Succeeds (Persona.decode persona.2) := by
  obtain ⟨name, v⟩ := persona
  cases v with
  | map part =>
    have hm := meets_of_checkFields h
    refine .record ?_
    exact (hm.required (by decide) .name).bind fun _ =>
      (hm.defaulted (by decide) (by decide) .texts).bind fun _ => .ok _
  | _ => simp [checkPersona] at h

theorem Reads.personas {root : Entries} (h : onMap root "personas" checkPersonas = []) :
    Reads root "personas" .map (asMap Persona.decode) := by
  refine .map h fun personas _ hall => succeeds_asMap fun persona hp => ?_
  exact succeeds_decodePersona
    (List.flatMap_eq_nil_iff.1 (List.append_eq_nil_iff.1 hall).2 persona hp)

theorem Reads.steps {personas names : List String} {root : Entries}
    (hw : Value.WordSizedEntries root) (h : (checkSteps personas names root).1 = []) :
    Reads root "steps" .list (asList Step.decode) := by
  intro v hg ha
  obtain ⟨items, rfl⟩ := list_of_accepts ha
  have hsized : Value.WordSizedItems items := hw.of_get? hg
  refine succeeds_asList fun w hv => ?_
  cases items with
  | nil => cases hv
  | cons first rest =>
    simp only [checkSteps, hg] at h
    obtain ⟨p, ns, hp⟩ := eq_nil_of_checkEach h w hv
    exact succeeds_decodeStep (hsized.of_mem hv) hp

/-- A fiscal year of 32 bits is read. -/
theorem Reads.fiscalYear {part : Entries}
    (hy : ∀ n, (Entries.get? "fiscal_year" part).bind Value.natural? = some n →
      n ≤ Nat.pow 2 31 - 1) :
    Reads part "fiscal_year" .count asInt32 := by
  intro v hg ha
  obtain ⟨n, hn⟩ := Option.isSome_iff_exists.1 ha
  have hle := hy n (by rw [hg]; exact hn)
  obtain rfl := eq_of_natural? hn
  have hrange : (decide (-(Nat.pow 2 31 : Int) ≤ Int.ofNat n) &&
      decide (Int.ofNat n ≤ (Nat.pow 2 31 - 1 : Int))) = true := by
    simp only [Nat.pow_eq, Nat.reducePow] at hle
    simp only [Bool.and_eq_true, decide_eq_true_eq, Int.ofNat_eq_natCast, Nat.pow_eq,
      Nat.reducePow]
    omega
  exact ⟨_, if_pos hrange⟩

theorem succeeds_decodeSetting {part : Entries} (h : checkSetting part = [])
    (hy : ∀ n, (Entries.get? "fiscal_year" part).bind Value.natural? = some n →
      n ≤ Nat.pow 2 31 - 1) :
    Succeeds (Setting.decode (.map part)) := by
  have hm := meets_of_checkFields (List.append_eq_nil_iff.1 h).1
  refine .record ?_
  exact (hm.optional (by decide) .name).bind fun _ =>
    (hm.required (by decide) .name).bind fun _ =>
    (hm.defaulted (by decide) (by decide) .name).bind fun _ =>
    (hm.defaulted (by decide) (by decide) .name).bind fun _ =>
    (hm.optional (by decide) (.fiscalYear hy)).bind fun _ =>
    (hm.optional (by decide) .name).bind fun _ => .ok _

theorem succeeds_decodeMetadata {part : Entries} (h : checkMetadata part = []) :
    Succeeds (Metadata.decode (.map part)) := by
  obtain ⟨hfields, hpriority⟩ := List.append_eq_nil_iff.1 h
  have hm := meets_of_checkFields hfields
  refine .record ?_
  exact (hm.defaulted (by decide) (by decide) .texts).bind fun _ =>
    (hm.defaulted (by decide) (by decide) (.choice hpriority)).bind fun _ =>
    (hm.defaulted (by decide) (by decide) .texts).bind fun _ => .ok _

theorem succeeds_decodePolicy {part : Entries} (h : checkPolicy part = []) :
    Succeeds (Policy.decode (.map part)) := by
  obtain ⟨hfields, hfailure⟩ := List.append_eq_nil_iff.1 h
  have hm := meets_of_checkFields hfields
  refine .record ?_
  exact (hm.defaulted (by decide) (by decide) (.choice hfailure)).bind fun _ =>
    (hm.defaulted (by decide) (by decide) .bool).bind fun _ => .ok _

/-- The fiscal year of a document, where its setting has one. -/
def fiscalYear? (v : Value) : Option Nat :=
  ((v.field? "context").bind (Value.field? "fiscal_year")).bind Value.natural?

/-- A document without faults is read, if its fiscal year fits 32 bits. -/
theorem succeeds_decode {v : Value} (hw : v.WordSized) (hv : validate v = [])
    (hy : ∀ n, fiscalYear? v = some n → n ≤ Nat.pow 2 31 - 1) : Succeeds (Definition.decode v) := by
  obtain ⟨root, rfl, hr⟩ := faultless_of_validate hv
  have hm := hr.table
  have hsetting : Reads root "context" .map Setting.decode := by
    refine .map hr.setting fun part hg hpart => succeeds_decodeSetting hpart fun n hn => hy n ?_
    simpa [fiscalYear?, Value.field?, hg] using hn
  refine .record ?_
  exact (hm.defaulted (by decide) (by decide) .name).bind fun _ =>
    (hm.required (by decide) .name).bind fun _ =>
    (hm.required (by decide) .name).bind fun _ =>
    (hm.defaulted (by decide) (by decide) .name).bind fun _ =>
    (hm.optional (by decide) .text).bind fun _ =>
    (hm.required (by decide) hsetting).bind fun _ =>
    (hm.required (by decide) (.personas hr.personas)).bind fun _ =>
    (hm.defaulted (by decide) (by decide) (.actions hw hr.setup)).bind fun _ =>
    (hm.required (by decide) (.steps hw hr.steps)).bind fun _ =>
    (hm.defaulted (by decide) (by decide) (.actions hw hr.cleanup)).bind fun _ =>
    (hm.defaulted (by decide) (by decide)
      (.list hw hr.assertions fun _ _ hs ha => succeeds_decodeAssertion hs ha)).bind fun _ =>
    (hm.defaulted (by decide) (by decide)
      (.map hr.metadata fun _ _ hp => succeeds_decodeMetadata hp)).bind fun _ =>
    (hm.defaulted (by decide) (by decide)
      (.map hr.policy fun _ _ hp => succeeds_decodePolicy hp)).bind fun _ => .ok _

/-- The fiscal year of a definition that was read fits 32 bits. -/
theorem fiscalYear_le_of_decode {root : Entries} {d : Definition}
    (h : Definition.decode (.map root) = .ok d) {n : Nat}
    (hn : fiscalYear? (.map root) = some n) : n ≤ Nat.pow 2 31 - 1 := by
  obtain ⟨year, hyear, hnat⟩ := Option.bind_eq_some_iff.1 hn
  obtain ⟨context, hcontext, hyear⟩ := Option.bind_eq_some_iff.1 hyear
  obtain rfl := eq_of_natural? hnat
  cases context with
  | map part =>
    have hg : Entries.get? "context" root = some (.map part) := hcontext
    have hy : Entries.get? "fiscal_year" part = some (.number (.int (.ofNat n))) := hyear
    have hsetting := (Definition.readFrom_of_decode h).setting
    simp only [required, hg] at hsetting
    have hread := (Setting.readFrom_of_decode hsetting).fiscalYear
    simp only [Decode.optional, hy, map_eq_ok_iff, asInt32, asInt] at hread
    obtain ⟨m, hm, -⟩ := hread
    split at hm
    · rename_i hrange
      simp only [Bool.and_eq_true, decide_eq_true_eq, Int.ofNat_eq_natCast, Nat.pow_eq,
        Nat.reducePow] at hrange ⊢
      omega
    · cases hm
  | _ => cases hyear

/-- **The readers cover the validator**: a document without faults becomes a definition, unless
its fiscal year does not fit 32 bits. -/
theorem exists_parse_eq_ok_iff {v : Value} (hw : v.WordSized) (hv : validate v = []) :
    (∃ d, parse v = .ok d) ↔ ∀ n, fiscalYear? v = some n → n ≤ Nat.pow 2 31 - 1 := by
  constructor
  · rintro ⟨d, hd⟩ n hn
    obtain ⟨root, rfl, -⟩ := faultless_of_validate hv
    exact fiscalYear_le_of_decode (parse_eq_ok_iff.1 hd).2 hn
  · intro hy
    obtain ⟨d, hd⟩ := succeeds_decode hw hv hy
    exact ⟨d, parse_eq_ok_iff.2 ⟨hv, hd⟩⟩

/-- A sale with two lines, a request that is expected to succeed, and the rule of its states. -/
def saleDocument : Value :=
  .map [("id", .text "sale"), ("title", .text "A sale"),
    ("context", .map [("organization_id", .text "salon"), ("fiscal_year", .number (.int 2026)),
      ("clock", .text "2026-01-31T09:00:00Z")]),
    ("personas", .map [("clerk", .map [("role", .text "clerk")])]),
    ("setup", .list [.map [("type", .text "wait"), ("duration_ms", .number (.int 5)),
      ("store_as", .text "pause")]]),
    ("steps", .list [.map [("id", .text "sell"), ("persona", .text "clerk"),
      ("retry", .number (.int 2)), ("actions", .list [
        .map [("type", .text "create_transaction"), ("transaction_type", .text "sale"),
          ("smart_code", .text "HERA.SALON.CRM.TXN.SALE.v1"), ("store_as", .text "receipt"),
          ("line_items", .list [
            .map [("line_type", .text "debit"), ("line_amount", .number (.int 7))],
            .map [("line_type", .text "credit"), ("line_amount", .text "7")]])],
        .map [("type", .text "api_call"), ("method", .text "POST"), ("endpoint", .text "/sales"),
          ("expect_status", .number (.int 200))]])]]),
    ("assertions", .list [.map [("type", .text "business_rule"),
      ("rule", .text "status_transition"), ("from", .text "open"), ("to", .text "paid"),
      ("transitions", .map [("open", .list [.text "paid"])])]])]

theorem exists_parse_saleDocument :
    saleDocument.WordSized ∧ validate saleDocument = [] ∧
      ∃ d, parse saleDocument = .ok d := by
  have hw : saleDocument.WordSized := by
    simp [saleDocument, Value.WordSized, Value.WordSizedEntries, Value.WordSizedItems]
  have hv : validate saleDocument = [] := by decide +kernel
  have hy : fiscalYear? saleDocument = some 2026 := rfl
  refine ⟨hw, hv, (exists_parse_eq_ok_iff hw hv).2 fun n hn => ?_⟩
  rw [hy] at hn
  cases hn
  decide

end ProcessTest.Validation
