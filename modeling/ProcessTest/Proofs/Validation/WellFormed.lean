import ProcessTest.Proofs.Validation.Names

/-!
# Parsed definitions are well formed

What the rest of the program relies on in a definition, and that every document that becomes a
definition provides it.

* `Action.WellFormed`, `Step.WellFormed`, `Definition.WellFormed` — the invariants, part by part.
* `wellFormed_of_checkAction`, `wellFormed_of_checkStep` — a part without faults that has been read
  is well formed.
* `wellFormed_of_parse` — so is every definition that was parsed.
-/

set_option autoImplicit false

namespace ProcessTest

/-! ## Invariants -/

/-- The smart codes of an operation: that of what it creates, and those of its lines. -/
def Operation.codes : Operation → List String
  | .transaction p => p.smartCode :: p.lines.filterMap LineItem.smartCode
  | o => o.smartCode?.toList

/-- The gesture of an interaction has all that it needs. -/
def Interaction.IsEquipped (p : Interaction) : Prop :=
  match p.gesture with
  | .navigate => p.url.isSome
  | .click | .check => p.selector.isSome
  | .fill | .select | .press => p.selector.isSome ∧ p.value.isSome

/-- An action among some personas. -/
structure Action.WellFormed (personas : List String) (a : Action) : Prop where
  persona : ∀ name, a.persona = some name → name ∈ personas
  codes : ∀ code ∈ a.operation.codes, Template.hasPlaceholder code = false →
    SmartCode.isValid code = true
  equipped : ∀ p, a.operation = .interaction p → p.IsEquipped

/-- A step among some personas. -/
structure Step.WellFormed (personas : List String) (step : Step) : Prop where
  persona : step.persona ∈ personas
  nonempty : step.actions ≠ []
  actions : ∀ a ∈ step.actions, a.WellFormed personas
  timeout : 1 ≤ step.timeout
  retry : step.retry ≤ 10

/-- All that a run and the generators rely on in a definition. -/
structure Definition.WellFormed (d : Definition) : Prop where
  version : d.version = "1.0"
  personas : d.personas ≠ []
  nonempty : d.steps ≠ []
  setup : ∀ a ∈ d.setup, a.WellFormed (d.personas.map Prod.fst)
  steps : ∀ step ∈ d.steps, step.WellFormed (d.personas.map Prod.fst)
  cleanup : ∀ a ∈ d.cleanup, a.WellFormed (d.personas.map Prod.fst)
  names : d.WellNamed
  clock : ∀ clock, d.setting.clock = some clock → Clock.isValid clock = true

/-! ## What a field was read from -/

namespace Decode

variable {α : Type} {part : Entries} {field : String} {read : Value → Decoded α}

theorem exists_of_required {a : α} (h : required part field read = .ok a) :
    ∃ v, Entries.get? field part = some v ∧ read v = .ok a := by
  unfold required at h
  split at h
  · rename_i v hg
    exact ⟨v, hg, h⟩
  · cases h

theorem exists_of_optional {a : α} (h : Decode.optional part field read = .ok (some a)) :
    ∃ v, Entries.get? field part = some v ∧ read v = .ok a := by
  unfold Decode.optional at h
  split at h
  · cases h
  · cases h
  · rename_i v _ hg
    obtain ⟨b, hread, hb⟩ := map_eq_ok_iff.1 h
    cases hb
    exact ⟨v, hg, hread⟩

theorem eq_text_of_asText {v : Value} {s : String} (h : asText v = .ok s) : v = .text s := by
  cases v with
  | text t =>
    cases h
    rfl
  | _ => cases h

theorem get?_of_required {s : String} (h : required part field asText = .ok s) :
    Entries.get? field part = some (.text s) := by
  obtain ⟨v, hg, hread⟩ := exists_of_required h
  rw [hg, eq_text_of_asText hread]

theorem get?_of_optional {s : String} (h : Decode.optional part field asText = .ok (some s)) :
    Entries.get? field part = some (.text s) := by
  obtain ⟨v, hg, hread⟩ := exists_of_optional h
  rw [hg, eq_text_of_asText hread]

/-- A field that is there and not null is read. -/
theorem isSome_of_optional {a : Option α} {v : Value}
    (h : Decode.optional part field read = .ok a) (hg : Entries.get? field part = some v)
    (hv : v ≠ .null) : a.isSome = true := by
  unfold Decode.optional at h
  rw [hg] at h
  split at h
  · rename_i hnone
    cases hnone
  · rename_i hnull
    cases hnull
    exact absurd rfl hv
  · obtain ⟨b, -, rfl⟩ := map_eq_ok_iff.1 h
    rfl

/-- Every item that was read stands in the list. -/
theorem exists_of_mem_items {vs : List Value} {as : List α} (h : items read vs = .ok as) {a : α}
    (ha : a ∈ as) : ∃ v ∈ vs, read v = .ok a := by
  rw [items_eq_ok_iff] at h
  induction h with
  | nil => cases ha
  | cons hfirst _ ih =>
    rcases List.mem_cons.1 ha with rfl | ha
    · exact ⟨_, List.mem_cons_self, hfirst⟩
    · obtain ⟨v, hv, hread⟩ := ih ha
      exact ⟨v, List.mem_cons_of_mem _ hv, hread⟩

theorem keys_of_entries {es : Entries} {as : List (String × α)} (h : entries read es = .ok as) :
    as.map Prod.fst = es.map Prod.fst := by
  induction es generalizing as with
  | nil =>
    cases h
    rfl
  | cons e rest ih =>
    obtain ⟨k, v⟩ := e
    simp only [entries, bind_eq_ok_iff] at h
    obtain ⟨a, -, more, hmore, h⟩ := h
    cases h
    rw [List.map_cons, List.map_cons, ih hmore]

end Decode

namespace Validation

open Decode

section Fields

variable {part : Entries} {table : List Field} {name : String} {kind : FieldKind}

/-- A field that is there, in a part that meets a table, is of its kind. -/
theorem Meets.accepts (hm : Meets part table) (hf : ∃ required, ⟨name, kind, required⟩ ∈ table)
    (hk : kind ≠ .any) {v : Value} (hg : Entries.get? name part = some v) :
    v ≠ .null ∧ kind.accepts v = true := by
  obtain ⟨required, hf⟩ := hf
  rcases problem?_eq_none_cases (hm _ hf) with ⟨hnone, -⟩ | ⟨-, -, hany⟩ | ⟨w, hw, hnull, ha⟩
  · rw [hg] at hnone
    cases hnone
  · exact absurd hany hk
  · rw [hg] at hw
    cases hw
    exact ⟨hnull, ha⟩

/-- A field that is there, in a part that meets a table, has been read. -/
theorem Meets.isSome {α : Type} {read : Value → Decoded α} {a : Option α} (hm : Meets part table)
    (hf : may name kind ∈ table) (hk : kind ≠ .any)
    (hread : Decode.optional part name read = .ok a)
    (hpresent : ∃ v, Entries.get? name part = some v) : a.isSome = true := by
  obtain ⟨v, hv⟩ := hpresent
  exact isSome_of_optional hread hv (hm.accepts ⟨false, hf⟩ hk hv).1

/-- A name that a part needs is a text. -/
theorem Meets.exists_name (hm : Meets part table) (hf : need name .name ∈ table) :
    ∃ s, Entries.get? name part = some (.text s) := by
  rcases problem?_eq_none_cases (hm _ hf) with ⟨-, hreq⟩ | ⟨-, hreq, -⟩ | ⟨v, hg, -, ha⟩
  · cases hreq
  · cases hreq
  · obtain ⟨s, rfl⟩ := text_of_accepts_name ha
    exact ⟨s, hg⟩

end Fields

/-! ## Smart codes -/

/-- A smart code that is written out conforms; the table rules blank ones out. -/
theorem isValid_of_checkSmartCode {path : String} {part : Entries} {table : List Field}
    (hm : Meets part table) (hf : ∃ required, ⟨"smart_code", .name, required⟩ ∈ table)
    (h : checkSmartCode path part = []) {code : String}
    (hg : Entries.get? "smart_code" part = some (.text code))
    (hp : Template.hasPlaceholder code = false) : SmartCode.isValid code = true := by
  have hblank : Text.allBlank code = false := by
    simpa [FieldKind.accepts, isName] using (hm.accepts hf (by decide) hg).2
  simp only [checkSmartCode, onText, hg, hblank, hp, Bool.or_self, Bool.false_eq_true,
    if_false] at h
  cases hvalid : (SmartCode.check code).valid with
  | true => exact hvalid
  | false => simp [hvalid] at h

theorem isValid_of_checkLineItem {path : String} {v : Value} {item : LineItem}
    (h : checkLineItem path v = []) (hread : LineItem.decode .inside v = .ok item) {code : String}
    (hcode : item.smartCode = some code) (hp : Template.hasPlaceholder code = false) :
    SmartCode.isValid code = true := by
  cases v with
  | map part =>
    simp only [checkLineItem, List.append_eq_nil_iff] at h
    obtain ⟨⟨hfields, -⟩, hsmart⟩ := h
    simp only [LineItem.decode, bind_eq_ok_iff] at hread
    obtain ⟨_, hr, _, -, _, -, _, -, _, -, _, -, _, hread, _, -, h⟩ := hread
    cases hr
    cases h
    simp only at hcode
    rw [hcode] at hread
    exact isValid_of_checkSmartCode (meets_of_checkFields hfields) ⟨false, by decide⟩ hsmart
      (get?_of_optional hread) hp
  | _ => simp [checkLineItem] at h

/-- A list whose items were checked and read has only items that the check lets through. -/
theorem forall_of_checkItems {α : Type} {P : α → Prop} {check : String → Value → List Fault}
    {read : Value → Decoded α} {part : Entries} {field path : String} {as : List α}
    (h : onList part field (checkItems check path 0) = [])
    (hread : defaulted part field [] (asList read) = .ok as)
    (hP : ∀ path v a, check path v = [] → read v = .ok a → P a) : ∀ a ∈ as, P a := by
  unfold defaulted at hread
  split at hread
  · rename_i v hg
    cases v with
    | list vs =>
      simp only [onList, hg] at h
      intro a ha
      obtain ⟨v, hv, hva⟩ := exists_of_mem_items hread ha
      obtain ⟨p, hp⟩ := eq_nil_of_checkItems h v hv
      exact hP p v a hp hva
    | _ => cases hread
  · cases hread
    exact fun _ h => absurd h List.not_mem_nil

/-! ## Operations -/

section Operations

variable {path kind : String} {part : Entries} {fields : List Field} {o : Operation}

theorem get?_of_decodeEntity {p : NewEntity} (h : NewEntity.decode (.map part) = .ok p) :
    Entries.get? "smart_code" part = some (.text p.smartCode) := by
  simp only [NewEntity.decode, bind_eq_ok_iff] at h
  obtain ⟨_, hr, _, -, _, -, _, -, _, hread, _, -, _, -, h⟩ := h
  cases hr
  cases h
  exact get?_of_required hread

theorem get?_of_decodeTransaction {p : NewTransaction}
    (h : NewTransaction.decode (.map part) = .ok p) :
    Entries.get? "smart_code" part = some (.text p.smartCode) ∧
      defaulted part "line_items" [] (asList (LineItem.decode .inside)) = .ok p.lines := by
  simp only [NewTransaction.decode, bind_eq_ok_iff] at h
  obtain ⟨_, hr, _, -, _, hread, _, -, _, -, _, -, _, -, _, -, _, hlines, _, -, h⟩ := h
  cases hr
  cases h
  exact ⟨get?_of_required hread, hlines⟩

theorem get?_of_decodeRelationship {p : NewRelationship}
    (h : NewRelationship.decode (.map part) = .ok p) :
    Entries.get? "smart_code" part = some (.text p.smartCode) := by
  simp only [NewRelationship.decode, bind_eq_ok_iff] at h
  obtain ⟨_, hr, _, -, _, -, _, -, _, hread, _, -, h⟩ := h
  cases hr
  cases h
  exact get?_of_required hread

theorem get?_of_decodeField {p : NewField} (h : NewField.decode (.map part) = .ok p)
    {code : String} (hcode : p.smartCode = some code) :
    Entries.get? "smart_code" part = some (.text code) := by
  simp only [NewField.decode, bind_eq_ok_iff] at h
  obtain ⟨_, hr, _, -, _, -, _, -, _, hread, h⟩ := h
  cases hr
  cases h
  simp only at hcode
  rw [hcode] at hread
  exact get?_of_optional hread

/-- No kind of action has two tables. -/
theorem lookup_operationFields (hk : (kind, fields) ∈ operationFields) :
    operationFields.lookup kind = some fields := by
  simp only [operationFields, List.mem_cons, Prod.mk.injEq, List.not_mem_nil, or_false] at hk
  rcases hk with ⟨rfl, rfl⟩ | ⟨rfl, rfl⟩ | ⟨rfl, rfl⟩ | ⟨rfl, rfl⟩ | ⟨rfl, rfl⟩ | ⟨rfl, rfl⟩ |
    ⟨rfl, rfl⟩
  all_goals rfl

/-- The smart codes of an operation without faults conform, where they are written out. -/
theorem isValid_of_checkOperation (h : o.ReadFrom part kind) (hk : (kind, fields) ∈ operationFields)
    (hm : Meets part fields) (hcode : checkSmartCode path part = [])
    (ho : checkOperation path kind part = []) :
    ∀ code ∈ o.codes, Template.hasPlaceholder code = false → SmartCode.isValid code = true := by
  have hfields := lookup_operationFields hk
  intro code hmem hp
  cases h with
  | entity h =>
    cases hfields
    obtain rfl := List.mem_singleton.1 hmem
    exact isValid_of_checkSmartCode hm ⟨true, by decide⟩ hcode
      (get?_of_decodeEntity h) hp
  | @transaction p h =>
    cases hfields
    obtain ⟨hread, hlines⟩ := get?_of_decodeTransaction h
    rcases List.mem_cons.1 hmem with rfl | hmem
    · exact isValid_of_checkSmartCode hm ⟨true, by decide⟩ hcode hread hp
    · obtain ⟨item, hitem, hsome⟩ := List.mem_filterMap.1 hmem
      have ho : onList part "line_items"
          (checkItems checkLineItem (inField path "line_items") 0) = [] := ho
      have hall : ∀ item ∈ p.lines, item.smartCode = some code → SmartCode.isValid code = true :=
        forall_of_checkItems ho hlines fun _ _ _ hv hread hsome =>
          isValid_of_checkLineItem hv hread hsome hp
      exact hall item hitem hsome
  | relationship h =>
    cases hfields
    obtain rfl := List.mem_singleton.1 hmem
    exact isValid_of_checkSmartCode hm ⟨true, by decide⟩ hcode
      (get?_of_decodeRelationship h) hp
  | field h =>
    cases hfields
    exact isValid_of_checkSmartCode hm ⟨false, by decide⟩ hcode
      (get?_of_decodeField h (Option.mem_toList.1 hmem)) hp
  | interaction h => cases hmem
  | request h => cases hmem
  | wait h => cases hmem

/-- An interaction without faults has all that its gesture needs. -/
theorem isEquipped_of_checkInteraction {p : Interaction}
    (hm : Meets part
      [need "interaction" .name, may "selector" .name, may "value" .text, may "url" .name])
    (h : checkInteraction path part = []) (hread : Interaction.decode (.map part) = .ok p) :
    p.IsEquipped := by
  obtain ⟨name, hname⟩ : ∃ s, Entries.get? "interaction" part = some (.text s) :=
    hm.exists_name (by decide)
  simp only [Interaction.decode, bind_eq_ok_iff] at hread
  obtain ⟨_, hr, gesture, hgesture, selector, hselector, value, hvalue, url, hurl, hread⟩ := hread
  cases hr
  cases hread
  have hfind : Gesture.all.find? (fun g => decide (g.name = name)) = some gesture := by
    simp only [required, hname, choice] at hgesture
    split at hgesture
    · rename_i found hfound
      cases hgesture
      exact hfound
    · cases hgesture
  have hneeds : ∀ field ∈ gestureNeeds gesture, ∃ v, Entries.get? field part = some v := by
    simp only [checkInteraction, onText, hname, hfind] at h
    intro field hfield
    have hpresent := List.filter_eq_nil_iff.1 (List.map_eq_nil_iff.1 h) field hfield
    exact Option.ne_none_iff_exists'.1 (by simpa using hpresent)
  have hurl : "url" ∈ gestureNeeds gesture → url.isSome = true := fun hmem =>
    hm.isSome (show may "url" .name ∈ _ by decide) (by decide) hurl (hneeds _ hmem)
  have hselector : "selector" ∈ gestureNeeds gesture → selector.isSome = true := fun hmem =>
    hm.isSome (show may "selector" .name ∈ _ by decide) (by decide) hselector (hneeds _ hmem)
  have hvalue : "value" ∈ gestureNeeds gesture → value.isSome = true := fun hmem =>
    hm.isSome (show may "value" .text ∈ _ by decide) (by decide) hvalue (hneeds _ hmem)
  cases gesture with
  | navigate => exact hurl (by decide)
  | click => exact hselector (by decide)
  | check => exact hselector (by decide)
  | fill => exact ⟨hselector (by decide), hvalue (by decide)⟩
  | select => exact ⟨hselector (by decide), hvalue (by decide)⟩
  | press => exact ⟨hselector (by decide), hvalue (by decide)⟩

end Operations

/-! ## Actions -/

section Actions

variable {personas : List String} {path field : String} {part : Entries}

theorem mem_of_checkPersonaRef {name : String} (h : checkPersonaRef personas path part = [])
    (hg : Entries.get? "persona" part = some (.text name)) : name ∈ personas := by
  simp only [checkPersonaRef, onText, hg] at h
  by_cases hmem : name ∈ personas
  · exact hmem
  · simp [hmem] at h

/-- The operation of an action without faults has been read from the fields of its kind. -/
theorem FaultlessAction.readFrom {names : List String} {kind : String} {fields : List Field}
    {a : Action} (hpart : FaultlessAction personas path names part kind fields)
    (hread : a.ReadFrom part) : a.operation.ReadFrom part kind := by
  have hkind : kind ∈ Operation.kinds := List.mem_map_of_mem (f := Prod.fst) hpart.mem
  have hdecode := hread.operation
  rw [Operation.decode, tagged_eq_ok hpart.kind_eq hkind] at hdecode
  exact Operation.readFrom_of_decodeKind hdecode

theorem wellFormed_of_checkAction {names : List String} {v : Value} {a : Action}
    (h : (checkAction personas path names v).1 = []) (hread : Action.decode v = .ok a) :
    a.WellFormed personas := by
  obtain ⟨part, kind, fields, rfl, hpart, -⟩ := faultless_of_checkAction h
  have hfields := Action.readFrom_of_decode hread
  have hoperation := hpart.readFrom hfields
  refine ⟨?_, ?_, ?_⟩
  · intro name hname
    have hpersona := hfields.persona
    rw [hname] at hpersona
    exact mem_of_checkPersonaRef hpart.persona (get?_of_optional hpersona)
  · exact isValid_of_checkOperation hoperation hpart.mem hpart.table.append_right hpart.smartCode
      hpart.operation
  · intro p hp
    rw [hp] at hoperation
    cases hoperation with
    | interaction hdecode =>
      cases lookup_operationFields hpart.mem
      exact isEquipped_of_checkInteraction hpart.table.append_right hpart.operation hdecode

/-- What a check ensures of every item, it ensures of the whole list. -/
theorem forall_of_checkEach {α : Type} {P : α → Prop}
    {check : String → List String → Value → Checked} {read : Value → Decoded α} {index : Nat}
    {names : List String} {vs : List Value} {as : List α}
    (h : (checkEach check path index names vs).1 = []) (hread : items read vs = .ok as)
    (hP : ∀ path names v a, (check path names v).1 = [] → read v = .ok a → P a) :
    ∀ a ∈ as, P a := by
  intro a ha
  obtain ⟨v, hv, hva⟩ := exists_of_mem_items hread ha
  obtain ⟨p, ns, hp⟩ := eq_nil_of_checkEach h v hv
  exact hP p ns v a hp hva

theorem wellFormed_of_checkActions {names : List String} {actions : List Action}
    (h : (checkActions personas path field names part).1 = [])
    (hread : defaulted part field [] (asList Action.decode) = .ok actions) :
    ∀ a ∈ actions, a.WellFormed personas := by
  unfold defaulted at hread
  unfold checkActions at h
  split at hread
  · rename_i v hg
    cases v with
    | list vs =>
      simp only [hg] at h
      exact forall_of_checkEach h hread fun _ _ _ _ => wellFormed_of_checkAction
    | _ => cases hread
  · cases hread
    exact fun _ h => absurd h List.not_mem_nil

end Actions

/-! ## Steps -/

section Steps

variable {personas names : List String} {path field : String} {part : Entries}

/-- A count that a check bounds is bounded after it has been read. -/
theorem forall_of_asNat {P : Nat → Prop} {bits default n : Nat}
    (h : ∀ n, (Entries.get? field part).bind Value.natural? = some n → P n) (hdefault : P default)
    (hread : defaulted part field default (asNat bits) = .ok n) : P n := by
  unfold defaulted at hread
  split at hread
  · rename_i v hg
    refine h n ?_
    rw [hg]
    unfold asNat at hread
    split at hread
    · split at hread
      · cases hread
        rfl
      · cases hread
    · cases hread
    · cases hread
  · cases hread
    exact hdefault

theorem wellFormed_of_checkStep {v : Value} {step : Step}
    (h : (checkStep personas path names v).1 = []) (hread : Step.decode v = .ok step) :
    step.WellFormed personas := by
  obtain ⟨part, rfl, hpart, -⟩ := faultless_of_checkStep h
  have hfields := Step.readFrom_of_decode hread
  refine ⟨?_, ?_, ?_, ?_, ?_⟩
  · exact mem_of_checkPersonaRef hpart.persona (get?_of_required hfields.persona)
  · obtain ⟨v, hg, hactions⟩ := exists_of_required hfields.actions
    rintro hnil
    rw [hnil] at hactions
    cases v with
    | list vs =>
      have hlength := (items_eq_ok_iff.1 hactions).length_eq
      exact hpart.nonempty (by rw [hg, List.length_eq_zero_iff.1 hlength])
    | _ => cases hactions
  · exact wellFormed_of_checkActions hpart.actions (defaulted_of_required hfields.actions)
  · have hpos : ∀ n, (Entries.get? "timeout" part).bind Value.natural? = some n → 1 ≤ n :=
      fun n hn => Nat.one_le_iff_ne_zero.2 (hpart.timeout n hn)
    exact forall_of_asNat hpos (by decide) hfields.timeout
  · exact forall_of_asNat (P := (· ≤ Step.maxRetry)) hpart.retry (Nat.zero_le _) hfields.retry

theorem wellFormed_of_checkSteps {root : Entries} {steps : List Step}
    (h : (checkSteps personas names root).1 = [])
    (hread : required root "steps" (asList Step.decode) = .ok steps) :
    steps ≠ [] ∧ ∀ step ∈ steps, step.WellFormed personas := by
  obtain ⟨v, hg, hsteps⟩ := exists_of_required hread
  unfold checkSteps at h
  cases v with
  | list vs =>
    cases vs with
    | nil => simp [hg] at h
    | cons v rest =>
      simp only [hg] at h
      refine ⟨?_, forall_of_checkEach h hsteps fun _ _ _ _ => wellFormed_of_checkStep⟩
      rintro rfl
      have hlength := (items_eq_ok_iff.1 hsteps).length_eq
      cases hlength
  | _ => cases hsteps

end Steps

/-! ## Documents -/

section Documents

variable {root : Entries} {d : Definition}

theorem personas_of_faultless (h : FaultlessRoot root) (hd : d.ReadFrom root) :
    d.personas ≠ [] ∧ d.personas.map Prod.fst = personaNames root := by
  obtain ⟨v, hg, hread⟩ := exists_of_required hd.personas
  cases v with
  | map es =>
    have hkeys : d.personas.map Prod.fst = es.map Prod.fst := keys_of_entries hread
    have hnames : personaNames root = es.map Prod.fst := by simp only [personaNames, hg]
    refine ⟨?_, hkeys.trans hnames.symm⟩
    intro hnil
    rw [hnil] at hkeys
    have hes : es = [] := List.map_eq_nil_iff.1 hkeys.symm
    have hnone := h.personas
    simp [onMap, hg, checkPersonas, hes] at hnone
  | _ => cases hread

theorem version_of_faultless (h : FaultlessRoot root) (hd : d.ReadFrom root) :
    d.version = "1.0" := by
  have hread := hd.version
  unfold defaulted at hread
  split at hread
  · rename_i v hg
    obtain rfl := eq_text_of_asText hread
    have hversion := h.version
    simp only [checkVersion, onText, hg] at hversion
    by_cases heq : d.version = "1.0"
    · exact heq
    · simp [heq] at hversion
  · exact (Except.ok.inj hread).symm

theorem clock_of_faultless (h : FaultlessRoot root) (hd : d.ReadFrom root) {clock : String}
    (hclock : d.setting.clock = some clock) : Clock.isValid clock = true := by
  obtain ⟨v, hg, hread⟩ := exists_of_required hd.setting
  obtain ⟨part, rfl⟩ := map_of_accepts (h.table.accepts ⟨true, by decide⟩ (by decide) hg).2
  have hpart := h.setting
  simp only [onMap, hg, checkSetting, List.append_eq_nil_iff] at hpart
  have hfield := (Setting.readFrom_of_decode hread).clock
  rw [hclock] at hfield
  have hchecked := hpart.2
  simp only [onText, get?_of_optional hfield] at hchecked
  cases hvalid : Clock.isValid clock with
  | true => rfl
  | false => simp [hvalid] at hchecked

/-- **Every definition that was parsed is well formed.** -/
theorem wellFormed_of_parse {v : Value} (h : parse v = .ok d) : d.WellFormed := by
  obtain ⟨hfaults, hread⟩ := parse_eq_ok_iff.1 h
  obtain ⟨root, rfl, hroot⟩ := faultless_of_validate hfaults
  have hd := Definition.readFrom_of_decode hread
  obtain ⟨hpersonas, hkeys⟩ := personas_of_faultless hroot hd
  obtain ⟨hnonempty, hsteps⟩ := wellFormed_of_checkSteps hroot.steps hd.steps
  have hsetup := wellFormed_of_checkActions hroot.setup hd.setup
  have hcleanup := wellFormed_of_checkActions hroot.cleanup hd.cleanup
  rw [← hkeys] at hsetup hsteps hcleanup
  exact ⟨version_of_faultless hroot hd, hpersonas, hnonempty, hsetup, hsteps, hcleanup,
    wellNamed_of_parse h, fun _ => clock_of_faultless hroot hd⟩

/-- A guest orders in a browser, a clerk fills in a field; one smart code is left to the run. -/
def orderDocument : Value :=
  .map [("id", .text "order"), ("title", .text "An order"),
    ("context", .map [("organization_id", .text "salon"),
      ("clock", .text "2026-01-31T09:00:00Z")]),
    ("personas", .map [("clerk", .map [("role", .text "clerk")]),
      ("guest", .map [("role", .text "guest")])]),
    ("setup", .list [.map [("type", .text "ui_interaction"), ("interaction", .text "navigate"),
      ("url", .text "/shop")]]),
    ("steps", .list [.map [("id", .text "order"), ("persona", .text "guest"),
      ("timeout", .number (.int 1)), ("retry", .number (.int 10)), ("actions", .list [
        .map [("type", .text "ui_interaction"), ("interaction", .text "fill"),
          ("selector", .text "#name"), ("value", .text ""), ("persona", .text "clerk")],
        .map [("type", .text "create_transaction"), ("transaction_type", .text "sale"),
          ("smart_code", .text "HERA.SALON.POS.TXN.SALE.v1"), ("store_as", .text "receipt"),
          ("line_items", .list [
            .map [("smart_code", .text "\x7b\x7bcode\x7d\x7d"), ("quantity", .number (.int 3))],
            .map [("smart_code", .text "HERA.SALON.POS.LINE.ITEM.v1")]])]])]]),
    ("cleanup", .list [.map [("type", .text "set_dynamic_field"),
      ("entity_id", .text "\x7b\x7breceipt.source_entity_id\x7d\x7d"),
      ("field_name", .text "visits"), ("field_value", .number (.int 1)),
      ("persona", .text "clerk")]])]

theorem wellFormed_orderDocument : ∃ d, parse orderDocument = .ok d ∧ d.WellFormed := by
  have hsome : (parse orderDocument).toOption.isSome = true := by decide +kernel
  cases h : parse orderDocument with
  | ok d => exact ⟨d, rfl, wellFormed_of_parse h⟩
  | error e =>
    rw [h] at hsome
    cases hsome

end Documents

end Validation

end ProcessTest
