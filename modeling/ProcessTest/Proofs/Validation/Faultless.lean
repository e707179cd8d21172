import ProcessTest.Validation.Checker

/-!
# Parts without faults

What it means for each check that it has found nothing.

* `Meets` — no field of a table has a problem in a part: `problem?_eq_none_cases` says what its
  fields can hold.
* `FaultlessAction`, `FaultlessStep`, `FaultlessAssertion`, `FaultlessRoot` — all that the checks
  of an action, a step, an assertion and a document have found out when they report no fault, and
  the names that are claimed behind them.
-/

set_option autoImplicit false

namespace ProcessTest.Validation

/-! ## Rows of a table -/

/-- No field of the table has a problem in the part. -/
def Meets (part : Entries) (table : List Field) : Prop :=
  ∀ field ∈ table, field.problem? part = none

theorem meets_of_checkFields {path owner : String} {part : Entries} {table : List Field}
    (h : checkFields path part table owner = []) : Meets part table := by
  intro field hf
  have hnil : Field.faults path part field = [] :=
    List.flatMap_eq_nil_iff.1 (List.append_eq_nil_iff.1 h).1 field hf
  unfold Field.faults at hnil
  cases hp : field.problem? part with
  | none => rfl
  | some problem => simp [hp] at hnil

theorem Meets.append_left {part : Entries} {t u : List Field} (h : Meets part (t ++ u)) :
    Meets part t :=
  fun field hf => h field (List.mem_append_left u hf)

theorem Meets.append_right {part : Entries} {t u : List Field} (h : Meets part (t ++ u)) :
    Meets part u :=
  fun field hf => h field (List.mem_append_right t hf)

/-- What a field without a problem can hold: nothing, a null that counts as a value, or a value of
its kind. -/
theorem problem?_eq_none_cases {part : Entries} {field : Field}
    (h : field.problem? part = none) :
    (Entries.get? field.name part = none ∧ field.required = false) ∨
      (Entries.get? field.name part = some .null ∧ field.required = false ∧ field.kind = .any) ∨
      ∃ v, Entries.get? field.name part = some v ∧ v ≠ .null ∧ field.kind.accepts v = true := by
  unfold Field.problem? at h
  split at h
  · rename_i hg
    left
    cases hr : field.required with
    | false => exact ⟨hg, rfl⟩
    | true => simp [hr] at h
  · rename_i hg
    right; left
    cases hr : field.required with
    | true => simp [hr] at h
    | false =>
      refine ⟨hg, rfl, ?_⟩
      by_cases hk : field.kind = .any
      · exact hk
      · simp [hr, hk] at h
  · rename_i v hnull hg
    right; right
    refine ⟨v, hg, hnull, ?_⟩
    by_cases ha : field.kind.accepts v = true
    · exact ha
    · simp [ha] at h

/-! ## Kinds of fields -/

theorem text_of_accepts_name {v : Value} (h : FieldKind.name.accepts v = true) :
    ∃ s, v = .text s := by
  cases v with
  | text s => exact ⟨s, rfl⟩
  | _ => simp [FieldKind.accepts, isName] at h

theorem map_of_accepts {v : Value} (h : FieldKind.map.accepts v = true) :
    ∃ entries, v = .map entries := by
  cases v with
  | map entries => exact ⟨entries, rfl⟩
  | _ => simp [FieldKind.accepts] at h

theorem list_of_accepts {v : Value} (h : FieldKind.list.accepts v = true) :
    ∃ items, v = .list items := by
  cases v with
  | list items => exact ⟨items, rfl⟩
  | _ => simp [FieldKind.accepts] at h

theorem text_of_areTexts {items : List Value} (h : areTexts items = true) :
    ∀ v ∈ items, ∃ s, v = .text s := by
  fun_induction areTexts items with
  | case1 => simp
  | case2 s rest ih =>
    intro v hv
    rcases List.mem_cons.1 hv with rfl | hv
    · exact ⟨s, rfl⟩
    · exact ih h v hv
  | case3 => cases h

/-! ## Items -/

theorem eq_nil_of_checkItems {check : String → Value → List Fault} {path : String} {index : Nat}
    {items : List Value} (h : checkItems check path index items = []) :
    ∀ v ∈ items, ∃ p, check p v = [] := by
  induction items generalizing index with
  | nil => simp
  | cons v rest ih =>
    obtain ⟨hv, hrest⟩ := List.append_eq_nil_iff.1 h
    intro w hw
    rcases List.mem_cons.1 hw with rfl | hw
    · exact ⟨_, hv⟩
    · exact ih hrest w hw

theorem eq_nil_of_checkEach {check : String → List String → Value → Checked} {path : String}
    {index : Nat} {names : List String} {items : List Value}
    (h : (checkEach check path index names items).1 = []) :
    ∀ v ∈ items, ∃ p ns, (check p ns v).1 = [] := by
  induction items generalizing index names with
  | nil => simp
  | cons v rest ih =>
    obtain ⟨hv, hrest⟩ := List.append_eq_nil_iff.1 h
    intro w hw
    rcases List.mem_cons.1 hw with rfl | hw
    · exact ⟨_, _, hv⟩
    · exact ih hrest w hw

/-! ## Actions -/

/-- What the check of an action has found out when it reports no fault. -/
structure FaultlessAction (personas : List String) (path : String) (names : List String)
    (part : Entries) (kind : String) (fields : List Field) : Prop where
  kind_eq : Entries.get? "type" part = some (.text kind)
  mem : (kind, fields) ∈ operationFields
  table : Meets part (actionFields ++ fields)
  persona : checkPersonaRef personas path part = []
  claimed : (claim path part "store_as" "store_as name" names).1 = []
  smartCode : checkSmartCode path part = []
  operation : checkOperation path kind part = []

theorem mem_of_lookup_eq_some {β : Type} {table : List (String × β)} {key : String} {b : β}
    (h : table.lookup key = some b) : (key, b) ∈ table := by
  obtain ⟨l, l', hl, -⟩ := List.lookup_eq_some_iff.1 h
  rw [hl]
  exact List.mem_append_right l List.mem_cons_self

theorem faultless_of_checkAction {personas names : List String} {path : String} {v : Value}
    (h : (checkAction personas path names v).1 = []) :
    ∃ part kind fields, v = .map part ∧ FaultlessAction personas path names part kind fields ∧
      (checkAction personas path names v).2 =
        (claim path part "store_as" "store_as name" names).2 := by
  unfold checkAction at h ⊢
  split at h
  · rename_i part
    split at h
    · rename_i kind hkind
      split at h
      · rename_i fields hlookup
        simp only [List.append_eq_nil_iff] at h
        obtain ⟨⟨⟨⟨hfields, hpersona⟩, hclaim⟩, hcode⟩, hoperation⟩ := h
        exact ⟨part, kind, fields, rfl, ⟨hkind, mem_of_lookup_eq_some hlookup,
          meets_of_checkFields hfields, hpersona, hclaim, hcode, hoperation⟩,
          rfl⟩
      · cases h
    · cases h
  · cases h

/-! ## Steps -/

/-- What the check of a step has found out when it reports no fault. -/
structure FaultlessStep (personas : List String) (path : String) (names : List String)
    (part : Entries) : Prop where
  table : Meets part stepFields
  claimed : (claim path part "id" "step id" names).1 = []
  persona : checkPersonaRef personas path part = []
  timeout : ∀ n, (Entries.get? "timeout" part).bind Value.natural? = some n → n ≠ 0
  retry : ∀ n, (Entries.get? "retry" part).bind Value.natural? = some n → n ≤ Step.maxRetry
  nonempty : Entries.get? "actions" part ≠ some (.list [])
  actions : (checkActions personas path "actions" (claim path part "id" "step id" names).2
    part).1 = []

theorem faultless_of_checkStep {personas names : List String} {path : String} {v : Value}
    (h : (checkStep personas path names v).1 = []) :
    ∃ part, v = .map part ∧ FaultlessStep personas path names part ∧
      (checkStep personas path names v).2 =
        (checkActions personas path "actions" (claim path part "id" "step id" names).2
          part).2 := by
  unfold checkStep at h ⊢
  split at h
  · rename_i part
    simp only [List.append_eq_nil_iff] at h
    obtain ⟨⟨⟨⟨⟨⟨hfields, hclaim⟩, hpersona⟩, htimeout⟩, hretry⟩, hempty⟩, hactions⟩ := h
    refine ⟨part, rfl, ⟨meets_of_checkFields hfields, hclaim, hpersona, fun n hn hz => ?_,
      fun n hn => ?_, fun hnil => ?_, hactions⟩, rfl⟩
    · simp [onNat, hn, hz] at htimeout
    · by_cases hle : n ≤ Step.maxRetry
      · exact hle
      · simp [onNat, hn, Nat.lt_of_not_le hle] at hretry
    · simp [onList, hnil] at hempty
  · cases h

/-! ## Assertions -/

/-- What the check of an assertion has found out when it reports no fault. -/
structure FaultlessAssertion (path : String) (part : Entries) (kind : String)
    (fields : List Field) : Prop where
  kind_eq : Entries.get? "type" part = some (.text kind)
  mem : (kind, fields) ∈ checkKindFields
  rule : kind = "business_rule" → checkRule path part = []
  table : kind ≠ "business_rule" → Meets part (assertionFields ++ fields)
  page : kind = "ui" → checkPage path part = []

theorem faultless_of_checkAssertion {path : String} {v : Value}
    (h : checkAssertion path v = []) :
    ∃ part kind fields, v = .map part ∧ FaultlessAssertion path part kind fields := by
  unfold checkAssertion at h
  split at h
  · rename_i part
    split at h
    · rename_i kind hkind
      split at h
      · rename_i fields hlookup
        refine ⟨part, kind, fields, rfl, hkind, mem_of_lookup_eq_some hlookup, ?_, ?_, ?_⟩
        · intro hrule
          simpa [hrule] using h
        · intro hrule
          simp only [hrule, if_false, List.append_eq_nil_iff] at h
          exact meets_of_checkFields h.1
        · intro hui
          subst hui
          simpa using (List.append_eq_nil_iff.1 h).2
      · cases h
    · cases h
  · cases h

/-- What the check of a rule has found out when it reports no fault. -/
structure FaultlessRule (path : String) (part : Entries) (rule : String)
    (operands : List Field) : Prop where
  rule_eq : Entries.get? "rule" part = some (.text rule)
  mem : (rule, operands) ∈ ruleFields
  table : Meets part (assertionFields ++ [need "rule" .name] ++ operands)
  operands : checkOperands path rule part = []

theorem faultless_of_checkRule {path : String} {part : Entries} (h : checkRule path part = []) :
    ∃ rule operands, FaultlessRule path part rule operands := by
  unfold checkRule at h
  simp only at h
  split at h
  · rename_i rule hrule
    split at h
    · rename_i operands hlookup
      obtain ⟨hfields, hoperands⟩ := List.append_eq_nil_iff.1 h
      exact ⟨rule, operands, hrule, mem_of_lookup_eq_some hlookup, meets_of_checkFields hfields,
        hoperands⟩
    · cases h
  · rename_i hno
    -- A rule without a name misses a field that it needs.
    have hneed : (need "rule" .name).problem? part = none :=
      meets_of_checkFields h _ (by simp)
    rcases problem?_eq_none_cases hneed with ⟨-, hreq⟩ | ⟨-, hreq, -⟩ | ⟨v, hg, -, ha⟩
    · cases hreq
    · cases hreq
    · obtain ⟨s, rfl⟩ := text_of_accepts_name ha
      exact absurd hg (hno s)

/-! ## Documents -/

/-- What the check of a document has found out when it reports no fault. -/
structure FaultlessRoot (root : Entries) : Prop where
  table : Meets root rootFields
  version : checkVersion root = []
  setting : onMap root "context" checkSetting = []
  personas : onMap root "personas" checkPersonas = []
  setup : (checkActions (personaNames root) "" "setup" [] root).1 = []
  steps : (checkSteps (personaNames root)
    (checkActions (personaNames root) "" "setup" [] root).2 root).1 = []
  cleanup : (checkActions (personaNames root) "" "cleanup" (checkSteps (personaNames root)
    (checkActions (personaNames root) "" "setup" [] root).2 root).2 root).1 = []
  assertions : onList root "assertions" (checkItems checkAssertion "assertions" 0) = []
  metadata : onMap root "metadata" checkMetadata = []
  policy : onMap root "policy" checkPolicy = []

theorem faultless_of_validate {v : Value} (h : validate v = []) :
    ∃ root, v = .map root ∧ FaultlessRoot root := by
  unfold validate at h
  split at h
  · rename_i root
    simp only [checkRoot, List.append_eq_nil_iff] at h
    obtain ⟨⟨⟨⟨⟨⟨⟨⟨⟨hfields, hversion⟩, hsetting⟩, hpersonas⟩, hsetup⟩, hsteps⟩, hcleanup⟩,
      hassertions⟩, hmetadata⟩, hpolicy⟩ := h
    exact ⟨root, rfl, meets_of_checkFields hfields, hversion, hsetting, hpersonas, hsetup, hsteps,
      hcleanup, hassertions, hmetadata, hpolicy⟩
  · cases h

/-- What the parse of a document went through. -/
theorem parse_eq_ok_iff {v : Value} {d : Definition} :
    parse v = .ok d ↔ validate v = [] ∧ Definition.decode v = .ok d := by
  unfold parse
  cases hv : validate v with
  | cons fault rest => simp
  | nil => cases hd : Definition.decode v with
    | error e => exact ⟨nofun, nofun⟩
    | ok d' =>
      constructor
      · intro h
        cases h
        exact ⟨rfl, rfl⟩
      · rintro ⟨-, h⟩
        cases h
        rfl

end ProcessTest.Validation
