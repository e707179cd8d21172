import ProcessTest.Proofs.Encoding.Actions

/-!
# Assertions that are written back

An assertion without faults that has been read is written as one without faults, which is read as
the same.

* `restore_operands` — the operands of each rule.
* `restore_database`, `restore_page`, `restore_rule`, `restore_variable` — each kind of check.
* `restore_assertion` — whole assertions.
-/

set_option autoImplicit false

namespace ProcessTest.Validation

open Decode

/-! ## Parts of assertions -/

theorem restore_journalEntry (path : String) (v : Value) (entry : JournalEntry)
    (h : checkJournalLine path v = []) (hread : JournalEntry.decode v = .ok entry) :
    checkJournalLine path entry.encode = [] ∧ JournalEntry.decode entry.encode = .ok entry := by
  cases v with
  | map part =>
    have hm := meets_of_checkFields h
    obtain ⟨e, he⟩ : ∃ e, e = written entry.encode := ⟨_, rfl⟩
    have hencode : entry.encode = .map e := by rw [he]; rfl
    rw [hencode]
    simp only [JournalEntry.decode, bind_eq_ok_iff] at hread ⊢
    obtain ⟨_, hr, _, h₁, _, h₂, hentry⟩ := hread
    cases hr
    cases hentry
    obtain ⟨m₁, r₁⟩ := hm.restore_optional e (by decide) h₁ Keeps.amount.restores
      (by simp [he, JournalEntry.encode])
    obtain ⟨m₂, r₂⟩ := hm.restore_optional e (by decide) h₂ Keeps.amount.restores
      (by simp [he, JournalEntry.encode])
    refine ⟨checkFields_eq_nil ?_ ?_, _, rfl, _, r₁, _, r₂, rfl⟩
    · simp only [journalLineFields, meets_cons, meets_nil, and_true]
      exact ⟨m₁, m₂⟩
    · simp [he, JournalEntry.encode, journalLineFields, may]
  | _ => simp [checkJournalLine] at h

theorem restore_pageCheck (path : String) (v : Value) (check : PageCheck)
    (h : checkPageCheck path v = []) (hread : PageCheck.decode v = .ok check) :
    checkPageCheck path check.encode = [] ∧ PageCheck.decode check.encode = .ok check := by
  cases v with
  | map part =>
    have hm := meets_of_checkFields h
    obtain ⟨e, he⟩ : ∃ e, e = written check.encode := ⟨_, rfl⟩
    have hencode : check.encode = .map e := by rw [he]; rfl
    rw [hencode]
    simp only [PageCheck.decode, bind_eq_ok_iff] at hread ⊢
    obtain ⟨_, hr, _, h₁, _, h₂, _, h₃, hcheck⟩ := hread
    cases hr
    cases hcheck
    obtain ⟨m₁, r₁⟩ := hm.restore_required e (by decide) h₁ Keeps.name.restores
      (by simp [he, PageCheck.encode, Entries.get?])
    obtain ⟨m₂, r₂⟩ := hm.restore_optional e (by decide) h₂ Keeps.bool.restores
      (by simp [he, PageCheck.encode, Entries.get?])
    obtain ⟨m₃, r₃⟩ := hm.restore_optional e (by decide) h₃ Keeps.text.restores
      (by simp [he, PageCheck.encode, Entries.get?])
    refine ⟨checkFields_eq_nil ?_ ?_, _, rfl, _, r₁, _, r₂, _, r₃, rfl⟩
    · simp only [pageCheckFields, meets_cons, meets_nil, and_true]
      exact ⟨m₁, m₂, m₃⟩
    · simp [he, PageCheck.encode, pageCheckFields, need, may]
  | _ => simp [checkPageCheck] at h

/-! ## Rules -/

section Rules

variable {path rule : String} {part : Entries} {fields : List Field} {r : Rule}

/-- No rule has two tables. -/
theorem lookup_ruleFields (hk : (rule, fields) ∈ ruleFields) :
    ruleFields.lookup rule = some fields := by
  simp only [ruleFields, List.mem_cons, Prod.mk.injEq, List.not_mem_nil, or_false] at hk
  rcases hk with ⟨rfl, rfl⟩ | ⟨rfl, rfl⟩ | ⟨rfl, rfl⟩ | ⟨rfl, rfl⟩ | ⟨rfl, rfl⟩
  all_goals rfl

/-- What a rule asks for, in the operands that are written for it. -/
structure RestoredRule (path rule : String) (fields : List Field) (r : Rule) : Prop where
  name_eq : r.name = rule
  table : Meets r.operands fields
  within : Within (fields.map Field.name) r.operands
  read : Rule.decodeNamed rule (.map r.operands) = .ok r
  check : checkOperands path rule r.operands = []

theorem restore_equation (hk : ("accounting_equation", fields) ∈ ruleFields)
    (hm : Meets part fields)
    (h : Rule.decodeNamed "accounting_equation" (.map part) = .ok r) :
    RestoredRule path "accounting_equation" fields r := by
  cases lookup_ruleFields hk
  obtain ⟨e, he⟩ : ∃ e, e = r.operands := ⟨_, rfl⟩
  simp only [Rule.decodeNamed, bind_eq_ok_iff] at h
  obtain ⟨_, hr, _, h₁, _, h₂, _, h₃, _, h₄, h⟩ := h
  cases hr
  cases h
  obtain ⟨m₁, r₁⟩ := hm.restore_required e (by decide) h₁ Keeps.amount.restores
    (by simp [he, Rule.operands, Entries.get?])
  obtain ⟨m₂, r₂⟩ := hm.restore_required e (by decide) h₂ Keeps.amount.restores
    (by simp [he, Rule.operands, Entries.get?])
  obtain ⟨m₃, r₃⟩ := hm.restore_required e (by decide) h₃ Keeps.amount.restores
    (by simp [he, Rule.operands, Entries.get?])
  obtain ⟨m₄, r₄⟩ := hm.restore_optional e (by decide) h₄ Keeps.amount.restores
    (by simp [he, Rule.operands, Entries.get?])
  refine ⟨rfl, ?_, by simp [Rule.operands, need, may], ?_, rfl⟩
  · simp only [← he, meets_cons, meets_nil, and_true]
    exact ⟨m₁, m₂, m₃, m₄⟩
  · simp only [← he, Rule.decodeNamed, bind_eq_ok_iff]
    exact ⟨_, rfl, _, r₁, _, r₂, _, r₃, _, r₄, rfl⟩

theorem restore_journal (hk : ("journal_balance", fields) ∈ ruleFields) (hm : Meets part fields)
    (ho : onList part "lines" (checkItems checkJournalLine (inField path "lines") 0) = [])
    (h : Rule.decodeNamed "journal_balance" (.map part) = .ok r) :
    RestoredRule path "journal_balance" fields r := by
  cases lookup_ruleFields hk
  obtain ⟨e, he⟩ : ∃ e, e = r.operands := ⟨_, rfl⟩
  simp only [Rule.decodeNamed, bind_eq_ok_iff] at h
  obtain ⟨_, hr, _, h₁, _, h₂, h⟩ := h
  cases hr
  cases h
  obtain ⟨m₁, r₁⟩ := hm.restore_required e (by decide) h₁ (.list ho restore_journalEntry)
    (by simp [he, Rule.operands, Entries.get?])
  obtain ⟨m₂, r₂⟩ := hm.restore_optional e (by decide) h₂ Keeps.amount.restores
    (by simp [he, Rule.operands, Entries.get?])
  refine ⟨rfl, ?_, by simp [Rule.operands, need, may], ?_, ?_⟩
  · simp only [← he, meets_cons, meets_nil, and_true]
    exact ⟨m₁, m₂⟩
  · simp only [← he, Rule.decodeNamed, bind_eq_ok_iff]
    exact ⟨_, rfl, _, r₁, _, r₂, rfl⟩
  · rw [← he]
    refine onList_restored restore_journalEntry ho (defaulted_of_required h₁) ?_
    simp [he, Rule.operands, Entries.get?]

theorem restore_tax (hk : ("tax_calculation", fields) ∈ ruleFields) (hm : Meets part fields)
    (h : Rule.decodeNamed "tax_calculation" (.map part) = .ok r) :
    RestoredRule path "tax_calculation" fields r := by
  cases lookup_ruleFields hk
  obtain ⟨e, he⟩ : ∃ e, e = r.operands := ⟨_, rfl⟩
  simp only [Rule.decodeNamed, bind_eq_ok_iff] at h
  obtain ⟨_, hr, _, h₁, _, h₂, _, h₃, _, h₄, _, h₅, h⟩ := h
  cases hr
  cases h
  obtain ⟨m₁, r₁⟩ := hm.restore_required e (by decide) h₁ Keeps.amount.restores
    (by simp [he, Rule.operands, Entries.get?])
  obtain ⟨m₂, r₂⟩ := hm.restore_required e (by decide) h₂ Keeps.amount.restores
    (by simp [he, Rule.operands, Entries.get?])
  obtain ⟨m₃, r₃⟩ := hm.restore_defaulted e (by decide) (by decide) h₃ Keeps.bool.restores
    ⟨by simp, rfl, rfl⟩ (by simp [he, Rule.operands, Entries.get?])
  obtain ⟨m₄, r₄⟩ := hm.restore_optional e (by decide) h₄ Keeps.amount.restores
    (by simp [he, Rule.operands, Entries.get?])
  obtain ⟨m₅, r₅⟩ := hm.restore_optional e (by decide) h₅ Keeps.amount.restores
    (by simp [he, Rule.operands, Entries.get?])
  refine ⟨rfl, ?_, by simp [Rule.operands, need, may], ?_, rfl⟩
  · simp only [← he, meets_cons, meets_nil, and_true]
    exact ⟨m₁, m₂, m₃, m₄, m₅⟩
  · simp only [← he, Rule.decodeNamed, bind_eq_ok_iff]
    exact ⟨_, rfl, _, r₁, _, r₂, _, r₃, _, r₄, _, r₅, rfl⟩

theorem restore_transition (hk : ("status_transition", fields) ∈ ruleFields)
    (hm : Meets part fields)
    (ho : onMap part "transitions" (checkTransitions path) = [])
    (h : Rule.decodeNamed "status_transition" (.map part) = .ok r) :
    RestoredRule path "status_transition" fields r := by
  cases lookup_ruleFields hk
  obtain ⟨e, he⟩ : ∃ e, e = r.operands := ⟨_, rfl⟩
  simp only [Rule.decodeNamed, bind_eq_ok_iff] at h
  obtain ⟨_, hr, _, h₁, _, h₂, _, h₃, h⟩ := h
  cases hr
  cases h
  obtain ⟨m₁, r₁⟩ := hm.restore_required e (by decide) h₁ Keeps.name.restores
    (by simp [he, Rule.operands, Entries.get?])
  obtain ⟨m₂, r₂⟩ := hm.restore_required e (by decide) h₂ Keeps.name.restores
    (by simp [he, Rule.operands, Entries.get?])
  obtain ⟨m₃, r₃⟩ := hm.restore_required e (by decide) h₃ Keeps.transitions.restores
    (by simp [he, Rule.operands, Entries.get?])
  refine ⟨rfl, ?_, by simp [Rule.operands, need], ?_, ?_⟩
  · simp only [← he, meets_cons, meets_nil, and_true]
    exact ⟨m₁, m₂, m₃⟩
  · simp only [← he, Rule.decodeNamed, bind_eq_ok_iff]
    exact ⟨_, rfl, _, r₁, _, r₂, _, r₃, rfl⟩
  · have hsame : Entries.get? "transitions" e = Entries.get? "transitions" part := by
      rw [hm.get?_of_required (by decide) (by decide) h₃ Keeps.transitions]
      simp [he, Rule.operands, Entries.get?]
    rw [← he]
    simp only [checkOperands, onMap, hsame]
    exact ho

theorem restore_code (hk : ("smart_code", fields) ∈ ruleFields) (hm : Meets part fields)
    (h : Rule.decodeNamed "smart_code" (.map part) = .ok r) :
    RestoredRule path "smart_code" fields r := by
  cases lookup_ruleFields hk
  obtain ⟨e, he⟩ : ∃ e, e = r.operands := ⟨_, rfl⟩
  simp only [Rule.decodeNamed, bind_eq_ok_iff] at h
  obtain ⟨_, hr, _, h₁, h⟩ := h
  cases hr
  cases h
  obtain ⟨m₁, r₁⟩ := hm.restore_required e (by decide) h₁ Keeps.name.restores
    (by simp [he, Rule.operands, Entries.get?])
  refine ⟨rfl, ?_, by simp [Rule.operands, need], ?_, rfl⟩
  · simp only [← he, meets_cons, meets_nil, and_true]
    exact m₁
  · simp only [← he, Rule.decodeNamed, bind_eq_ok_iff]
    exact ⟨_, rfl, _, r₁, rfl⟩

theorem restore_operands (hk : (rule, fields) ∈ ruleFields) (hm : Meets part fields)
    (ho : checkOperands path rule part = [])
    (h : Rule.decodeNamed rule (.map part) = .ok r) : RestoredRule path rule fields r := by
  have hrule := hk
  simp only [ruleFields, List.mem_cons, Prod.mk.injEq, List.not_mem_nil, or_false] at hrule
  rcases hrule with ⟨rfl, -⟩ | ⟨rfl, -⟩ | ⟨rfl, -⟩ | ⟨rfl, -⟩ | ⟨rfl, -⟩
  · exact restore_equation hk hm h
  · exact restore_journal hk hm ho h
  · exact restore_tax hk hm h
  · exact restore_transition hk hm ho h
  · exact restore_code hk hm h

/-- Reading a rule looks at its operands only. -/
theorem decodeNamed_congr {e : Entries} (hk : (rule, fields) ∈ ruleFields)
    (h : Agrees fields e part) :
    Rule.decodeNamed rule (.map e) = Rule.decodeNamed rule (.map part) := by
  simp only [ruleFields, List.mem_cons, Prod.mk.injEq, List.not_mem_nil, or_false] at hk
  rcases hk with ⟨rfl, rfl⟩ | ⟨rfl, rfl⟩ | ⟨rfl, rfl⟩ | ⟨rfl, rfl⟩ | ⟨rfl, rfl⟩
  all_goals
    simp only [Agrees, List.forall_mem_cons, need, may] at h
    simp only [Rule.decodeNamed, record_bind, required, Decode.optional, defaulted, h]

/-- Checking a rule looks at its operands only. -/
theorem checkOperands_congr {e : Entries} (hk : (rule, fields) ∈ ruleFields)
    (h : Agrees fields e part) : checkOperands path rule e = checkOperands path rule part := by
  simp only [ruleFields, List.mem_cons, Prod.mk.injEq, List.not_mem_nil, or_false] at hk
  rcases hk with ⟨rfl, rfl⟩ | ⟨rfl, rfl⟩ | ⟨rfl, rfl⟩ | ⟨rfl, rfl⟩ | ⟨rfl, rfl⟩
  · rfl
  · have hlines : Entries.get? "lines" e = Entries.get? "lines" part :=
      h (need "lines" .list) (by decide)
    simp only [checkOperands, onList, hlines]
  · rfl
  · have htransitions : Entries.get? "transitions" e = Entries.get? "transitions" part :=
      h (need "transitions" .map) (by decide)
    simp only [checkOperands, onMap, htransitions]
  · rfl

end Rules

/-! ## Kinds of checks -/

section Checks

variable {path : String} {part : Entries} {fields : List Field} {a : Assertion}

/-- The kind of an assertion is no blank text. -/
theorem problem?_type (a : Assertion) :
    (need "type" .name).problem? (written a.encode) = none := by
  have hkinds : ∀ kind ∈ Check.kinds, FieldKind.name.accepts (.text kind) = true := by decide
  have hkind : a.check.kind ∈ Check.kinds := by
    cases a.check <;> simp [Check.kind, Check.kinds]
  exact problem?_of_accepts (v := .text a.check.kind) _ rfl nofun (hkinds _ hkind)

/-- What a kind of check asks for, in what is written for an assertion of that kind. -/
structure RestoredCheck (kind : String) (fields : List Field) (a : Assertion) : Prop where
  kind_eq : a.check.kind = kind
  table : Meets (written a.encode) (assertionFields ++ fields)
  within : Within ((assertionFields ++ fields).map Field.name) (written a.encode)
  read : Assertion.decodeKind kind (.map (written a.encode)) = .ok a

theorem restore_database
    (hm : Meets part (assertionFields ++
      [need "table" .name, may "conditions" .map, need "expected_count" .count]))
    (h : Assertion.decodeKind "database" (.map part) = .ok a) :
    RestoredCheck "database"
      [need "table" .name, may "conditions" .map, need "expected_count" .count] a := by
  obtain ⟨e, he⟩ : ∃ e, e = written a.encode := ⟨_, rfl⟩
  simp only [Assertion.decodeKind, bind_eq_ok_iff] at h
  obtain ⟨_, hr, _, h₁, _, h₂, _, h₃, _, h₄, h⟩ := h
  cases hr
  cases h
  have m₀ : (need "type" .name).problem? e = none := by
    rw [he]
    exact problem?_type _
  obtain ⟨m₁, r₁⟩ := hm.restore_optional e (by decide) h₁ Keeps.text.restores
    (by simp [he, Assertion.encode, Check.fields, Entries.get?])
  obtain ⟨m₂, r₂⟩ := hm.restore_required e (by decide) h₂ Keeps.name.restores
    (by simp [he, Assertion.encode, Check.fields, Entries.get?])
  obtain ⟨m₃, r₃⟩ := hm.restore_defaulted e (by decide) (by decide) h₃ Keeps.fields.restores
    ⟨by simp, rfl, rfl⟩ (by simp [he, Assertion.encode, Check.fields, Entries.get?])
  obtain ⟨m₄, r₄⟩ := hm.restore_required e (by decide) h₄ (Keeps.count 64).restores
    (by simp [he, Assertion.encode, Check.fields, Entries.get?])
  refine ⟨rfl, ?_, ?_, ?_⟩
  · simp only [← he, assertionFields, List.cons_append, List.nil_append, meets_cons, meets_nil,
      and_true]
    exact ⟨m₀, m₁, m₂, m₃, m₄⟩
  · simp [Assertion.encode, Check.fields, assertionFields, need, may]
  · simp only [← he, Assertion.decodeKind, bind_eq_ok_iff]
    exact ⟨_, rfl, _, r₁, _, r₂, _, r₃, _, r₄, rfl⟩

theorem restore_variable
    (hm : Meets part (assertionFields ++ [need "path" .name, may "equals" .any]))
    (h : Assertion.decodeKind "variable" (.map part) = .ok a) :
    RestoredCheck "variable" [need "path" .name, may "equals" .any] a := by
  obtain ⟨e, he⟩ : ∃ e, e = written a.encode := ⟨_, rfl⟩
  simp only [Assertion.decodeKind, bind_eq_ok_iff] at h
  obtain ⟨_, hr, _, h₁, _, h₂, _, h₃, h⟩ := h
  cases hr
  cases h
  have m₀ : (need "type" .name).problem? e = none := by
    rw [he]
    exact problem?_type _
  obtain ⟨m₁, r₁⟩ := hm.restore_optional e (by decide) h₁ Keeps.text.restores
    (by simp [he, Assertion.encode, Check.fields, Entries.get?])
  obtain ⟨m₂, r₂⟩ := hm.restore_required e (by decide) h₂ Keeps.name.restores
    (by simp [he, Assertion.encode, Check.fields, Entries.get?])
  obtain ⟨m₃, r₃⟩ := hm.restore_optional e (by decide) h₃ Keeps.any.restores
    (by simp [he, Assertion.encode, Check.fields, Entries.get?])
  refine ⟨rfl, ?_, ?_, ?_⟩
  · simp only [← he, assertionFields, List.cons_append, List.nil_append, meets_cons, meets_nil,
      and_true]
    exact ⟨m₀, m₁, m₂, m₃⟩
  · simp [Assertion.encode, Check.fields, assertionFields, need, may]
  · simp only [← he, Assertion.decodeKind, bind_eq_ok_iff]
    exact ⟨_, rfl, _, r₁, _, r₂, _, r₃, rfl⟩

/-- The checks of a page: there is one at least, and none of them has a fault. -/
theorem restore_page (hm : Meets part (assertionFields ++ [need "checks" .list]))
    (hpage : checkPage path part = [])
    (h : Assertion.decodeKind "ui" (.map part) = .ok a) :
    RestoredCheck "ui" [need "checks" .list] a ∧ checkPage path (written a.encode) = [] := by
  obtain ⟨e, he⟩ : ∃ e, e = written a.encode := ⟨_, rfl⟩
  simp only [Assertion.decodeKind, bind_eq_ok_iff] at h
  obtain ⟨_, hr, _, h₁, checks, h₂, h⟩ := h
  cases hr
  cases h
  have hlist : Entries.get? "checks" e = some (.list (checks.map PageCheck.encode)) := by
    simp [he, Assertion.encode, Check.fields, Entries.get?]
  obtain ⟨hitems, hnonempty⟩ : onList part "checks"
      (checkItems checkPageCheck (inField path "checks") 0) = [] ∧ checks ≠ [] := by
    obtain ⟨v, hg, hv⟩ := exists_of_required h₂
    cases v with
    | list vs =>
      simp only [checkPage, onList, hg, List.append_eq_nil_iff] at hpage
      refine ⟨by simpa only [onList, hg] using hpage.2, ?_⟩
      rintro rfl
      have hlength := (items_eq_ok_iff.1 hv).length_eq
      simp [List.length_eq_zero_iff.1 hlength] at hpage
    | _ => cases hv
  have m₀ : (need "type" .name).problem? e = none := by
    rw [he]
    exact problem?_type _
  obtain ⟨m₁, r₁⟩ := hm.restore_optional e (by decide) h₁ Keeps.text.restores
    (by simp [he, Assertion.encode, Check.fields, Entries.get?])
  obtain ⟨m₂, r₂⟩ := hm.restore_required e (by decide) h₂ (.list hitems restore_pageCheck) hlist
  have hchecks : onList e "checks" (checkItems checkPageCheck (inField path "checks") 0) = [] := by
    refine onList_restored restore_pageCheck hitems (defaulted_of_required h₂) ?_
    simp [hlist]
  refine ⟨⟨rfl, ?_, ?_, ?_⟩, ?_⟩
  · simp only [← he, assertionFields, List.cons_append, List.nil_append, meets_cons, meets_nil,
      and_true]
    exact ⟨m₀, m₁, m₂⟩
  · simp [Assertion.encode, Check.fields, assertionFields, need, may]
  · simp only [← he, Assertion.decodeKind, bind_eq_ok_iff]
    exact ⟨_, rfl, _, r₁, _, r₂, rfl⟩
  · simp only [onList, hlist] at hchecks
    simp [← he, checkPage, onList, hlist, hchecks, hnonempty]

/-- The operands of a rule stand in the assertion, and its other fields are no operands. -/
theorem agrees_operands {rule : String} (description : Option String) {r : Rule}
    (hk : (rule, fields) ∈ ruleFields) (hw : Within (fields.map Field.name) r.operands) :
    Agrees fields (written (Assertion.encode ⟨description, .rule r⟩)) r.operands ∧
      Entries.get? "description" (written (Assertion.encode ⟨description, .rule r⟩)) =
        description.map .text := by
  have hdisjoint : ∀ row ∈ ruleFields, ∀ name ∈ ["type", "description", "rule"],
      name ∉ row.2.map Field.name := by decide
  have hnames := hdisjoint _ hk
  simp only [List.forall_mem_cons] at hnames
  obtain ⟨htype, hdescription, hrule, -⟩ := hnames
  refine ⟨fun field hf => ?_, ?_⟩
  · have hname : field.name ∈ fields.map Field.name := List.mem_map_of_mem hf
    have htype : "type" ≠ field.name := fun heq => htype (heq ▸ hname)
    have hdescription : "description" ≠ field.name := fun heq => hdescription (heq ▸ hname)
    have hrule : "rule" ≠ field.name := fun heq => hrule (heq ▸ hname)
    simp [Assertion.encode, Check.fields, Rule.fields, Entries.get?, htype, hdescription, hrule]
  · simp [Assertion.encode, Check.fields, Rule.fields, Entries.get?, hw.get?_eq_none hdescription]

theorem restore_rule (h : checkRule path part = [])
    (hread : Assertion.decodeKind "business_rule" (.map part) = .ok a) :
    a.check.kind = "business_rule" ∧ checkRule path (written a.encode) = [] ∧
      Assertion.decodeKind "business_rule" (.map (written a.encode)) = .ok a := by
  obtain ⟨rule, operands, hr⟩ := faultless_of_checkRule h
  have hname : rule ∈ Rule.names := List.mem_map_of_mem (f := Prod.fst) hr.mem
  obtain ⟨e, he⟩ : ∃ e, e = written a.encode := ⟨_, rfl⟩
  simp only [Assertion.decodeKind, Rule.decode, tagged_eq_ok hr.rule_eq hname,
    bind_eq_ok_iff] at hread
  obtain ⟨description, h₁, r, ⟨_, htag, h₂⟩, hread⟩ := hread
  cases htag
  cases hread
  have hrest := restore_operands hr.mem hr.table.append_right hr.operands h₂
  obtain ⟨hagrees, hdescription⟩ := agrees_operands description hr.mem hrest.within
  rw [← he] at hagrees hdescription ⊢
  have htag : Entries.get? "rule" e = some (.text rule) := by
    simp [he, Assertion.encode, Check.fields, Rule.fields, Entries.get?, hrest.name_eq]
  have hm := hr.table.append_left
  have m₀ : (need "type" .name).problem? e = none := by
    rw [he]
    exact problem?_type _
  obtain ⟨m₁, r₁⟩ := hm.append_left.restore_optional e (by decide) h₁ Keeps.text.restores
    hdescription
  have m₂ : (need "rule" .name).problem? e = none :=
    (problem?_congr e (htag.trans hr.rule_eq.symm)).trans (hm.append_right _ (by decide))
  have hfields : ∀ owner, checkFields path e (assertionFields ++ [need "rule" .name] ++ operands)
      owner = [] := by
    intro owner
    refine checkFields_eq_nil (meets_append.2 ⟨?_, hagrees.meets hrest.table⟩) ?_
    · simp only [assertionFields, List.cons_append, List.nil_append, meets_cons, meets_nil,
        and_true]
      exact ⟨m₀, m₁, m₂⟩
    · have hoperands : Within ("type" :: "description" :: "rule" :: operands.map Field.name)
          r.operands := hrest.within.mono fun name hname => by simp [hname]
      simp [he, Assertion.encode, Check.fields, Rule.fields, hoperands, assertionFields, need, may]
  refine ⟨rfl, ?_, ?_⟩
  · simp only [checkRule, htag, lookup_ruleFields hr.mem, hfields,
      checkOperands_congr hr.mem hagrees, hrest.check, List.append_nil]
  · simp only [Assertion.decodeKind, Rule.decode, tagged_eq_ok htag hname, bind_eq_ok_iff]
    exact ⟨_, r₁, _, ⟨_, rfl, (decodeNamed_congr hr.mem hagrees).trans hrest.read⟩, rfl⟩

/-! ## Whole assertions -/

/-- An assertion that is no rule has the faults of its page, if it checks one. -/
theorem RestoredCheck.checkAssertion_eq {kind : String} (h : RestoredCheck kind fields a)
    (hk : checkKindFields.lookup kind = some fields) (hrule : kind ≠ "business_rule") :
    checkAssertion path (.map (written a.encode)) =
      if kind = "ui" then checkPage path (written a.encode) else [] := by
  have htag : Entries.get? "type" (written a.encode) = some (.text kind) := by
    rw [← h.kind_eq]
    rfl
  simp only [checkAssertion, htag, hk, if_neg hrule, checkFields_eq_nil h.table h.within,
    List.nil_append]

theorem restore_assertion (path : String) (v : Value) (a : Assertion)
    (h : checkAssertion path v = []) (hread : Assertion.decode v = .ok a) :
    checkAssertion path a.encode = [] ∧ Assertion.decode a.encode = .ok a := by
  obtain ⟨part, kind, fields, rfl, ha⟩ := faultless_of_checkAssertion h
  have hkind : kind ∈ Check.kinds := List.mem_map_of_mem (f := Prod.fst) ha.mem
  rw [Assertion.decode, tagged_eq_ok ha.kind_eq hkind] at hread
  have hread : Assertion.decodeKind kind (.map part) = .ok a := hread
  have hrest : a.check.kind = kind ∧ checkAssertion path (.map (written a.encode)) = [] ∧
      Assertion.decodeKind kind (.map (written a.encode)) = .ok a := by
    have hmem := ha.mem
    simp only [checkKindFields, List.mem_cons, Prod.mk.injEq, List.not_mem_nil, or_false] at hmem
    rcases hmem with ⟨rfl, rfl⟩ | ⟨rfl, rfl⟩ | ⟨rfl, rfl⟩ | ⟨rfl, rfl⟩
    · have hrest := restore_database (ha.table (by decide)) hread
      exact ⟨hrest.kind_eq, hrest.checkAssertion_eq rfl (by decide), hrest.read⟩
    · obtain ⟨hrest, hpage⟩ := restore_page (ha.table (by decide)) (ha.page rfl) hread
      exact ⟨hrest.kind_eq, (hrest.checkAssertion_eq rfl (by decide)).trans hpage, hrest.read⟩
    · obtain ⟨hname, hrule, hread⟩ := restore_rule (ha.rule rfl) hread
      refine ⟨hname, ?_, hread⟩
      have htag : Entries.get? "type" (written a.encode) = some (.text "business_rule") := by
        rw [← hname]
        rfl
      have hlookup : checkKindFields.lookup "business_rule" = some [need "rule" .name] := rfl
      simp only [checkAssertion, htag, hlookup, if_true, hrule]
    · have hrest := restore_variable (ha.table (by decide)) hread
      exact ⟨hrest.kind_eq, hrest.checkAssertion_eq rfl (by decide), hrest.read⟩
  obtain ⟨hname, hfaults, hdecode⟩ := hrest
  have htag : Entries.get? "type" (written a.encode) = some (.text kind) := by
    rw [← hname]
    rfl
  have hencode : a.encode = .map (written a.encode) := rfl
  refine ⟨hfaults, ?_⟩
  rw [hencode, Assertion.decode, tagged_eq_ok htag hkind]
  exact hdecode

end Checks

end ProcessTest.Validation
