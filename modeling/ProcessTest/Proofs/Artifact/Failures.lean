import ProcessTest.Artifact.Generation
import ProcessTest.Proofs.Validation.WellFormed

/-!
# When an artifact cannot be written

A parsed definition has no interaction that lacks a field, and no database check without a table.
What is left to go wrong is a rule that is known before the run and has no verdict.  It stops the
data suite and the brief, each with code of its own, and neither of the other artifacts.

* `Fails` — a computation has an error.
* `Rule.Undecided`, `Definition.Undecided` — a settled rule without a verdict.
* `BrowserScript.exists_lines`, `DatabaseChecks.exists_lines` — artifacts that never fail.
* `DataSuite.fails_lines_iff`, `Brief.fails_lines_iff` — artifacts that need the verdicts.
* `Target.fails_iff_undecided` — all four.
-/

set_option autoImplicit false

namespace ProcessTest

open Decode

/-! ## Computations with an error -/

section Fails

variable {ε ε' α β γ : Type}

/-- The computation has an error. -/
def Fails (x : Except ε α) : Prop := ∃ e, x = .error e

theorem not_fails_ok (a : α) : ¬Fails (.ok a : Except ε α) := nofun

theorem fails_error (e : ε) : Fails (.error e : Except ε α) := ⟨e, rfl⟩

theorem not_fails_iff {x : Except ε α} : ¬Fails x ↔ ∃ a, x = .ok a := by
  cases x with
  | error e => exact ⟨fun h => absurd (fails_error e) h, nofun⟩
  | ok a => exact ⟨fun _ => ⟨a, rfl⟩, fun _ => not_fails_ok a⟩

/-- Two steps fail if the first one does, or the second one after it. -/
theorem fails_bind_iff {x : Except ε α} {f : α → Except ε β} :
    Fails (x >>= f) ↔ Fails x ∨ ∃ a, x = .ok a ∧ Fails (f a) := by
  cases x with
  | error e => exact ⟨fun _ => Or.inl (fails_error e), fun _ => fails_error e⟩
  | ok a =>
    constructor
    · exact fun h => Or.inr ⟨a, rfl, h⟩
    · rintro (h | ⟨_, ⟨⟩, h⟩)
      · exact absurd h (not_fails_ok a)
      · exact h

/-- What only rewrites the result does not fail. -/
theorem fails_bind_pure_iff {x : Except ε α} {f : α → β} :
    Fails (x >>= fun a => pure (f a)) ↔ Fails x := by
  rw [fails_bind_iff]
  exact or_iff_left fun ⟨a, _, h⟩ => not_fails_ok (f a) h

/-- Two steps of which neither needs the other fail if one of them does. -/
theorem fails_both_iff {x : Except ε α} {y : Except ε β} {f : α → β → γ} :
    Fails (x >>= fun a => y >>= fun b => pure (f a b)) ↔ Fails x ∨ Fails y := by
  cases x with
  | error e => exact ⟨fun _ => Or.inl (fails_error e), fun _ => fails_error e⟩
  | ok a => exact fails_bind_pure_iff.trans (or_iff_right (not_fails_ok a)).symm

theorem fails_map_iff {x : Except ε α} {f : α → β} : Fails (x.map f) ↔ Fails x :=
  fails_bind_pure_iff

theorem fails_mapError_iff {x : Except ε α} {f : ε → ε'} : Fails (x.mapError f) ↔ Fails x := by
  cases x with
  | error e => exact ⟨fun _ => fails_error e, fun _ => fails_error (f e)⟩
  | ok a => exact ⟨fun h => absurd h (not_fails_ok a), fun h => absurd h (not_fails_ok a)⟩

end Fails

/-! ## Rules without a verdict -/

/-- The rule is settled ahead of the run, and has no verdict. -/
def Rule.Undecided (b : Bindings) (rule : Rule) : Prop :=
  ∃ settled cause, rule.settled? b = some settled ∧ settled.evaluate = .error cause

/-- The check is a rule that is settled ahead of the run and has no verdict. -/
def Check.Undecided (b : Bindings) (check : Check) : Prop :=
  ∃ rule, check = .rule rule ∧ rule.Undecided b

/-- An assertion of the definition is a rule that is settled ahead of the run and has no
verdict. -/
def Definition.Undecided (d : Definition) : Prop :=
  ∃ a ∈ d.assertions, a.check.Undecided d.bindings

theorem Check.undecided_rule_iff {b : Bindings} {rule : Rule} :
    (Check.rule rule).Undecided b ↔ rule.Undecided b :=
  ⟨fun ⟨_, heq, h⟩ => Check.rule.inj heq ▸ h, fun h => ⟨rule, rfl, h⟩⟩

/-! ## Parsed definitions -/

/-- A database check names a table. -/
def Check.HasTable : Check → Prop
  | .database table _ _ => Text.allBlank table = false
  | _ => True

/-- The actions have interactions with all that their gestures need. -/
def Equipped (actions : List Action) : Prop :=
  ∀ a ∈ actions, ∀ p, a.operation = .interaction p → p.IsEquipped

namespace Validation

theorem hasTable_of_checkAssertion {path : String} {v : Value} {a : Assertion}
    (h : checkAssertion path v = []) (hread : Assertion.decode v = .ok a) : a.check.HasTable := by
  obtain ⟨part, kind, fields, rfl, ha⟩ := faultless_of_checkAssertion h
  have hkind : kind ∈ Check.kinds := List.mem_map_of_mem (f := Prod.fst) ha.mem
  rw [Assertion.decode, tagged_eq_ok ha.kind_eq hkind] at hread
  have hread : Assertion.decodeKind kind (.map part) = .ok a := hread
  have hmem := ha.mem
  simp only [checkKindFields, List.mem_cons, Prod.mk.injEq, List.not_mem_nil, or_false] at hmem
  rcases hmem with ⟨rfl, rfl⟩ | ⟨rfl, rfl⟩ | ⟨rfl, rfl⟩ | ⟨rfl, rfl⟩
  · simp only [Assertion.decodeKind, bind_eq_ok_iff] at hread
    obtain ⟨_, hr, _, -, table, htable, _, -, _, -, hread⟩ := hread
    cases hr
    cases hread
    have hname : FieldKind.name.accepts (.text table) = true :=
      ((ha.table (by decide)).accepts ⟨true, by decide⟩ (by decide) (get?_of_required htable)).2
    simpa [FieldKind.accepts, isName, Check.HasTable] using hname
  · simp only [Assertion.decodeKind, bind_eq_ok_iff] at hread
    obtain ⟨_, -, _, -, _, -, hread⟩ := hread
    cases hread
    trivial
  · simp only [Assertion.decodeKind, bind_eq_ok_iff] at hread
    obtain ⟨_, -, _, -, hread⟩ := hread
    cases hread
    trivial
  · simp only [Assertion.decodeKind, bind_eq_ok_iff] at hread
    obtain ⟨_, -, _, -, _, -, _, -, hread⟩ := hread
    cases hread
    trivial

/-- Every database check of a parsed definition names a table. -/
theorem hasTable_of_parse {v : Value} {d : Definition} (h : parse v = .ok d) :
    ∀ a ∈ d.assertions, a.check.HasTable := by
  obtain ⟨hfaults, hread⟩ := parse_eq_ok_iff.1 h
  obtain ⟨root, rfl, hroot⟩ := faultless_of_validate hfaults
  exact forall_of_checkItems hroot.assertions (Definition.readFrom_of_decode hread).assertions
    fun _ _ _ => hasTable_of_checkAssertion

end Validation

theorem equipped_of_wellFormed {personas : List String} {actions : List Action}
    (h : ∀ a ∈ actions, a.WellFormed personas) : Equipped actions :=
  fun a ha => (h a ha).equipped

namespace Artifact

/-! ## Browser scripts -/

namespace BrowserScript

variable {b : Bindings} {p : Interaction} {merge : Bool} {owner : String}
  {before : Action → List String}

theorem not_fails_alone {method : String} (h : p.selector.isSome = true) :
    ¬Fails (gesture.alone b p method) := by
  obtain ⟨selector, hselector⟩ := Option.isSome_iff_exists.1 h
  unfold gesture.alone
  rw [hselector]
  exact not_fails_ok _

theorem not_fails_withValue {method : String} (h : p.selector.isSome = true)
    (hvalue : p.value.isSome = true) : ¬Fails (gesture.withValue b p method) := by
  obtain ⟨selector, hselector⟩ := Option.isSome_iff_exists.1 h
  obtain ⟨value, hvalue⟩ := Option.isSome_iff_exists.1 hvalue
  unfold gesture.withValue
  rw [hselector, hvalue]
  exact not_fails_ok _

/-- A gesture that has all it needs becomes a statement. -/
theorem not_fails_gesture (h : p.IsEquipped) : ¬Fails (gesture b p) := by
  unfold Interaction.IsEquipped at h
  unfold gesture
  cases hgesture : p.gesture with
  | navigate =>
    rw [hgesture] at h
    obtain ⟨url, hurl⟩ := Option.isSome_iff_exists.1 h
    rw [hurl]
    exact not_fails_ok _
  | click =>
    rw [hgesture] at h
    exact not_fails_alone h
  | check =>
    rw [hgesture] at h
    exact not_fails_alone h
  | fill =>
    rw [hgesture] at h
    exact not_fails_withValue h.1 h.2
  | select =>
    rw [hgesture] at h
    exact not_fails_withValue h.1 h.2
  | press =>
    rw [hgesture] at h
    exact not_fails_withValue h.1 h.2

theorem not_fails_actionLines {index : Nat} {a : Action}
    (h : ∀ p, a.operation = .interaction p → p.IsEquipped) :
    ¬Fails (actionLines b merge owner index a) := by
  unfold actionLines
  cases hoperation : a.operation with
  | interaction p =>
    rw [fails_mapError_iff, fails_map_iff]
    exact not_fails_gesture (h p hoperation)
  | _ => exact not_fails_ok _

theorem not_fails_actionsLines {index : Nat} {actions : List Action} (h : Equipped actions) :
    ¬Fails (actionsLines b merge owner before index actions) := by
  induction actions generalizing index with
  | nil => exact not_fails_ok _
  | cons a rest ih =>
    obtain ⟨ha, hrest⟩ := List.forall_mem_cons.1 h
    unfold actionsLines
    rw [fails_both_iff]
    rintro (hfails | hfails)
    · exact not_fails_actionLines ha hfails
    · exact ih hrest hfails

theorem not_fails_stepsLines {steps : List Step} (h : ∀ step ∈ steps, Equipped step.actions) :
    ¬Fails (stepsLines b steps) := by
  induction steps with
  | nil => exact not_fails_ok _
  | cons step rest ih =>
    obtain ⟨hstep, hrest⟩ := List.forall_mem_cons.1 h
    unfold stepsLines stepLines
    rw [fails_both_iff, fails_bind_pure_iff]
    rintro (hfails | hfails)
    · exact not_fails_actionsLines hstep hfails
    · exact ih hrest hfails

/-- A well-formed definition has a browser script. -/
theorem not_fails_lines {d : Definition} (h : d.WellFormed) : ¬Fails (lines d) := by
  have hsteps : ∀ step ∈ d.steps, Equipped step.actions := fun step hstep =>
    equipped_of_wellFormed (h.steps step hstep).actions
  unfold lines
  simp only
  rw [fails_bind_iff]
  rintro (hfails | ⟨_, -, hfails⟩)
  · exact not_fails_actionsLines (equipped_of_wellFormed h.setup) hfails
  · rcases fails_both_iff.1 hfails with hfails | hfails
    · exact not_fails_actionsLines (equipped_of_wellFormed h.cleanup) hfails
    · exact not_fails_stepsLines hsteps hfails

end BrowserScript

/-! ## Database checks -/

namespace DatabaseChecks

theorem not_fails_counts {b : Bindings} {organization : String} {used : List String}
    {assertions : List Assertion} (h : ∀ a ∈ assertions, a.check.HasTable) :
    ¬Fails (counts b organization used assertions) := by
  induction assertions generalizing used with
  | nil => exact not_fails_ok _
  | cons a rest ih =>
    obtain ⟨ha, hrest⟩ := List.forall_mem_cons.1 h
    obtain ⟨description, check⟩ := a
    cases check with
    | database table conditions expected =>
      have htable : Text.allBlank table = false := ha
      simp only [counts, htable, Bool.false_eq_true, if_false]
      exact fun hfails => ih hrest (fails_bind_pure_iff.1 hfails)
    | _ => exact ih hrest

/-- A definition whose database checks name a table has a script of them. -/
theorem not_fails_lines {d : Definition} (h : ∀ a ∈ d.assertions, a.check.HasTable) :
    ¬Fails (lines d) := by
  unfold lines
  exact fun hfails => not_fails_counts h (fails_bind_pure_iff.1 hfails)

end DatabaseChecks

/-! ## Data suites -/

namespace DataSuite

variable {b : Bindings}

/-- The figures of a rule with a verdict are known. -/
theorem not_fails_figures {rule : Rule} {verdict : Rule.Verdict}
    (h : rule.evaluate = .ok verdict) : ¬Fails (figures rule) := by
  cases rule with
  | taxCalculation amount rate inclusive expectedTax expectedGross =>
    simp only [Rule.evaluate, Rule.checkTax, bind_eq_ok_iff] at h
    obtain ⟨a, hamount, r, hrate, -, -, -, -, -, ⟨tax, htax, -⟩, -⟩ := h
    simp only [figures, hamount, hrate]
    exact fun hfails => not_fails_ok tax (htax ▸ fails_bind_pure_iff.1 hfails)
  | _ => exact not_fails_ok _

/-- The lines of a rule need the verdict of a settled rule, and nothing else. -/
theorem fails_ruleLines_iff {rule : Rule} : Fails (ruleLines b rule) ↔ rule.Undecided b := by
  unfold ruleLines Rule.Undecided
  cases rule.settled? b with
  | none => exact ⟨fun h => absurd h (not_fails_ok _), nofun⟩
  | some settled =>
    simp only
    rw [fails_bind_iff]
    constructor
    · rintro (⟨cause, h⟩ | ⟨verdict, hverdict, h⟩)
      · exact ⟨settled, cause, rfl, h⟩
      · exact absurd (fails_bind_pure_iff.1 h) (not_fails_figures hverdict)
    · rintro ⟨_, cause, ⟨⟩, h⟩
      exact Or.inl ⟨cause, h⟩

theorem fails_assertionLines_iff (index : Nat) {a : Assertion} :
    Fails (assertionLines b index a) ↔ a.check.Undecided b := by
  unfold assertionLines
  cases a.check with
  | rule rule =>
    rw [Check.undecided_rule_iff, ← fails_ruleLines_iff]
    simp only
    cases ruleLines b rule with
    | error cause => exact ⟨fun _ => fails_error cause, fun _ => fails_error _⟩
    | ok lines => exact ⟨fun h => absurd h (not_fails_ok _), fun h => absurd h (not_fails_ok _)⟩
  | _ => exact ⟨fun h => absurd h (not_fails_ok _), nofun⟩

theorem fails_assertionsLines_iff {index : Nat} {assertions : List Assertion} :
    Fails (assertionsLines b index assertions) ↔ ∃ a ∈ assertions, a.check.Undecided b := by
  induction assertions generalizing index with
  | nil => exact ⟨fun h => absurd h (not_fails_ok _), nofun⟩
  | cons a rest ih =>
    unfold assertionsLines
    rw [fails_both_iff, fails_assertionLines_iff, ih, List.exists_mem_cons_iff]

/-- A definition has a data suite unless a rule is undecided. -/
theorem fails_lines_iff {d : Definition} : Fails (lines d) ↔ d.Undecided := by
  unfold lines
  exact fails_bind_pure_iff.trans fails_assertionsLines_iff

end DataSuite

/-! ## Briefs -/

namespace Brief

variable {b : Bindings}

/-- What a rule demands can be said unless it is undecided. -/
theorem fails_ruleText_iff {rule : Rule} : Fails (ruleText b rule) ↔ rule.Undecided b := by
  unfold ruleText Rule.Undecided
  cases rule.settled? b with
  | none => exact ⟨fun h => absurd h (not_fails_ok _), nofun⟩
  | some settled =>
    simp only
    rw [fails_bind_pure_iff]
    constructor
    · rintro ⟨cause, h⟩
      exact ⟨settled, cause, rfl, h⟩
    · rintro ⟨_, cause, ⟨⟩, h⟩
      exact ⟨cause, h⟩

theorem fails_checkText_iff {check : Check} :
    Fails (checkText b check) ↔ check.Undecided b := by
  unfold checkText
  cases check with
  | rule rule =>
    rw [Check.undecided_rule_iff, ← fails_ruleText_iff]
    simp only
    cases ruleText b rule with
    | error cause => exact ⟨fun _ => fails_error cause, fun _ => fails_error _⟩
    | ok text => exact ⟨fun h => absurd h (not_fails_ok _), fun h => absurd h (not_fails_ok _)⟩
  | «variable» path expected =>
    cases expected <;> exact ⟨fun h => absurd h (not_fails_ok _), nofun⟩
  | _ => exact ⟨fun h => absurd h (not_fails_ok _), nofun⟩

theorem fails_assertionItems_iff {index : Nat} {assertions : List Assertion} :
    Fails (assertionItems b index assertions) ↔ ∃ a ∈ assertions, a.check.Undecided b := by
  induction assertions generalizing index with
  | nil => exact ⟨fun h => absurd h (not_fails_ok _), nofun⟩
  | cons a rest ih =>
    unfold assertionItems
    rw [fails_both_iff, fails_checkText_iff, ih, List.exists_mem_cons_iff]

/-- A definition has a brief unless a rule is undecided. -/
theorem fails_lines_iff {d : Definition} : Fails (lines d) ↔ d.Undecided := by
  unfold lines
  exact fails_bind_pure_iff.trans fails_assertionItems_iff

end Brief

end Artifact

/-! ## All artifacts -/

namespace Target

variable {d : Definition}

theorem fails_generate_iff (target : Target) :
    Fails (generate d target) ↔ Fails (target.lines d) :=
  fails_mapError_iff.trans fails_map_iff

/-- **Only an undecided rule keeps an artifact from being written.**  Every parsed definition has a
browser script and database checks.  It has no data suite exactly if it has no brief, and that is
exactly if one of its rules is settled by the document alone and has no verdict. -/
theorem fails_iff_undecided {v : Value} (h : Validation.parse v = .ok d) :
    (∃ script, generate d .playwright = .ok script) ∧
      (∃ script, generate d .pgtap = .ok script) ∧
      (Fails (generate d .jest) ↔ Fails (generate d .agent)) ∧
      (Fails (generate d .agent) ↔ d.Undecided) := by
  have hjest : Fails (generate d .jest) ↔ d.Undecided :=
    (fails_generate_iff .jest).trans Artifact.DataSuite.fails_lines_iff
  have hagent : Fails (generate d .agent) ↔ d.Undecided :=
    (fails_generate_iff .agent).trans Artifact.Brief.fails_lines_iff
  refine ⟨not_fails_iff.1 ?_, not_fails_iff.1 ?_, hjest.trans hagent.symm, hagent⟩
  · rw [fails_generate_iff]
    exact Artifact.BrowserScript.not_fails_lines (Validation.wellFormed_of_parse h)
  · rw [fails_generate_iff]
    exact Artifact.DatabaseChecks.not_fails_lines (Validation.hasTable_of_parse h)

/-- A clerk opens a page; the assets of the books are no number. -/
def ledgerDocument : Value :=
  .map [("id", .text "ledger"), ("title", .text "The books"),
    ("context", .map [("organization_id", .text "salon")]),
    ("personas", .map [("clerk", .map [("role", .text "clerk")])]),
    ("steps", .list [.map [("id", .text "look"), ("persona", .text "clerk"), ("actions", .list [
      .map [("type", .text "ui_interaction"), ("interaction", .text "navigate"),
        ("url", .text "/books")]])]]),
    ("assertions", .list [
      .map [("type", .text "database"), ("table", .text "core_entities"),
        ("expected_count", .number (.int 0))],
      .map [("type", .text "business_rule"), ("rule", .text "accounting_equation"),
        ("assets", .text "plenty"), ("liabilities", .number (.int 60)),
        ("equity", .number (.int 40))]])]

theorem exists_undecided_ledgerDocument :
    ∃ d, Validation.parse ledgerDocument = .ok d ∧ d.Undecided ∧
      (∃ script, generate d .playwright = .ok script) ∧
      (∃ script, generate d .pgtap = .ok script) ∧
      Fails (generate d .jest) ∧ Fails (generate d .agent) := by
  have hnone : (Validation.parse ledgerDocument).toOption.any
      (fun d => (generate d .agent).toOption.isNone) = true := by decide +kernel
  cases h : Validation.parse ledgerDocument with
  | error e =>
    rw [h] at hnone
    cases hnone
  | ok d =>
    rw [h] at hnone
    have hnone : (generate d .agent).toOption.isNone = true := hnone
    obtain ⟨hscript, hchecks, hjest, hagent⟩ := fails_iff_undecided h
    have hfails : Fails (generate d .agent) := by
      cases hbrief : generate d .agent with
      | error cause => exact fails_error cause
      | ok brief =>
        rw [hbrief] at hnone
        cases hnone
    exact ⟨d, rfl, hagent.1 hfails, hscript, hchecks, hjest.2 hfails, hfails⟩

end Target

end ProcessTest
