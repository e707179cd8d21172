import ProcessTest.Artifact.Generation
import ProcessTest.Proofs.Artifact.Comments
import ProcessTest.Proofs.Decoding.Success

/-!
# Comments of scripts

The two scripts for browsers and for data name personas in comments, and the one for data tells of
the interactions that it leaves out.  Titles, descriptions and verdicts are brought onto one line
before they stand in a comment.

* `Step.named`, `Action.subject?` — the texts that stand in comments as they are.
* `BrowserScript.calm_lines`, `DataSuite.calm_lines` — the comments of a script are on one line
  exactly if these texts and the document's id are.
-/

set_option autoImplicit false

namespace ProcessTest

open Decode

/-! ## Texts in comments -/

/-- The personas that are named in the test of a step. -/
def Step.named (step : Step) : List String := step.persona :: step.actions.filterMap Action.persona

/-- What an interaction is about, as a comment of a data suite has it. -/
def Action.subject? (b : Bindings) (a : Action) : Option String :=
  match a.operation with
  | .interaction p => some (Artifact.Script.text b ((p.selector.or p.url).getD ""))
  | _ => none

/-- The actions of all phases. -/
def Definition.actions (d : Definition) : List Action :=
  d.setup ++ d.cleanup ++ d.steps.flatMap Step.actions

theorem Step.forall_named_iff {step : Step} {P : String → Prop} :
    (∀ text ∈ step.named, P text) ↔
      P step.persona ∧ ∀ a ∈ step.actions, ∀ persona ∈ a.persona, P persona := by
  unfold named
  rw [List.forall_mem_cons, List.forall_mem_filterMap]
  rfl

namespace Artifact

theorem oneLine_ruleName (rule : Rule) : OneLine rule.name := by
  have hnames : ∀ name ∈ Rule.names, OneLine name := by decide
  apply hnames
  cases rule <;> simp [Rule.name, Rule.names]

theorem oneLine_kind (check : Check) : OneLine check.kind := by
  have hkinds : ∀ kind ∈ Check.kinds, OneLine kind := by decide
  apply hkinds
  cases check <;> simp [Check.kind, Check.kinds]

theorem oneLine_gestureName (gesture : Gesture) : OneLine gesture.name := by
  cases gesture <;> decide

/-! ## Scripts -/

namespace Script

variable {b : Bindings}

theorem isCode_statusCheck {result : String} {o : Operation} :
    IsCode '/' (statusCheck result o) := by
  unfold statusCheck
  split
  · split
    · exact isCode_singleton (.append (.append (.append (.append (.literal (by decide))))))
    · exact isCode_nil
  · exact isCode_nil

theorem isCode_statements {merge : Bool} {index : Nat} {a : Action} {lines : List String}
    (h : statements? b merge index a = some lines) : IsCode '/' lines := by
  obtain ⟨call, -, rfl⟩ := Option.map_eq_some_iff.1 h
  simp only [isCode_append]
  refine ⟨⟨⟨?_, isCode_statusCheck⟩, ?_⟩, ?_⟩
  · exact isCode_singleton (.append (.append (.append (.append (.literal (by decide))))))
  · split
    · exact isCode_singleton (.append (.append (.append (.append (.literal (by decide))))))
    · exact isCode_nil
  · split
    · exact isCode_singleton (.append (.append (.literal (by decide))))
    · exact isCode_nil

theorem opens_variableCheck {path : String} {expected : Option Value} :
    Opens '/' (variableCheck b path expected) := by
  unfold variableCheck
  cases expected with
  | none => exact .append (.append (.literal (by decide)))
  | some v => exact .append (.append (.append (.append (.literal (by decide)))))

theorem isCode_prologue {d : Definition} : IsCode '/' (prologue d) :=
  isCode_cons (.append (.append (.literal (by decide))))
    (isCode_singleton (.append (.append (.literal (by decide)))))

/-- The comment on another persona is on one line if its name is. -/
theorem calm_personaComment {step : Step} {a : Action} :
    Calm '/' (personaComment step a) ↔ ∀ persona ∈ a.persona, OneLine persona := by
  unfold personaComment Step.personaOf
  cases a.persona with
  | none => exact ⟨fun _ => nofun, fun _ => calm_nil⟩
  | some persona =>
    simp only [Option.mem_some_iff, forall_eq', Option.getD_some]
    exact calm_opening (by decide) (by decide)

end Script

/-! ## Browser scripts -/

namespace BrowserScript

variable {b : Bindings} {merge : Bool} {owner : String} {index : Nat}

theorem opens_alone {p : Interaction} {method line : String}
    (h : gesture.alone b p method = .ok line) : Opens '/' line := by
  simp only [gesture.alone, bind_eq_ok_iff] at h
  obtain ⟨_, -, h⟩ := h
  cases h
  exact .append (.append (.append (.append (.literal (by decide)))))

theorem opens_withValue {p : Interaction} {method line : String}
    (h : gesture.withValue b p method = .ok line) : Opens '/' line := by
  simp only [gesture.withValue, bind_eq_ok_iff] at h
  obtain ⟨_, -, _, -, h⟩ := h
  cases h
  exact .append (.append (.append (.append (.append (.append (.literal (by decide)))))))

theorem opens_gesture {p : Interaction} {line : String} (h : gesture b p = .ok line) :
    Opens '/' line := by
  unfold gesture at h
  cases hgesture : p.gesture with
  | navigate =>
    simp only [hgesture, bind_eq_ok_iff] at h
    obtain ⟨_, -, h⟩ := h
    cases h
    exact .append (.append (.literal (by decide)))
  | click | check =>
    rw [hgesture] at h
    exact opens_alone h
  | fill | select | press =>
    rw [hgesture] at h
    exact opens_withValue h

theorem isCode_actionLines {a : Action} {lines : List String}
    (h : actionLines b merge owner index a = .ok lines) : IsCode '/' lines := by
  unfold actionLines at h
  split at h
  · cases h
    exact isCode_singleton (.append (.append (.literal (by decide))))
  · rename_i p _
    cases hline : gesture b p with
    | error field =>
      rw [hline] at h
      cases h
    | ok line =>
      rw [hline] at h
      cases h
      exact isCode_singleton (opens_gesture hline)
  · cases h
    cases hlines : Script.statements? b merge index a with
    | none => exact isCode_nil
    | some lines => exact Script.isCode_statements hlines

theorem calm_actionsLines {before : Action → List String} {actions : List Action}
    {lines : List String} (h : actionsLines b merge owner before index actions = .ok lines) :
    Calm '/' lines ↔ ∀ a ∈ actions, Calm '/' (before a) := by
  induction actions generalizing index lines with
  | nil =>
    cases h
    exact iff_of_true calm_nil (List.forall_mem_nil _)
  | cons a rest ih =>
    simp only [actionsLines, bind_eq_ok_iff] at h
    obtain ⟨first, hfirst, more, hmore, h⟩ := h
    cases h
    rw [calm_append, calm_append, calm_indented, ih hmore, List.forall_mem_cons]
    exact and_congr_left' (and_iff_left (isCode_actionLines hfirst).calm)

theorem isCode_conditionChecks {what : String} {conditions : List String} :
    IsCode '/' (conditions.map (conditionCheck what)) := by
  induction conditions with
  | nil => exact isCode_nil
  | cons condition rest ih =>
    exact isCode_cons (.append (.append (.append (.append (.literal (by decide)))))) ih

/-- The test of a step has its comments on one line if the personas' names are. -/
theorem calm_stepLines {step : Step} {lines : List String} (h : stepLines b step = .ok lines) :
    Calm '/' lines ↔ ∀ text ∈ step.named, OneLine text := by
  simp only [stepLines, bind_eq_ok_iff] at h
  obtain ⟨actions, hactions, h⟩ := h
  cases h
  rw [Step.forall_named_iff]
  -- Behind the actions there is only code; before them, the persona of the step.
  refine (calm_append_code ?_).trans ((calm_append_code isCode_conditionChecks).trans
    ((calm_append_code ?_).trans (calm_append.trans (and_congr ?_ ?_))))
  · exact isCode_singleton (.literal (by decide))
  · exact isCode_singleton (.append (.append (.literal (by decide))))
  · refine (calm_append_code ?_).trans ((calm_append_code isCode_conditionChecks).trans
      ((calm_code_cons ?_).trans ((calm_code_cons ?_).trans ?_)))
    · exact isCode_singleton (.literal (by decide))
    · exact .append (.append (.literal (by decide)))
    · exact .append (.append (.literal (by decide)))
    · exact calm_opening (by decide) (by decide)
  · rw [calm_actionsLines hactions]
    exact forall₂_congr fun a _ => Script.calm_personaComment

theorem calm_stepsLines {steps : List Step} {lines : List String}
    (h : stepsLines b steps = .ok lines) :
    Calm '/' lines ↔ ∀ text ∈ steps.flatMap Step.named, OneLine text := by
  induction steps generalizing lines with
  | nil =>
    cases h
    exact iff_of_true calm_nil (List.forall_mem_nil _)
  | cons step rest ih =>
    simp only [stepsLines, bind_eq_ok_iff] at h
    obtain ⟨first, hfirst, more, hmore, h⟩ := h
    cases h
    rw [calm_append, ih hmore, List.flatMap_cons, List.forall_mem_append, ← calm_stepLines hfirst]
    exact and_congr_left' (calm_empty_cons.trans calm_indented)

theorem isCode_pageCheckLines {c : PageCheck} : IsCode '/' (pageCheckLines b c) := by
  unfold pageCheckLines
  refine isCode_append.2 ⟨?_, ?_⟩
  · split
    · exact isCode_singleton (.append (.append (.literal (by decide))))
    · exact isCode_singleton (.append (.append (.literal (by decide))))
    · exact isCode_singleton (.append (.append (.literal (by decide))))
    · exact isCode_nil
  · split
    · exact isCode_singleton (.append (.append (.append (.append (.literal (by decide))))))
    · exact isCode_nil

/-- An assertion is described on one line. -/
theorem calm_assertionLines {a : Assertion} : Calm '/' (assertionLines b a) := by
  have hname : OneLine ((a.description.map oneLine).getD "(unnamed)") := by
    cases a.description with
    | none => decide
    | some text => exact oneLine_collapsed text
  unfold assertionLines
  split
  · refine calm_append.2 ⟨?_, calm_flatMap.2 fun c _ => isCode_pageCheckLines.calm⟩
    cases a.description with
    | none => exact calm_nil
    | some text => exact (calm_opening (by decide) (by decide)).2 (oneLine_collapsed text)
  · exact (isCode_singleton Script.opens_variableCheck).calm
  · refine (calm_comment (isComment_append (isComment_append (isComment_literal (by decide))))).2 ?_
    simp only [oneLine_append]
    exact ⟨⟨oneLine_literal (by decide), hname⟩, oneLine_literal (by decide)⟩
  · rename_i rule _
    refine (calm_comment (isComment_append (isComment_append (isComment_append
      (isComment_append (isComment_literal (by decide))))))).2 ?_
    simp only [oneLine_append]
    exact ⟨⟨⟨⟨oneLine_literal (by decide), oneLine_ruleName rule⟩, oneLine_literal (by decide)⟩,
      hname⟩, oneLine_literal (by decide)⟩

/-- The comments of a browser script are on one line if the document's id and the names of its
personas are. -/
theorem calm_lines {d : Definition} {lines : List String} (h : BrowserScript.lines d = .ok lines) :
    Calm '/' lines ↔ OneLine d.id ∧ ∀ text ∈ d.steps.flatMap Step.named, OneLine text := by
  simp only [BrowserScript.lines, bind_eq_ok_iff] at h
  obtain ⟨setup, hsetup, cleanup, hcleanup, steps, hsteps, h⟩ := h
  cases h
  have hsetup : Calm '/' setup := (calm_actionsLines hsetup).2 fun _ _ => calm_nil
  have hcleanup : Calm '/' cleanup := (calm_actionsLines hcleanup).2 fun _ _ => calm_nil
  have hchecks : Calm '/' (d.assertions.flatMap (assertionLines d.bindings)) :=
    calm_flatMap.2 fun a _ => calm_assertionLines
  -- From the last line to the first: the tests behind the hooks, then the hooks.
  refine (calm_append_code ?_).trans ((calm_append.trans (and_iff_left ?_)).trans
    (calm_append.trans (and_congr ?_ (calm_stepsLines hsteps))))
  · exact isCode_singleton (.literal (by decide))
  · split
    · exact calm_nil
    · refine calm_append.2 ⟨calm_append.2 ⟨IsCode.calm ?_, calm_indented.2 hchecks⟩,
        IsCode.calm ?_⟩
      · exact isCode_empty (isCode_singleton (.literal (by decide)))
      · exact isCode_singleton (.literal (by decide))
  · refine (calm_append_code ?_).trans ((calm_append.trans (and_iff_left ?_)).trans ?_)
    · exact isCode_cons (.literal (by decide)) (isCode_singleton (.literal (by decide)))
    · exact calm_indented.2 hcleanup
    refine (calm_append_code ?_).trans ((calm_append.trans (and_iff_left ?_)).trans ?_)
    · exact isCode_cons (.literal (by decide))
        (isCode_empty (isCode_singleton (.literal (by decide))))
    · exact calm_indented.2 hsetup
    refine (calm_append_code ?_).trans ((calm_append_code Script.isCode_prologue).trans
      ((calm_cons_code ?_).trans ?_))
    · exact isCode_cons (.literal (by decide)) (isCode_empty
        (isCode_cons (.literal (by decide)) (isCode_singleton (.literal (by decide)))))
    · exact isCode_cons (.literal (by decide))
        (isCode_cons (.append (.append (.literal (by decide)))) (isCode_empty
          (isCode_cons (.append (.append (.literal (by decide))))
            (isCode_cons (.append (.append (.literal (by decide)))) (isCode_empty isCode_nil)))))
    · exact (calm_opening (by decide) (by decide)).trans oneLine_banner

end BrowserScript

/-! ## Data suites -/

namespace DataSuite

variable (b : Bindings)

/-- An interaction becomes a comment, all else becomes code. -/
theorem calm_actionLines (merge : Bool) (index : Nat) (a : Action) :
    Calm '/' (actionLines b merge index a) ↔ ∀ text ∈ a.subject? b, OneLine text := by
  have hnone : ∀ text ∈ (none : Option String), OneLine text :=
    fun text h => absurd h (Option.not_mem_none text)
  unfold actionLines Action.subject?
  cases a.operation with
  | wait ms =>
    exact iff_of_true (isCode_singleton (.append (.append (.literal (by decide))))).calm hnone
  | interaction p =>
    have hclosing : OneLine " (browser only, see the playwright target)" :=
      oneLine_literal (by decide)
    have hopening : OneLine s!"// ui: {p.gesture.name} " := by
      refine oneLine_append.2 ⟨oneLine_append.2 ⟨?_, oneLine_gestureName p.gesture⟩, ?_⟩
      · exact oneLine_literal (by decide)
      · exact oneLine_literal (by decide)
    simp only [Option.mem_some_iff, forall_eq']
    refine (calm_comment (isComment_append (isComment_append (isComment_append
      (isComment_append (isComment_literal (by decide))))))).trans ?_
    rw [oneLine_append, oneLine_append]
    exact (and_iff_left hclosing).trans (and_iff_right hopening)
  | _ =>
    refine iff_of_true (IsCode.calm ?_) hnone
    cases hlines : Script.statements? b merge index a with
    | none => exact isCode_nil
    | some lines => exact Script.isCode_statements hlines

theorem calm_hookLines {hook : String} (hhook : Opens '/' hook) (actions : List Action) :
    Calm '/' (hookLines b hook actions) ↔
      ∀ a ∈ actions, ∀ text ∈ a.subject? b, OneLine text := by
  rw [← calm_numbered (calm_actionLines b false) 0 actions]
  unfold hookLines
  split
  · rename_i hempty
    rw [List.isEmpty_iff.1 hempty]
    exact iff_of_true calm_nil calm_nil
  · refine (calm_append_code ?_).trans ((calm_code_append ?_).trans calm_indented)
    · exact isCode_singleton (.literal (by decide))
    · exact isCode_empty (isCode_singleton (.append (.behind (by decide) hhook)))

theorem isCode_conditionChecks (conditions : List String) :
    IsCode '/' (conditions.map conditionCheck) := by
  induction conditions with
  | nil => exact isCode_nil
  | cons condition rest ih => exact isCode_cons (.append (.append (.literal (by decide)))) ih

/-- The test of a step has its comments on one line if the personas' names and the subjects of the
interactions are. -/
theorem calm_stepLines (step : Step) :
    Calm '/' (stepLines b step) ↔ (∀ text ∈ step.named, OneLine text) ∧
      ∀ a ∈ step.actions, ∀ text ∈ a.subject? b, OneLine text := by
  have haction (index : Nat) (a : Action) : Calm '/' (stepActionLines b step index a) ↔
      (∀ persona ∈ a.persona, OneLine persona) ∧ ∀ text ∈ a.subject? b, OneLine text := by
    unfold stepActionLines
    rw [calm_append, calm_indented, calm_actionLines, Script.calm_personaComment]
  have hactions := calm_numbered haction 0 step.actions
  rw [Step.forall_named_iff, and_assoc, ← forall₂_and, ← hactions]
  unfold stepLines
  -- Behind the actions there is only code; before them, the persona of the step.
  refine (calm_append_code ?_).trans ((calm_append_code (isCode_conditionChecks _)).trans
    ((calm_append_code ?_).trans (calm_append.trans (and_congr_left' ?_))))
  · exact isCode_singleton (.append (.append (.literal (by decide))))
  · exact isCode_singleton (.append (.append (.literal (by decide))))
  · refine (calm_append_code ?_).trans ((calm_append_code (isCode_conditionChecks _)).trans
      ((calm_code_cons ?_).trans ?_))
    · exact isCode_singleton (.literal (by decide))
    · exact .append (.append (.literal (by decide)))
    · exact calm_opening (by decide) (by decide)

theorem calm_stepTests (steps : List Step) :
    Calm '/' (steps.flatMap fun step => "" :: indented 2 (stepLines b step)) ↔
      (∀ text ∈ steps.flatMap Step.named, OneLine text) ∧
        ∀ a ∈ steps.flatMap Step.actions, ∀ text ∈ a.subject? b, OneLine text := by
  rw [calm_flatMap, List.forall_mem_flatMap, List.forall_mem_flatMap, ← forall₂_and]
  refine forall₂_congr fun step _ => ?_
  rw [← calm_stepLines]
  exact calm_empty_cons.trans calm_indented

/-! ### Rules and assertions -/

variable {b}

theorem isCode_figures {rule : Rule} {lines : List String} (h : figures rule = .ok lines) :
    IsCode '/' lines := by
  cases rule with
  | taxCalculation amount rate inclusive expectedTax expectedGross =>
    simp only [figures, bind_eq_ok_iff] at h
    obtain ⟨_, -, _, -, _, -, h⟩ := h
    cases h
    exact isCode_singleton (.append (.literal (by decide)))
  | _ =>
    cases h
    exact isCode_nil

/-- A verdict is explained on one line. -/
theorem calm_ruleLines {rule : Rule} {lines : List String} (h : ruleLines b rule = .ok lines) :
    Calm '/' lines := by
  unfold ruleLines at h
  split at h
  · cases h
    refine (calm_cons_code ?_).2 ((calm_comment (isComment_literal (by decide))).2 ?_)
    · exact isCode_cons (.append (.append (.literal (by decide))))
        (isCode_singleton (.literal (by decide)))
    · exact oneLine_literal (by decide)
  · simp only [bind_eq_ok_iff] at h
    obtain ⟨verdict, -, figures, hfigures, h⟩ := h
    cases h
    refine (calm_append_code (isCode_figures hfigures)).2 ((calm_append_code ?_).2
      (calm_append.2 ⟨?_, ?_⟩))
    · exact isCode_cons (.append (.append (.literal (by decide))))
        (isCode_singleton (.literal (by decide)))
    · exact (calm_opening (by decide) (by decide)).2 (oneLine_collapsed _)
    · split
      · exact calm_nil
      · exact (calm_comment (isComment_literal (by decide))).2 (oneLine_literal (by decide))

/-- The name of an assertion's test. -/
theorem oneLine_name (index : Nat) (a : Assertion) : OneLine (match a.description with
    | some text => oneLine text
    | none => s!"{a.check.kind} #{index + 1}") := by
  cases a.description with
  | some text => exact oneLine_collapsed text
  | none =>
    refine oneLine_append.2 ⟨oneLine_append.2 ⟨oneLine_kind a.check, ?_⟩, oneLine_nat (index + 1)⟩
    exact oneLine_literal (by decide)

theorem calm_assertionLines {index : Nat} {a : Assertion} {lines : List String}
    (h : assertionLines b index a = .ok lines) : Calm '/' lines := by
  have hname := oneLine_name index a
  unfold assertionLines at h
  simp only at h
  split at h
  · cases h
    refine IsCode.calm (isCode_cons ?_ (isCode_cons ?_ (isCode_cons ?_ (isCode_singleton ?_))))
    · exact .append (.append (.literal (by decide)))
    · exact .append (.append (.append (.append (.literal (by decide)))))
    · exact .append (.append (.literal (by decide)))
    · exact .literal (by decide)
  · split at h
    · rename_i rule _ _ hlines
      cases h
      refine (calm_append_code ?_).2 ((calm_code_append ?_).2
        (calm_indented.2 (calm_ruleLines hlines)))
      · exact isCode_singleton (.literal (by decide))
      · exact isCode_singleton (.append (.append (.literal (by decide))))
    · cases h
  · cases h
    refine IsCode.calm (isCode_cons ?_ (isCode_cons ?_ (isCode_singleton ?_)))
    · exact .append (.append (.literal (by decide)))
    · exact .behind (by decide) Script.opens_variableCheck
    · exact .literal (by decide)
  · rename_i checks _
    cases h
    refine (calm_comment (isComment_append (isComment_append (isComment_append
      (isComment_append (isComment_literal (by decide))))))).2 ?_
    refine oneLine_append.2 ⟨oneLine_append.2 ⟨oneLine_append.2 ⟨oneLine_append.2 ⟨?_, hname⟩, ?_⟩,
      oneLine_nat checks.length⟩, ?_⟩
    · exact oneLine_literal (by decide)
    · exact oneLine_literal (by decide)
    · exact oneLine_literal (by decide)

theorem calm_assertionsLines {index : Nat} {assertions : List Assertion} {lines : List String}
    (h : assertionsLines b index assertions = .ok lines) : Calm '/' lines := by
  induction assertions generalizing index lines with
  | nil =>
    cases h
    exact calm_nil
  | cons a rest ih =>
    simp only [assertionsLines, bind_eq_ok_iff] at h
    obtain ⟨first, hfirst, more, hmore, h⟩ := h
    cases h
    refine calm_append.2 ⟨calm_append.2 ⟨?_, calm_indented.2 (calm_assertionLines hfirst)⟩,
      ih hmore⟩
    split
    · exact (isCode_empty isCode_nil).calm
    · exact calm_nil

/-- The comments of a data suite are on one line if the document's id, the names of its personas
and the subjects of its interactions are. -/
theorem calm_lines {d : Definition} {lines : List String} (h : DataSuite.lines d = .ok lines) :
    Calm '/' lines ↔ (OneLine d.id ∧ ∀ text ∈ d.steps.flatMap Step.named, OneLine text) ∧
      ∀ a ∈ d.actions, ∀ text ∈ a.subject? d.bindings, OneLine text := by
  simp only [DataSuite.lines, bind_eq_ok_iff] at h
  obtain ⟨assertions, hassertions, h⟩ := h
  cases h
  have hassertions : Calm '/' assertions := calm_assertionsLines hassertions
  have hsetup := calm_hookLines d.bindings
    (show Opens '/' "beforeAll" from .literal (by decide)) d.setup
  have hcleanup := calm_hookLines d.bindings
    (show Opens '/' "afterAll" from .literal (by decide)) d.cleanup
  refine (calm_append_code ?_).trans ((calm_append.trans (and_iff_left ?_)).trans ?_)
  · exact isCode_singleton (.literal (by decide))
  · split
    · exact calm_nil
    · refine (calm_append_code ?_).2 ((calm_code_append ?_).2 hassertions)
      · exact isCode_singleton (.literal (by decide))
      · exact isCode_empty (isCode_singleton (.literal (by decide)))
  rw [calm_append, calm_append, calm_append, hsetup, hcleanup, calm_stepTests, Definition.actions,
    List.forall_mem_append, List.forall_mem_append]
  have hhead {head : List String} (hhead : Calm '/' head ↔ OneLine d.id) {A B N C : Prop} :
      ((Calm '/' head ∧ A) ∧ B) ∧ N ∧ C ↔ (OneLine d.id ∧ N) ∧ (A ∧ B) ∧ C := by
    rw [hhead]
    tauto
  refine hhead ((calm_append_code Script.isCode_prologue).trans ((calm_append_code ?_).trans
    ((calm_append_code ?_).trans ((calm_cons_code ?_).trans ?_))))
  · exact isCode_singleton (.append (.append (.literal (by decide))))
  · split
    · exact isCode_cons (.append (.append (.literal (by decide)))) (isCode_empty isCode_nil)
    · exact isCode_nil
  · exact isCode_cons (.append (.append (.literal (by decide)))) (isCode_empty isCode_nil)
  · exact (calm_opening (by decide) (by decide)).trans oneLine_banner

end DataSuite

end Artifact

end ProcessTest
