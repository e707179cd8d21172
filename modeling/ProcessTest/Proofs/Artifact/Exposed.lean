import ProcessTest.Proofs.Artifact.Failures
import ProcessTest.Proofs.Artifact.ScriptComments

/-!
# Texts that stand in comments as they are

Titles and descriptions are brought onto one line before they stand in a comment.  The document's
id, its organization, the names of its personas and the tables of its checks are not; and a string
literal in a comment may still hold one of the two breaks that need no escape.  Each of these
texts is on one line, or a comment of the artifact is not.

* `DatabaseChecks.calm_lines` — the comments of the database checks, part by part.
* `Target.exposed` — the texts that stand in the line comments of an artifact as they are.
* `Target.comments_oneLine_iff` — the comments are on one line exactly if these texts are.
* `Target.exists_broken_comment` — a document that was parsed, with a break in each artifact.
-/

set_option autoImplicit false

namespace ProcessTest

open Decode

/-- The table of a database check without a description. -/
def Assertion.untitled? (a : Assertion) : Option String :=
  match a.description, a.check with
  | none, .database table _ _ => some table
  | _, _ => none

namespace Artifact

/-! ## Database checks -/

namespace DatabaseChecks

variable {b : Bindings} {used : List String}

theorem oneLine_variableOf (key : List Char) : OneLine (Sql.variableOf key) := by
  intro c hc
  unfold Sql.variableOf at hc
  rw [String.toList_ofList] at hc
  obtain ⟨d, -, rfl⟩ := List.mem_map.1 hc
  split
  · rename_i h
    exact not_break_toLower h
  · rfl

theorem oneLine_variableNames (pieces : List Template.Piece) (h : ∀ name ∈ used, OneLine name) :
    ∀ name ∈ Sql.variableNames used pieces, OneLine name := by
  fun_induction Sql.variableNames used pieces with
  | case1 => exact h
  | case2 used cs rest ih => exact ih h
  | case3 used key rest name ih =>
    apply ih
    split
    · exact h
    · exact List.forall_mem_append.2 ⟨h, List.forall_mem_singleton.2 (oneLine_variableOf key)⟩

theorem oneLine_predicate (condition : String × Value) (h : ∀ name ∈ used, OneLine name) :
    ∀ name ∈ (predicate b used condition).2, OneLine name := by
  unfold predicate
  simp only
  split
  · exact h
  · split
    · exact oneLine_variableNames _ h
    · exact h
  · exact h

theorem oneLine_predicates (conditions : Entries) (h : ∀ name ∈ used, OneLine name) :
    ∀ name ∈ (predicates b used conditions).2, OneLine name := by
  induction conditions generalizing used with
  | nil => exact h
  | cons condition rest ih => exact ih (oneLine_predicate condition h)

theorem isCode_restriction {keyword : String} (hkeyword : Opens '-' keyword)
    (predicates : List String) : IsCode '-' (restriction keyword predicates) := by
  induction predicates generalizing keyword with
  | nil => exact isCode_nil
  | cons p rest ih =>
    cases rest with
    | nil => exact isCode_singleton (.append (.append (.append hkeyword)))
    | cons q rest => exact isCode_cons (.append (.append hkeyword)) (ih (.literal (by decide)))

theorem opens_quoted (s : String) : Opens '-' (Sql.quoted s) := by
  refine ⟨'\'', ?_, by decide⟩
  unfold Sql.quoted Sql.enclosed lead content
  rw [String.toList_ofList]
  rfl

/-- The comment on a count is on one line if the table of a check without a description is. -/
theorem calm_countLines {organization : String} {description : Option String} {table : String}
    {conditions : Entries} {expected : Nat} :
    Calm '-' (countLines b organization used description table conditions expected).1 ↔
      ∀ text ∈ Assertion.untitled? ⟨description, .database table conditions expected⟩,
        OneLine text := by
  unfold countLines
  simp only
  refine (calm_append_code ?_).trans ((calm_append_code ?_).trans (calm_empty_cons.trans
    ((calm_cons_code ?_).trans ((calm_opening ?_ ?_).trans ?_))))
  · exact isCode_cons (.append (.behind (by decide) (opens_nat (by decide) expected)))
      (isCode_cons (.behind (by decide) (opens_quoted _)) (isCode_singleton (.literal (by decide))))
  · exact isCode_restriction (.literal (by decide)) _
  · exact isCode_cons (.literal (by decide)) (isCode_singleton (.append (.literal (by decide))))
  · decide
  · decide
  · cases description with
    | some text =>
      exact iff_of_true (oneLine_collapsed text) fun text h => absurd h (Option.not_mem_none text)
    | none =>
      simp only [Assertion.untitled?, Option.mem_some_iff, forall_eq']
      refine oneLine_append.trans ((and_iff_left ?_).trans (oneLine_append.trans
        ((and_iff_left (oneLine_nat expected)).trans (oneLine_append.trans (and_iff_left ?_)))))
      · exact oneLine_literal (by decide)
      · exact oneLine_literal (by decide)

theorem calm_counts {organization : String} {assertions : List Assertion}
    {found : List (List String)} {names : List String}
    (h : counts b organization used assertions = .ok (found, names)) :
    Calm '-' found.flatten ↔ ∀ a ∈ assertions, ∀ text ∈ a.untitled?, OneLine text := by
  induction assertions generalizing used found names with
  | nil =>
    cases h
    exact iff_of_true calm_nil (List.forall_mem_nil _)
  | cons a rest ih =>
    obtain ⟨description, check⟩ := a
    rw [List.forall_mem_cons]
    cases check with
    | database table conditions expected =>
      unfold counts at h
      split at h
      · cases h
      · simp only [bind_eq_ok_iff] at h
        obtain ⟨⟨more, names'⟩, hmore, h⟩ := h
        cases h
        rw [List.flatten_cons, calm_append, calm_countLines, ih hmore]
    | _ =>
      have hnone : ∀ text ∈ (none : Option String), OneLine text :=
        fun text h => absurd h (Option.not_mem_none text)
      rw [ih h]
      refine (and_iff_right ?_).symm
      cases description <;> exact hnone

theorem oneLine_counts {organization : String} {assertions : List Assertion}
    {found : List (List String)} {names : List String}
    (h : counts b organization used assertions = .ok (found, names))
    (hused : ∀ name ∈ used, OneLine name) : ∀ name ∈ names, OneLine name := by
  induction assertions generalizing used found names with
  | nil =>
    cases h
    exact hused
  | cons a rest ih =>
    obtain ⟨description, check⟩ := a
    cases check with
    | database table conditions expected =>
      unfold counts at h
      split at h
      · cases h
      · simp only [bind_eq_ok_iff] at h
        obtain ⟨⟨more, names'⟩, hmore, h⟩ := h
        cases h
        exact ih hmore (oneLine_predicates conditions hused)
    | _ => exact ih h hused

/-- The comments at the top of a script of database checks. -/
theorem calm_heading (d : Definition) :
    Calm '-' [s!"-- {banner d}", s!"-- {oneLine d.title} ({d.id})",
        s!"-- Organization: {d.setting.organization}"] ↔
      OneLine d.id ∧ OneLine d.setting.organization := by
  have hbanner : Calm '-' [s!"-- {banner d}"] ↔ OneLine d.id :=
    (calm_opening (by decide) (by decide)).trans oneLine_banner
  have hopening : OneLine s!"-- {oneLine d.title} (" := by
    refine oneLine_append.2 ⟨oneLine_append.2 ⟨?_, oneLine_collapsed d.title⟩, ?_⟩
    · exact oneLine_literal (by decide)
    · exact oneLine_literal (by decide)
  have htitle : Calm '-' [s!"-- {oneLine d.title} ({d.id})"] ↔ OneLine d.id := by
    refine (calm_comment (isComment_append (isComment_append (isComment_append
      (isComment_append (isComment_literal (by decide))))))).trans (oneLine_append.trans
      ((and_iff_left ?_).trans (oneLine_append.trans (and_iff_right hopening))))
    exact oneLine_literal (by decide)
  have horganization : Calm '-' [s!"-- Organization: {d.setting.organization}"] ↔
      OneLine d.setting.organization := calm_opening (by decide) (by decide)
  refine calm_cons.trans ((and_congr hbanner
    (calm_cons.trans (and_congr htitle horganization))).trans ?_)
  rw [← and_assoc, and_self]

/-- The comments of a script of database checks are on one line if the document's id, the
organization and the tables of checks without a description are. -/
theorem calm_lines {d : Definition} {lines : List String} (h : DatabaseChecks.lines d = .ok lines) :
    Calm '-' lines ↔ (OneLine d.id ∧ OneLine d.setting.organization) ∧
      ∀ a ∈ d.assertions, ∀ text ∈ a.untitled?, OneLine text := by
  simp only [DatabaseChecks.lines, bind_eq_ok_iff] at h
  obtain ⟨⟨found, names⟩, hcounts, h⟩ := h
  cases h
  have hnames : ∀ name ∈ names, OneLine name := oneLine_counts hcounts nofun
  rw [← calm_counts hcounts]
  refine (calm_append_code ?_).trans (calm_append.trans (and_congr ?_ ?_))
  · exact isCode_empty
      (isCode_cons (.literal (by decide)) (isCode_singleton (.literal (by decide))))
  · refine (calm_append_code ?_).trans ((calm_append.trans (and_iff_left ?_)).trans ?_)
    · exact isCode_singleton (.literal (by decide))
    · split
      · exact calm_nil
      · refine (calm_opening (by decide) (by decide)).2 ?_
        exact oneLine_intercalate (oneLine_literal (by decide)) hnames
    · exact calm_heading d
  · cases found with
    | nil =>
      refine iff_of_true (IsCode.calm ?_) calm_nil
      exact isCode_cons (.literal (by decide))
        (isCode_empty (isCode_singleton (.append (.append (.literal (by decide))))))
    | cons first rest => exact calm_code_cons (.append (.append (.literal (by decide))))

end DatabaseChecks

end Artifact

/-! ## All artifacts -/

/-- The texts that stand in the line comments of an artifact as they are. -/
def Target.exposed (d : Definition) : Target → List String
  | .playwright => d.id :: d.steps.flatMap Step.named
  | .jest => d.id :: d.steps.flatMap Step.named ++ d.actions.filterMap (Action.subject? d.bindings)
  | .pgtap => d.id :: d.setting.organization :: d.assertions.filterMap Assertion.untitled?
  | .agent => []

/-- The mark that opens the line comments of an artifact, where it has any. -/
def Target.mark? : Target → Option Char
  | .playwright | .jest => some '/'
  | .pgtap => some '-'
  | .agent => none

namespace Target

open Artifact

variable {d : Definition} {target : Target} {mark : Char} {lines : List String}

/-- **The comments of an artifact are on one line exactly if the exposed texts are.**  Whatever
else a definition holds, no text of it ends a line comment. -/
theorem comments_oneLine_iff (hmark : target.mark? = some mark)
    (h : target.lines d = .ok lines) :
    generate d target = .ok (unlines lines) ∧
      ((∀ line ∈ lines, isComment mark line = true → OneLine line) ↔
        ∀ text ∈ target.exposed d, OneLine text) := by
  have hgenerate : generate d target = .ok (unlines lines) := by
    unfold generate artifact
    rw [h]
    rfl
  refine ⟨hgenerate, ?_⟩
  change Calm mark lines ↔ _
  cases target with
  | playwright =>
    cases hmark
    rw [BrowserScript.calm_lines h]
    exact List.forall_mem_cons.symm
  | jest =>
    cases hmark
    rw [DataSuite.calm_lines h]
    exact (List.forall_mem_append.trans
      (and_congr List.forall_mem_cons List.forall_mem_filterMap)).symm
  | pgtap =>
    cases hmark
    rw [DatabaseChecks.calm_lines h, and_assoc]
    exact (List.forall_mem_cons.trans (and_congr_right' (List.forall_mem_cons.trans
      (and_congr_right' List.forall_mem_filterMap)))).symm
  | agent => cases hmark

/-- The order of a guest has its comments on one line: so have its id and its personas. -/
theorem exists_comments_orderDocument :
    ∃ d lines, Validation.parse Validation.orderDocument = .ok d ∧
      Target.lines d .jest = .ok lines ∧
      ∀ line ∈ lines, isComment '/' line = true → OneLine line := by
  have hlines : (Validation.parse Validation.orderDocument).toOption.any
      (fun d => (Target.lines d .jest).toOption.isSome &&
        (exposed d .jest).all (fun text => decide (OneLine text))) = true := by
    decide +kernel
  cases h : Validation.parse Validation.orderDocument with
  | error e =>
    rw [h] at hlines
    cases hlines
  | ok d =>
    rw [h] at hlines
    obtain ⟨hsome, hexposed⟩ := Bool.and_eq_true_iff.1 hlines
    cases hlines : Target.lines d .jest with
    | error cause =>
      rw [hlines] at hsome
      cases hsome
    | ok lines =>
      refine ⟨d, lines, rfl, hlines, (comments_oneLine_iff rfl hlines).2.2 ?_⟩
      intro text htext
      simpa using List.all_eq_true.1 hexposed text htext

/-- The organization and the name of the persona go on behind a line break. -/
def strayDocument : Value :=
  .map [("id", .text "stray"), ("title", .text "A stray line"),
    ("context", .map [("organization_id", .text "salon\nDROP TABLE core_entities;")]),
    ("personas", .map [("clerk\nprocess.exit(0);", .map [("role", .text "clerk")])]),
    ("steps", .list [.map [("id", .text "look"), ("persona", .text "clerk\nprocess.exit(0);"),
      ("actions", .list [.map [("type", .text "wait"), ("duration_ms", .number (.int 1))]])]])]

/-- A comment of the document's artifact; what stands behind the break is code. -/
def strayComment : Target → String
  | .pgtap => "-- Organization: salon\nDROP TABLE core_entities;"
  | _ => "    // persona: clerk\nprocess.exit(0);"

/-- A document that was parsed has a comment with a break in each artifact with comments. -/
theorem exists_broken_comment :
    ∃ d, Validation.parse strayDocument = .ok d ∧
      ∀ target mark, mark? target = some mark →
        (∃ lines, target.lines d = .ok lines ∧ strayComment target ∈ lines) ∧
          isComment mark (strayComment target) = true ∧ ¬OneLine (strayComment target) := by
  have hlines : (Validation.parse strayDocument).toOption.any
      (fun d => [playwright, jest, pgtap].all fun target =>
        (target.lines d).toOption.any (·.contains (strayComment target))) = true := by
    decide +kernel
  cases h : Validation.parse strayDocument with
  | error e =>
    rw [h] at hlines
    cases hlines
  | ok d =>
    rw [h] at hlines
    have hlines := List.all_eq_true.1 hlines
    refine ⟨d, rfl, fun target mark hmark => ⟨?_, ?_⟩⟩
    · have hmem : target ∈ [playwright, jest, pgtap] := by
        cases target with
        | agent => cases hmark
        | _ => decide
      obtain ⟨lines, hsome, hline⟩ := (Option.any_eq_true _ _).1 (hlines target hmem)
      refine ⟨lines, ?_, List.contains_iff_mem.1 hline⟩
      cases hread : target.lines d with
      | error cause =>
        rw [hread] at hsome
        cases hsome
      | ok read =>
        rw [hread] at hsome
        cases hsome
        rfl
    · cases target with
      | agent => cases hmark
      | _ =>
        cases hmark
        decide

end Target

end ProcessTest
