import ProcessTest.Artifact.Error
import ProcessTest.Artifact.Settled
import ProcessTest.Artifact.Sql

/-!
# Database checks

One count per database assertion, restricted to the organization of the document, in a
transaction that is rolled back.  Conditions on results of a run are variables that are passed to
the script.
-/

set_option autoImplicit false

namespace ProcessTest.Artifact.DatabaseChecks

/-- The predicate of a condition, and the variables in use after it. -/
def predicate (b : Bindings) (used : List String) (condition : String × Value) :
    String × List String :=
  let column := Sql.identifier condition.1
  match Template.resolve b condition.2 with
  | .null => (s!"{column} IS NULL", used)
  | .text s =>
    if Template.hasPlaceholder s then
      let (expression, used) := Sql.expression used s
      (s!"{column} = {expression}", used)
    else (s!"{column} = {Sql.quoted s}", used)
  | v => (s!"{column} = {Sql.literal v}", used)

/-- The predicates of all conditions. -/
def predicates (b : Bindings) (used : List String) : Entries → List String × List String
  | [] => ([], used)
  | condition :: rest =>
    let (line, used) := predicate b used condition
    let (lines, used) := predicates b used rest
    (line :: lines, used)

/-- The lines of the restriction, closed behind the last one. -/
def restriction (keyword : String) : List String → List String
  | [] => []
  | [p] => [s!"{keyword} {p}),"]
  | p :: rest => s!"{keyword} {p}" :: restriction "      AND" rest

/-- The lines of one count, and the variables in use after it. -/
def countLines (b : Bindings) (organization : String) (used : List String)
    (description : Option String) (table : String) (conditions : Entries) (expected : Nat) :
    List String × List String :=
  let (conditions, used) := predicates b used conditions
  let title := match description with
    | some text => oneLine text
    | none => s!"{table} has {expected} matching row(s)"
  (["", s!"-- {title}", "SELECT is(", s!"  (SELECT count(*) FROM {Sql.identifier table}"] ++
    restriction "    WHERE" (s!"organization_id = {Sql.quoted organization}" :: conditions) ++
    [s!"  {expected}::bigint,", s!"  {Sql.quoted title}", ");"], used)

/-- The counts of all database assertions, and the variables in use after them. -/
def counts (b : Bindings) (organization : String) (used : List String) :
    List Assertion → Except Error (List (List String) × List String)
  | [] => .ok ([], used)
  | ⟨description, .database table conditions expected⟩ :: rest =>
    if Text.allBlank table then .error .noTable
    else do
      let (count, used) := countLines b organization used description table conditions expected
      let (more, used) ← counts b organization used rest
      pure (count :: more, used)
  | _ :: rest => counts b organization used rest

/-- The plan and the checks. -/
def body (d : Definition) : List (List String) → List String
  | [] =>
    let title := Sql.quoted s!"{d.id} declares no database assertions"
    ["SELECT plan(1);", "", s!"SELECT pass({title});"]
  | counts => s!"SELECT plan({counts.length});" :: counts.flatten

/-- The lines of the script of a definition. -/
def lines (d : Definition) : Except Error (List String) := do
  let organization := d.setting.organization
  let (counts, used) ← counts d.bindings organization [] d.assertions
  pure (
    [s!"-- {banner d}", s!"-- {oneLine d.title} ({d.id})", s!"-- Organization: {organization}"] ++
    (if used.isEmpty then []
      else ["-- Requires psql variables (pass with -v name=value): " ++ ", ".intercalate used]) ++
    ["BEGIN;"] ++ body d counts ++ ["", "SELECT * FROM finish();", "ROLLBACK;"])

end ProcessTest.Artifact.DatabaseChecks
