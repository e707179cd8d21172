import ProcessTest.Proofs.Run.Filled
import ProcessTest.Proofs.Run.Parts
import ProcessTest.Proofs.Run.Verdicts
import ProcessTest.Proofs.Validation.WellFormed
import ProcessTest.Simulation

/-!
# Expected values of variables

What becomes of the value that an assertion about a variable expects, from the document to the
comparison with what has been bound.

* `Assertion.exists_variable_of_decode` — the path and the expected value are those of the document,
  but null counts as no value.
* `checkVariable_eq_none_iff` — the comparison.
* `Definition.exists_assertion_of_parse` — the assertions of a definition are those of its document,
  place by place.
* `passes_variable_iff` — the whole way; `not_compared_null` is the value that does not go it.
-/

set_option autoImplicit false

namespace ProcessTest

open Decode

variable {part : Entries} {d : Definition} {b : Bindings} {path : String} {i : ℕ}

/-! ## From the document to the check -/

/-- A value that stands in an optional field, unless it is null. -/
theorem Decode.eq_some_iff_of_optional {name : String} {found : Option Value} {e : Value}
    (h : Decode.optional part name asIs = .ok found) :
    found = some e ↔ Entries.get? name part = some e ∧ e ≠ .null := by
  unfold Decode.optional at h
  split at h
  · rename_i hnone
    cases h
    simp [hnone]
  · rename_i hnull
    cases h
    refine iff_of_false nofun ?_
    rintro ⟨he, hne⟩
    rw [hnull, Option.some.injEq] at he
    exact hne he.symm
  · rename_i v hne hv
    cases h
    rw [hv, Option.some.injEq]
    exact ⟨fun heq => ⟨heq, heq ▸ hne⟩, And.left⟩

/-- An assertion about a variable has its path and its expected value from the document. -/
theorem Assertion.exists_variable_of_decode {a : Assertion}
    (htype : Entries.get? "type" part = some (.text "variable"))
    (h : Assertion.decode (.map part) = .ok a) :
    ∃ path expected, a.check = .variable path expected ∧
      Entries.get? "path" part = some (.text path) ∧
      ∀ e, expected = some e ↔ Entries.get? "equals" part = some e ∧ e ≠ .null := by
  have hkind : Assertion.decodeKind "variable" (.map part) = .ok a := by
    rw [Assertion.decode, tagged_eq_ok htype (by decide)] at h
    exact h
  simp only [Assertion.decodeKind, record_bind, bind_eq_ok_iff] at hkind
  obtain ⟨_, -, path, hpath, expected, hexpected, hkind⟩ := hkind
  cases hkind
  exact ⟨path, expected, rfl, get?_of_required hpath, fun _ => eq_some_iff_of_optional hexpected⟩

theorem Decode.exists_getElem?_of_items {α : Type} {read : Value → Decoded α} {vs : List Value}
    {as : List α} {v : Value} (h : items read vs = .ok as) (hv : vs[i]? = some v) :
    ∃ a, as[i]? = some a ∧ read v = .ok a := by
  rw [items_eq_ok_iff] at h
  induction h generalizing i with
  | nil => cases hv
  | cons hfirst _ ih =>
    cases i with
    | zero =>
      cases hv
      exact ⟨_, rfl, hfirst⟩
    | succ i => exact ih hv

/-- The assertions of a definition are read from those of its document, place by place. -/
theorem Definition.exists_assertion_of_parse {v item : Value} {items : List Value}
    (h : Validation.parse v = .ok d) (hitems : v.field? "assertions" = some (.list items))
    (hitem : items[i]? = some item) :
    ∃ a, d.assertions[i]? = some a ∧ Assertion.decode item = .ok a := by
  obtain ⟨hvalid, hdecode⟩ := Validation.parse_eq_ok_iff.1 h
  obtain ⟨root, rfl, -⟩ := Validation.faultless_of_validate hvalid
  have hread := (Definition.readFrom_of_decode hdecode).assertions
  rw [defaulted, show Entries.get? "assertions" root = some (.list items) from hitems] at hread
  exact exists_getElem?_of_items hread hitem

/-! ## The comparison -/

/-- Something is bound at the path, and it is as expected; null expects nothing. -/
def MeetsExpectation (b : Bindings) (path : String) (expected : Option Value) : Prop :=
  ∃ found, b.lookup? path = some found ∧
    ∀ e, expected = some e → e = .null ∨ found.isAsExpected (Template.resolve b e) = true

theorem checkVariable_eq_none_iff {expected : Option Value} :
    checkVariable b path expected = none ↔ ∃ found, b.lookup? path = some found ∧
      ∀ e, expected = some e → found.isAsExpected (Template.resolve b e) = true := by
  unfold checkVariable
  cases b.lookup? path with
  | none => simp
  | some found => cases expected <;> simp

/-! ## The whole way -/

/-- **Which expectations are compared.**  An assertion about a variable passes, whatever has been
bound and whatever the system is, exactly if something is bound at its path that is as expected; and
so does its verdict among all assertions of the document.  Of the values that can be expected only
null is not compared. -/
theorem passes_variable_iff {v : Value} {items : List Value} (h : Validation.parse v = .ok d)
    (hitems : v.field? "assertions" = some (.list items)) (hpart : items[i]? = some (.map part))
    (htype : Entries.get? "type" part = some (.text "variable")) :
    ∃ a path, d.assertions[i]? = some a ∧ Entries.get? "path" part = some (.text path) ∧
      ∀ {σ : Type} (r : Runner σ) (b : Bindings) (s : σ),
        ((r.checkOne b a.check s).1 = none ↔
          MeetsExpectation b path (Entries.get? "equals" part)) ∧
        ((r.verdicts b d.assertions s)[i]? = some none ↔
          MeetsExpectation b path (Entries.get? "equals" part)) := by
  obtain ⟨a, ha, hdecode⟩ := Definition.exists_assertion_of_parse h hitems hpart
  obtain ⟨path, expected, hcheck, hpath, hexpected⟩ :=
    Assertion.exists_variable_of_decode htype hdecode
  refine ⟨a, path, ha, hpath, fun r b s => ?_⟩
  have hone (t) : (r.checkOne b a.check t).1 = none ↔
      MeetsExpectation b path (Entries.get? "equals" part) := by
    rw [hcheck, Runner.checkOne, checkVariable_eq_none_iff]
    refine exists_congr fun found => and_congr_right fun _ => forall_congr' fun e => ?_
    rw [hexpected]
    tauto
  rw [r.getElem?_verdicts, ha, Option.map_some, Option.some.injEq]
  exact ⟨hone s, hone _⟩

/-- A pause of five milliseconds, and what is expected of how long it was. -/
def pausedDocument (expected : Value) : Value :=
  .map [("id", .text "paused"), ("title", .text "A short pause"),
    ("context", .map [("organization_id", .text "salon")]),
    ("personas", .map [("clerk", .map [("role", .text "clerk")])]),
    ("steps", .list [.map [("id", .text "rest"), ("persona", .text "clerk"),
      ("actions", .list [.map [("type", .text "wait"), ("duration_ms", .ofNat 5),
        ("store_as", .text "pause")]])]]),
    ("assertions", .list [.map [("type", .text "variable"), ("path", .text "pause.waited_ms"),
      ("equals", expected)]])]

/-- The definition of it. -/
def pausedDefinition (expected : Option Value) : Definition where
  version := "1.0"
  id := "paused"
  title := "A short pause"
  industry := "general"
  description := none
  setting := ⟨none, "salon", "USD", "en-US", none, none⟩
  personas := [("clerk", ⟨"clerk", []⟩)]
  setup := []
  steps := [⟨"rest", "", "clerk", [⟨.wait 5, none, some "pause", none⟩], [], [],
    Step.defaultTimeout, 0⟩]
  cleanup := []
  assertions := [⟨none, .variable "pause.waited_ms" expected⟩]
  metadata := .default
  policy := .default

/-- A pause that was as long as expected. -/
theorem passes_pausedDocument :
    Validation.parse (pausedDocument (.ofNat 5)) = .ok (pausedDefinition (some (.ofNat 5))) ∧
      ((⟨Simulation.backend, false, none⟩ : Runner Simulation).verdicts afterPause
        (pausedDefinition (some (.ofNat 5))).assertions (.ofLatency 3))[0]? = some none := by
  have hparse : Validation.parse (pausedDocument (.ofNat 5)) =
      .ok (pausedDefinition (some (.ofNat 5))) := by decide +kernel
  obtain ⟨a, path, -, hpath, hpasses⟩ := passes_variable_iff hparse rfl List.getElem?_cons_zero rfl
  obtain rfl : "pause.waited_ms" = path := by cases hpath; rfl
  refine ⟨hparse, (hpasses _ _ _).2.2 ⟨.ofNat 5, by decide +kernel, fun e he => .inr ?_⟩⟩
  cases he
  decide +kernel

/-- A document that expects null has a run without errors in which there is another value. -/
theorem not_compared_null :
    let d := pausedDefinition none
    let b := (d.stepsRun Simulation.backend ⟨false, false, none⟩ "2026-01-31T09:00:00Z"
      (.ofLatency 3)).bindings
    Validation.parse (pausedDocument .null) = .ok d ∧
      (d.run Simulation.backend ⟨false, false, none⟩ "2026-01-31T09:00:00Z"
        (.ofLatency 3)).report.errors = [] ∧
      b.lookup? "pause.waited_ms" = some (.ofNat 5) ∧
      (Value.ofNat 5).isAsExpected (Template.resolve b .null) = false := by
  decide +kernel

end ProcessTest
