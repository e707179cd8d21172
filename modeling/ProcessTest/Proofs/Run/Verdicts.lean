import ProcessTest.Proofs.Run.Phases

/-!
# When assertions fail

A check of the database fails for a query that fails, and for another number of records; a check of
a rule, for a rule that cannot be filled, that cannot be decided, or that is not met; a check of a
variable, for a path with nothing at it, and for another value.  The check of a page never fails,
which says nothing of the page.

* `Check.Fails` — when and why a check fails.
* `Runner.checkOne_eq_some_iff` — that it is what a run finds.
* `Runner.getElem?_verdicts_eq_some_iff` — the verdicts on assertions, each in the state in which
  the ones in front of it leave the system.
* `Runner.mem_verdictErrors_iff` — the errors that are made of them.
-/

set_option autoImplicit false

namespace ProcessTest

variable {σ : Type}

/-- Why a check fails, with given bindings and the system in a given state. -/
inductive Check.Fails (backend : Backend σ) (b : Bindings) (s : σ) :
    Check → AssertionError → Prop
  | query {table : String} {conditions : Entries} {expected : Nat} {message : String}
      (h : (backend.query table (Template.resolveEntries b conditions) s).1 = .error message) :
      Fails backend b s (.database table conditions expected) (.query message)
  | count {table : String} {conditions : Entries} {expected : Nat} {records : List Value}
      (h : (backend.query table (Template.resolveEntries b conditions) s).1 = .ok records)
      (hcount : records.length ≠ expected) :
      Fails backend b s (.database table conditions expected)
        (.count expected table records.length)
  | malformed {rule : Rule} {cause : DecodeError} (h : rule.resolve b = .error cause) :
      Fails backend b s (.rule rule) (.malformed cause)
  | undecided {rule filled : Rule} {cause : Rule.Error} (h : rule.resolve b = .ok filled)
      (hcause : filled.evaluate = .error cause) : Fails backend b s (.rule rule) (.rule cause)
  | unmet {rule filled : Rule} {verdict : Rule.Verdict} (h : rule.resolve b = .ok filled)
      (hverdict : filled.evaluate = .ok verdict) (hunmet : verdict.passed = false) :
      Fails backend b s (.rule rule) (.unmet verdict.explanation)
  | unset {path : String} {expected : Option Value} (h : b.lookup? path = none) :
      Fails backend b s (.variable path expected) (.unset path)
  | differs {path : String} {expected found : Value} (h : b.lookup? path = some found)
      (hdiffers : found.isAsExpected (Template.resolve b expected) = false) :
      Fails backend b s (.variable path (some expected))
        (.differs path found (Template.resolve b expected))

/-! ## One check -/

variable {backend : Backend σ} {b : Bindings} {s : σ} {cause : AssertionError}

theorem checkWith_eq_some_iff {rule : Rule} :
    rule.checkWith b = some cause ↔ (Check.rule rule).Fails backend b s cause := by
  unfold Rule.checkWith
  constructor
  · intro h
    split at h
    · rename_i hfill
      cases h
      exact .malformed hfill
    · rename_i filled hfill
      split at h
      · rename_i hcause
        cases h
        exact .undecided hfill hcause
      · rename_i verdict hverdict
        split at h
        · cases h
        · rename_i hunmet
          cases h
          exact .unmet hfill hverdict (Bool.eq_false_iff.2 hunmet)
  · rintro (_ | _ | hfill | ⟨hfill, hcause⟩ | ⟨hfill, hverdict, hunmet⟩)
    · simp only [hfill]
    · simp only [hfill, hcause]
    · simp only [hfill, hverdict, hunmet, Bool.false_eq_true, if_false]

theorem checkVariable_eq_some_iff {path : String} {expected : Option Value} :
    checkVariable b path expected = some cause ↔
      (Check.variable path expected).Fails backend b s cause := by
  unfold checkVariable
  constructor
  · intro h
    split at h
    · rename_i hfound
      cases h
      exact .unset hfound
    · rename_i found hfound
      cases expected with
      | none => cases h
      | some expected =>
        simp only at h
        split at h
        · cases h
        · rename_i hdiffers
          cases h
          exact .differs hfound (Bool.eq_false_iff.2 hdiffers)
  · rintro (_ | _ | _ | _ | _ | hfound | ⟨hfound, hdiffers⟩)
    · simp only [hfound]
    · simp only [hfound, hdiffers, Bool.false_eq_true, if_false]

/-- **When and why a check fails.** -/
theorem Runner.checkOne_eq_some_iff (r : Runner σ) {check : Check} :
    (r.checkOne b check s).1 = some cause ↔ check.Fails r.backend b s cause := by
  cases check with
  | database table conditions expected =>
    unfold checkOne
    simp only
    rcases hquery : r.backend.query table (Template.resolveEntries b conditions) s with
      ⟨message | records, s'⟩
    · constructor
      · intro h
        cases h
        exact .query (congrArg Prod.fst hquery)
      · rintro (h | h)
        · rw [hquery] at h
          cases h
          rfl
        · rw [hquery] at h
          cases h
    · simp only
      constructor
      · intro h
        split at h
        · cases h
        · rename_i hcount
          cases h
          exact .count (congrArg Prod.fst hquery) hcount
      · rintro (h | ⟨h, hcount⟩)
        · rw [hquery] at h
          cases h
        · rw [hquery] at h
          cases h
          rw [if_neg hcount]
  | page checks => exact iff_of_false nofun nofun
  | rule rule => exact checkWith_eq_some_iff
  | «variable» path expected => exact checkVariable_eq_some_iff

namespace Runner

/-! ## All assertions -/

/-- The system after assertions have been checked. -/
def afterAll (r : Runner σ) (b : Bindings) (assertions : List Assertion) (s : σ) : σ :=
  assertions.foldl (fun s a => (r.checkOne b a.check s).2) s

theorem getElem?_verdicts (r : Runner σ) (b : Bindings) (assertions : List Assertion) (i : Nat)
    (s : σ) : (r.verdicts b assertions s)[i]? = assertions[i]?.map fun a =>
      (r.checkOne b a.check (r.afterAll b (assertions.take i) s)).1 := by
  induction assertions generalizing i s with
  | nil => rfl
  | cons first rest ih =>
    cases i with
    | zero => rfl
    | succ i => exact ih i (r.checkOne b first.check s).2

/-- The verdict on an assertion is a failure exactly if its check fails. -/
theorem getElem?_verdicts_eq_some_iff (r : Runner σ) {assertions : List Assertion} {i : Nat} :
    (r.verdicts b assertions s)[i]? = some (some cause) ↔ ∃ a, assertions[i]? = some a ∧
      a.check.Fails r.backend b (r.afterAll b (assertions.take i) s) cause := by
  rw [getElem?_verdicts, Option.map_eq_some_iff]
  exact exists_congr fun a => and_congr_right fun _ => r.checkOne_eq_some_iff

theorem mem_verdictErrors_iff {assertions : List Assertion}
    {verdicts : List (Option AssertionError)} {i : Nat} {label : String} :
    RunError.assertion i label cause ∈ verdictErrors 0 assertions verdicts ↔
      ∃ a, assertions[i]? = some a ∧ a.label = label ∧ verdicts[i]? = some (some cause) := by
  unfold verdictErrors
  rw [List.mem_filterMap]
  constructor
  · rintro ⟨⟨⟨a, verdict⟩, j⟩, hmem, herror⟩
    obtain ⟨cause', rfl, heq⟩ := Option.map_eq_some_iff.1 herror
    cases heq
    obtain ⟨ha, hverdict⟩ := List.getElem?_zip_eq_some.1 (List.mem_zipIdx_iff_getElem?.1 hmem)
    exact ⟨a, ha, rfl, hverdict⟩
  · rintro ⟨a, ha, rfl, hverdict⟩
    refine ⟨((a, some cause), i), List.mem_zipIdx_iff_getElem?.2 ?_, rfl⟩
    exact List.getElem?_zip_eq_some.2 ⟨ha, hverdict⟩

end Runner

end ProcessTest
