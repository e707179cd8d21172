import ProcessTest.Proofs.Decoding.Parts
import ProcessTest.Proofs.Validation.Faultless

/-!
# The names of a definition

A document without faults declares no name twice: neither for two outputs, nor for two steps, nor
for a step and an output.  None of its names is seeded, and none has a point in it.

* `Definition.names` — the names that a definition declares, in the order in which a run binds
  them.
* `Claimed` — names have been claimed one after the other; `Claimed.append` joins what two checks
  have claimed.
* `wellNamed_of_parse` — the names of a definition that was parsed.
-/

set_option autoImplicit false

namespace ProcessTest

/-- The names under which actions keep their outputs. -/
def storeNames (actions : List Action) : List String := actions.flatMap fun a => a.storeAs.toList

/-- The names that a step declares: those of its actions, and its own. -/
def Step.names (step : Step) : List String := storeNames step.actions ++ [step.id]

/-- The names that a definition declares. -/
def Definition.names (d : Definition) : List String :=
  storeNames d.setup ++ d.steps.flatMap Step.names ++ storeNames d.cleanup

/-- A name that a document may declare. -/
def IsProperName (name : String) : Prop := '.' ∉ name.toList ∧ name ∉ Bindings.seededNames

/-- No name is declared twice, and all of them are proper. -/
structure Definition.WellNamed (d : Definition) : Prop where
  distinct : d.names.Nodup
  proper : ∀ name ∈ d.names, IsProperName name

namespace Validation

open Decode

/-! ## Claiming names -/

/-- New names have been claimed on top of those claimed before. -/
structure Claimed (before new after : List String) : Prop where
  perm : after.Perm (new ++ before)
  distinct : before.Nodup → after.Nodup
  proper : ∀ name ∈ new, IsProperName name

namespace Claimed

variable {before middle after new more : List String}

theorem nil (names : List String) : Claimed names [] names :=
  ⟨List.Perm.refl _, id, fun _ h => absurd h (List.not_mem_nil)⟩

theorem append (h : Claimed before new middle) (h' : Claimed middle more after) :
    Claimed before (new ++ more) after := by
  refine ⟨?_, fun hd => h'.distinct (h.distinct hd), ?_⟩
  · calc
      after.Perm (more ++ middle) := h'.perm
      _ |>.Perm (more ++ (new ++ before)) := h.perm.append_left more
      _ |>.Perm ((new ++ more) ++ before) := by
        rw [← List.append_assoc]
        exact List.perm_append_comm.append_right before
  · intro name hname
    rcases List.mem_append.1 hname with hname | hname
    · exact h.proper name hname
    · exact h'.proper name hname

theorem of_perm (h : Claimed before new after) (hp : new.Perm more) :
    Claimed before more after := by
  refine ⟨h.perm.trans (hp.append_right before), h.distinct, ?_⟩
  intro name hname
  exact h.proper name (hp.mem_iff.2 hname)

end Claimed

/-- A claim without a fault has claimed the text of the field. -/
theorem claimed_of_claim {path field what : String} {part : Entries} {names : List String}
    {name : String} (h : (claim path part field what names).1 = [])
    (hname : Entries.get? field part = some (.text name)) :
    Claimed names [name] (claim path part field what names).2 := by
  unfold claim at h ⊢
  simp only [hname] at h ⊢
  split at h
  · cases h
  · rename_i hdot
    split at h
    · cases h
    · rename_i hseeded
      split at h
      · cases h
      · rename_i htaken
        rw [if_neg hdot, if_neg hseeded, if_neg htaken]
        refine ⟨List.Perm.refl _, ?_, ?_⟩
        · intro hd
          exact List.nodup_cons.2 ⟨by simpa using htaken, hd⟩
        · intro other hother
          obtain rfl := List.mem_singleton.1 hother
          exact ⟨by simpa using hdot, by simpa using hseeded⟩

/-- The same for a field that may be missing. -/
theorem claimed_of_claim_optional {path field what : String} {part : Entries}
    {names : List String} {name : Option String}
    (h : (claim path part field what names).1 = [])
    (hread : Decode.optional part field asText = .ok name) :
    Claimed names name.toList (claim path part field what names).2 := by
  unfold Decode.optional at hread
  split at hread
  · rename_i hg
    cases hread
    unfold claim
    simp only [hg]
    exact .nil names
  · rename_i hg
    cases hread
    unfold claim
    simp only [hg]
    exact .nil names
  · rename_i v _ hg
    cases v with
    | text s =>
      cases hread
      exact claimed_of_claim h hg
    | _ => cases hread

/-- What a check claims item by item, it claims of the whole list. -/
theorem claimed_of_checkEach {α : Type} {check : String → List String → Value → Checked}
    {read : Value → Decoded α} {namesOf : α → List String}
    (hcheck : ∀ path names v a, (check path names v).1 = [] → read v = .ok a →
      Claimed names (namesOf a) (check path names v).2)
    {path : String} {index : Nat} {names : List String} {vs : List Value} {as : List α}
    (h : (checkEach check path index names vs).1 = []) (hread : items read vs = .ok as) :
    Claimed names (as.flatMap namesOf) (checkEach check path index names vs).2 := by
  rw [items_eq_ok_iff] at hread
  induction hread generalizing index names with
  | nil => exact .nil names
  | cons ha _ ih =>
    obtain ⟨hv, hrest⟩ := List.append_eq_nil_iff.1 h
    have hfirst := hcheck _ _ _ _ hv ha
    exact hfirst.append (ih hrest)

/-! ## Actions and steps -/

theorem claimed_of_checkAction {personas : List String} (path : String) (names : List String)
    (v : Value) (a : Action) (h : (checkAction personas path names v).1 = [])
    (hread : Action.decode v = .ok a) :
    Claimed names a.storeAs.toList (checkAction personas path names v).2 := by
  obtain ⟨part, kind, fields, rfl, hpart, hnames⟩ := faultless_of_checkAction h
  rw [hnames]
  exact claimed_of_claim_optional hpart.claimed (Action.readFrom_of_decode hread).storeAs

/-- The actions in a field, if there is one, claim the names of their outputs. -/
theorem claimed_of_checkActions {personas : List String} {path field : String}
    {names : List String} {part : Entries} {actions : List Action}
    (h : (checkActions personas path field names part).1 = [])
    (hread : defaulted part field [] (asList Action.decode) = .ok actions) :
    Claimed names (storeNames actions) (checkActions personas path field names part).2 := by
  unfold defaulted at hread
  unfold checkActions at h ⊢
  split at hread
  · rename_i v hg
    cases v with
    | list vs =>
      simp only [hg] at h ⊢
      exact claimed_of_checkEach claimed_of_checkAction h hread
    | _ => cases hread
  · rename_i hg
    cases hread
    simp only [hg]
    exact .nil names

theorem defaulted_of_required {α : Type} {part : Entries} {field : String} {default a : α}
    {read : Value → Decoded α} (h : required part field read = .ok a) :
    defaulted part field default read = .ok a := by
  unfold required at h
  unfold defaulted
  cases hg : Entries.get? field part with
  | none =>
    rw [hg] at h
    cases h
  | some v =>
    rw [hg] at h
    exact h

theorem claimed_of_checkStep {personas : List String} (path : String) (names : List String)
    (v : Value) (step : Step) (h : (checkStep personas path names v).1 = [])
    (hread : Step.decode v = .ok step) :
    Claimed names step.names (checkStep personas path names v).2 := by
  obtain ⟨part, rfl, hpart, hnames⟩ := faultless_of_checkStep h
  have hstep := Step.readFrom_of_decode hread
  have hid : Entries.get? "id" part = some (.text step.id) := by
    have hid := hstep.id
    unfold required at hid
    split at hid
    · rename_i v hg
      cases v with
      | text s => cases hid; exact hg
      | _ => cases hid
    · cases hid
  rw [hnames]
  have hfirst := claimed_of_claim hpart.claimed hid
  have hrest := claimed_of_checkActions hpart.actions (defaulted_of_required hstep.actions)
  exact (hfirst.append hrest).of_perm List.perm_append_comm

theorem claimed_of_checkSteps {personas names : List String} {root : Entries} {steps : List Step}
    (h : (checkSteps personas names root).1 = [])
    (hread : required root "steps" (asList Step.decode) = .ok steps) :
    Claimed names (steps.flatMap Step.names) (checkSteps personas names root).2 := by
  unfold required at hread
  unfold checkSteps at h ⊢
  split at hread
  · rename_i v hg
    cases v with
    | list vs =>
      cases vs with
      | nil => simp [hg] at h
      | cons v rest =>
        simp only [hg] at h ⊢
        exact claimed_of_checkEach claimed_of_checkStep h hread
    | _ => cases hread
  · cases hread

/-! ## Documents -/

/-- **The names of a definition that was parsed** are proper and declared once. -/
theorem wellNamed_of_parse {v : Value} {d : Definition} (h : parse v = .ok d) : d.WellNamed := by
  obtain ⟨hfaults, hread⟩ := parse_eq_ok_iff.1 h
  obtain ⟨root, rfl, hroot⟩ := faultless_of_validate hfaults
  have hd := Definition.readFrom_of_decode hread
  have hsetup := claimed_of_checkActions hroot.setup hd.setup
  have hsteps := claimed_of_checkSteps hroot.steps hd.steps
  have hcleanup := claimed_of_checkActions hroot.cleanup hd.cleanup
  have hall := (hsetup.append hsteps).append hcleanup
  refine ⟨?_, hall.proper⟩
  have hperm := hall.perm
  rw [List.append_nil] at hperm
  exact hperm.nodup_iff.1 (hall.distinct List.nodup_nil)

end Validation

end ProcessTest
