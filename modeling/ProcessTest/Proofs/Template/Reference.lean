import ProcessTest.Proofs.Artifact.Settled
import ProcessTest.Proofs.Validation.Names

/-!
# References to declared names

A name that a document may declare is not always one that a placeholder can name.  Placeholders
end at the first closing mark, their keys are trimmed, and `clock` behind which a shift stands is
no name; the validator asks for none of this.

* `reference` — the placeholder of a name, and nothing else.
* `IsReferable` — what a name needs for its placeholder to stand for it.
* `value_reference` — a name of that form is found by its placeholder.
* `isReferable_of_value` — a name that its placeholder finds is of that form.
* `resolve_reference_iff` — the declared names that can be referred to.
-/

set_option autoImplicit false

namespace ProcessTest

/-! ## Marks -/

instance (a : Char) (cs : List Char) : Decidable (Text.Single a cs) :=
  decidable_of_iff _ Text.holds_eq_false_iff

/-! ## Seeded texts -/

/-- A run starts with nothing but texts bound. -/
theorem Bindings.exists_text_of_get?_seeded {setting : Setting} {now name : String} {v : Value}
    (h : (seeded setting now).get? name = some v) : ∃ s, v = .text s := by
  have hmem := mem_entries_iff.2 h
  unfold seeded ofSetting at hmem
  rw [← bindAll_singleton, ← bindAll_append] at hmem
  have htexts := mem_of_mem_bindAll_empty hmem
  cases hclock : setting.clock <;> cases htenant : setting.tenant
  all_goals
    simp only [hclock, htenant, List.cons_append, List.nil_append, List.mem_cons, Prod.mk.injEq,
      List.not_mem_nil, or_false] at htexts
    grind

namespace Template

open Text (Single)

variable {b : Bindings} {n : String} {w : Value} {key : List Char}

/-! ## Placeholders of names -/

/-- The placeholder of a name. -/
def reference (n : String) : String := "\x7b\x7b" ++ n ++ "\x7d\x7d"

theorem toList_reference (n : String) :
    (reference n).toList = '{' :: '{' :: n.toList ++ ['}', '}'] := by
  simp [reference]

theorem sole?_reference : sole? (reference n) = some key ↔
    Single '{' n.toList ∧ Single '}' n.toList ∧ key = Text.trim n.toList := by
  rw [sole?_eq_some_iff, toList_reference]
  constructor
  · rintro ⟨inner, h, hopen, hclose, hkey⟩
    obtain rfl : n.toList = inner := by simpa using h
    exact ⟨hopen, hclose, hkey⟩
  · rintro ⟨hopen, hclose, hkey⟩
    exact ⟨n.toList, rfl, hopen, hclose, hkey⟩

/-- The key of its placeholder is the name itself: there are no marks in it and no blanks around
it, and it is no shifted clock. -/
structure IsReferable (n : String) : Prop where
  opening : Single '{' n.toList
  closing : Single '}' n.toList
  trimmed : Text.trim n.toList = n.toList
  unshifted : clockShift? n.toList = none

instance (n : String) : Decidable (IsReferable n) :=
  decidable_of_iff (Single '{' n.toList ∧ Single '}' n.toList ∧
      Text.trim n.toList = n.toList ∧ clockShift? n.toList = none)
    ⟨fun ⟨hopen, hclose, htrim, hshift⟩ => ⟨hopen, hclose, htrim, hshift⟩,
      fun h => ⟨h.opening, h.closing, h.trimmed, h.unshifted⟩⟩

theorem value_reference (h : IsReferable n) (hpoint : '.' ∉ n.toList) (hw : b.get? n = some w) :
    value (reference n) b = w := by
  have hsole : sole? (reference n) = some n.toList :=
    sole?_reference.2 ⟨h.opening, h.closing, h.trimmed.symm⟩
  have hlookup : lookup? b n.toList = some w := by
    rw [lookup?_eq_get? hpoint h.unshifted, String.ofList_toList]
    exact hw
  refine value_of_sole ?_
  rw [hsole]
  exact hlookup

/-- A shifted clock is a text. -/
theorem clockShift?_of_lookup? (h : lookup? b key = some w) (hw : ∀ s, w ≠ .text s) :
    clockShift? key = none := by
  unfold lookup? at h
  split at h
  · simp only [Option.bind_eq_bind, Option.bind_eq_some_iff, Option.map_eq_some_iff] at h
    obtain ⟨_, -, _, -, s, -, rfl⟩ := h
    exact absurd rfl (hw s)
  · rename_i hshift
    exact hshift

/-- If nothing but the name has a value that is no text, then only a placeholder that names it
comes to one. -/
theorem isReferable_of_value (hpoint : '.' ∉ n.toList) (hw : ∀ s, w ≠ .text s)
    (hb : ∀ name, b.get? name = some w → name = n) (h : value (reference n) b = w) :
    IsReferable n := by
  obtain ⟨key, hsole, hlookup⟩ : ∃ key, sole? (reference n) = some key ∧
      lookup? b key = some w := by
    cases hkey : (sole? (reference n)).bind (lookup? b) with
    | none =>
      rw [value_of_no_sole hkey] at h
      exact absurd h.symm (hw _)
    | some v =>
      rw [value_of_sole hkey] at h
      exact Option.bind_eq_some_iff.1 (h ▸ hkey)
  obtain ⟨hopen, hclose, rfl⟩ := sole?_reference.1 hsole
  have hshift := clockShift?_of_lookup? hlookup hw
  rw [lookup?_eq_get? (fun hmem => hpoint (Text.mem_of_mem_trim hmem)) hshift] at hlookup
  have htrim : Text.trim n.toList = n.toList := by
    have hname := congrArg String.toList (hb _ hlookup)
    rwa [String.toList_ofList] at hname
  exact ⟨hopen, hclose, htrim, htrim ▸ hshift⟩

/-! ## Declared names -/

/-- **The declared names that can be referred to** are those of one form: whatever a run that goes
on from the setting has bound a name to, its placeholder comes to that value, exactly if the name
is referable. -/
theorem resolve_reference_iff {v : Value} {d : Definition} (h : Validation.parse v = .ok d)
    (hn : n ∈ d.names) :
    (∀ (now : String) (b : Bindings) (w : Value),
      (Bindings.seeded d.setting now).entries <+: b.entries → b.get? n = some w →
        resolve b (.text (reference n)) = w) ↔ IsReferable n := by
  obtain ⟨hpoint, hseeded⟩ := (Validation.wellNamed_of_parse h).proper n hn
  constructor
  · intro hall
    -- Next to the texts of the setting, null is the value of nothing but the name.
    have hfree : n ∉ (Bindings.seeded d.setting "").names :=
      fun hmem => hseeded (Bindings.mem_seededNames_of_mem_seeded hmem)
    have hentries := Bindings.entries_bind_of_not_mem (v := .null) hfree
    refine isReferable_of_value (w := .null) hpoint nofun (fun name hname => ?_)
      (hall "" ((Bindings.seeded d.setting "").bind n .null) .null Bindings.entries_prefix_bind ?_)
    · have hmem := Bindings.mem_entries_iff.2 hname
      rw [hentries] at hmem
      rcases List.mem_append.1 hmem with hmem | hmem
      · obtain ⟨s, hs⟩ := Bindings.exists_text_of_get?_seeded (Bindings.mem_entries_iff.1 hmem)
        cases hs
      · cases List.mem_singleton.1 hmem
        rfl
    · rw [← Bindings.mem_entries_iff, hentries]
      exact List.mem_append_right _ (List.mem_singleton.2 rfl)
  · intro hreferable now b w _ hw
    exact value_reference hreferable hpoint hw

/-- A shift has breaks; their outputs are kept under names that the validator takes. -/
def breaksDocument : Value :=
  let pause (name : String) : Value := .map [("type", .text "wait"),
    ("duration_ms", .number (.int 1)), ("store_as", .text name)]
  .map [("id", .text "breaks"), ("title", .text "Breaks of a shift"),
    ("context", .map [("organization_id", .text "salon")]),
    ("personas", .map [("clerk", .map [("role", .text "clerk")])]),
    ("steps", .list [.map [("id", .text "shift"), ("persona", .text "clerk"),
      ("actions", .list [pause "lunch", pause "tea ", pause "clock+1", pause "\x7b\x7bcake",
        pause "a\x7d\x7dz"])]])]

theorem exists_resolve_reference_breaksDocument :
    ∃ d, Validation.parse breaksDocument = .ok d ∧
      (∀ (now : String) (b : Bindings) (w : Value),
        (Bindings.seeded d.setting now).entries <+: b.entries → b.get? "lunch" = some w →
          resolve b (.text (reference "lunch")) = w) ∧
      ∀ n ∈ ["tea ", "clock+1", "\x7b\x7bcake", "a\x7d\x7dz"], n ∈ d.names ∧
        ¬ ∀ (now : String) (b : Bindings) (w : Value),
          (Bindings.seeded d.setting now).entries <+: b.entries → b.get? n = some w →
            resolve b (.text (reference n)) = w := by
  have hnames : (Validation.parse breaksDocument).toOption.map Definition.names =
      some ["lunch", "tea ", "clock+1", "\x7b\x7bcake", "a\x7d\x7dz", "shift"] := by
    decide +kernel
  cases h : Validation.parse breaksDocument with
  | error e =>
    rw [h] at hnames
    cases hnames
  | ok d =>
    rw [h] at hnames
    have hnames := Option.some.inj hnames
    refine ⟨d, rfl, ?_, fun n hn => ?_⟩
    · exact (resolve_reference_iff h (by simp [hnames])).2 (by decide +kernel)
    · have hmem : n ∈ d.names := by
        rw [hnames]
        exact List.mem_cons_of_mem _ (List.mem_append_left ["shift"] hn)
      refine ⟨hmem, ?_⟩
      rw [resolve_reference_iff h hmem]
      have hnone : ∀ n ∈ ["tea ", "clock+1", "\x7b\x7bcake", "a\x7d\x7dz"], ¬ IsReferable n := by
        decide +kernel
      exact hnone n hn

/-- The output of a break is bound, and yet its placeholder stays as it is. -/
theorem exists_unreferable_name :
    ∃ d, Validation.parse breaksDocument = .ok d ∧ ∃ n ∈ d.names, ∃ b : Bindings,
      (Bindings.seeded d.setting "2026-01-31T09:00:00Z").entries <+: b.entries ∧
        b.get? n = some (.map [("waited_ms", .ofNat 1)]) ∧
        resolve b (.text (reference n)) = .text (reference n) := by
  have hrun : (match Validation.parse breaksDocument with
      | .ok d =>
        let b := (Bindings.seeded d.setting "2026-01-31T09:00:00Z").bind "tea "
          (.map [("waited_ms", .ofNat 1)])
        decide ("tea " ∈ d.names) &&
          decide (b.get? "tea " = some (.map [("waited_ms", .ofNat 1)])) &&
          decide (resolve b (.text (reference "tea ")) = .text (reference "tea "))
      | .error _ => false) = true := by decide +kernel
  cases h : Validation.parse breaksDocument with
  | error e =>
    rw [h] at hrun
    cases hrun
  | ok d =>
    simp only [h, Bool.and_eq_true, decide_eq_true_eq] at hrun
    obtain ⟨⟨hname, hget⟩, hresolve⟩ := hrun
    exact ⟨d, rfl, "tea ", hname, _, Bindings.entries_prefix_bind, hget, hresolve⟩

end Template

end ProcessTest
