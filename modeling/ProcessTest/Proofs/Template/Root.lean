import ProcessTest.Proofs.Template.Keys
import ProcessTest.Proofs.Text.Cut

/-!
# The name that a key depends on

A key that shifts the clock looks at `clock` only, and any other key at the name of its first
segment.  `rootName` reads the shift off the first segment, the look-up off the whole key; so the
two part where segments follow a first one that reads as a shifted clock.

* `DependsOn` — bindings that agree on a name agree on what a key names.
* `dependsOn_clock`, `dependsOn_first` — the name that the look-up of a key depends on.
* `not_dependsOn_of_point` — a key with segments does not depend on `clock` alone if its first
  one is another name.
* `dependsOn_rootName_iff` — the keys that depend on their root name only.
* `not_dependsOn_outputOfBreak` — a key that does not.
-/

set_option autoImplicit false

namespace ProcessTest.Template

variable {b c : Bindings} {key : List Char} {name : String} {z : Int}

/-- The segment of a key in front of its first point. -/
def first (key : List Char) : List Char := key.takeWhile (· != '.')

/-- What the key names is the same in all bindings that give the name the same value, or that
both leave it free. -/
def DependsOn (key : List Char) (name : String) : Prop :=
  ∀ b c : Bindings, b.get? name = c.get? name → lookup? b key = lookup? c key

/-! ## What a look-up depends on -/

theorem exists_splitAt_first (key : List Char) :
    ∃ rest, Text.splitAt '.' key = first key :: rest := by
  induction key with
  | nil => exact ⟨[], rfl⟩
  | cons c key ih =>
    obtain ⟨rest, hrest⟩ := ih
    unfold first at hrest ⊢
    rw [Text.splitAt]
    split
    · rename_i hc
      exact ⟨Text.splitAt '.' key, by simp [hc]⟩
    · rename_i hc
      rw [hrest]
      exact ⟨rest, by simp [hc]⟩

theorem first_eq_self (h : '.' ∉ key) : first key = key :=
  List.takeWhile_eq_self_iff.2 fun _ hc => bne_iff_ne.2 fun heq => h (heq ▸ hc)

/-- A shifted clock depends on `clock`. -/
theorem dependsOn_clock (h : clockShift? key = some z) : DependsOn key "clock" := by
  intro b c hagree
  unfold lookup?
  rw [h]
  simp only [hagree]

/-- Every other key depends on its first segment. -/
theorem dependsOn_first (h : clockShift? key = none) :
    DependsOn key (String.ofList (first key)) := by
  intro b c hagree
  obtain ⟨rest, hsplit⟩ := exists_splitAt_first key
  unfold lookup? Bindings.lookup?
  rw [h, String.toList_ofList, hsplit]
  simp only [hagree]

/-! ## Keys with segments -/

/-- A value with something at a path. -/
def nested : List (List Char) → Value
  | [] => .null
  | segment :: rest => .map [(String.ofList segment, nested rest)]

theorem descend?_nested (path : List (List Char)) :
    Bindings.descend? (nested path) path = some .null := by
  induction path with
  | nil => rfl
  | cons segment rest ih =>
    rw [nested, Bindings.descend?, Entries.get?, if_pos rfl]
    exact ih

theorem clockShift?_of_point (h : '.' ∈ key) : clockShift? key = none := by
  rw [Option.eq_none_iff_forall_ne_some]
  exact fun _ hshift => (not_mem_of_clockShift? hshift).1 h

/-- A key with segments depends on no name but that of its first one. -/
theorem not_dependsOn_of_point (hpoint : '.' ∈ key) (hname : name ≠ String.ofList (first key)) :
    ¬ DependsOn key name := by
  intro h
  obtain ⟨rest, hsplit⟩ := exists_splitAt_first key
  have hshift := clockShift?_of_point hpoint
  -- The path is there, but not in bindings without any name, which agree on all the others.
  let b := Bindings.empty.bind (String.ofList (first key)) (nested rest)
  have hentries : b.entries = [(String.ofList (first key), nested rest)] :=
    Bindings.entries_bind_of_not_mem (List.not_mem_nil (a := String.ofList (first key)))
  have hfree : b.get? name = Bindings.empty.get? name := by
    unfold Bindings.get?
    rw [hentries, Entries.get?, if_neg (Ne.symm hname)]
    rfl
  have hbound : b.get? (String.ofList (first key)) = some (nested rest) :=
    Bindings.mem_entries_iff.1 (hentries ▸ List.mem_singleton.2 rfl)
  have hsame := h b .empty hfree
  unfold lookup? Bindings.lookup? at hsame
  rw [hshift, String.toList_ofList, hsplit] at hsame
  simp only [hbound, Option.bind_some, descend?_nested] at hsame
  cases hsame

/-! ## Root names -/

theorem rootName_of_shift (h : clockShift? (first key) = some z) :
    rootName (String.ofList key) = "clock" := by
  unfold rootName
  rw [String.toList_ofList]
  exact if_pos (Option.isSome_iff_exists.2 ⟨z, h⟩)

theorem rootName_of_no_shift (h : clockShift? (first key) = none) :
    rootName (String.ofList key) = String.ofList (first key) := by
  unfold rootName
  rw [String.toList_ofList]
  exact if_neg fun hsome => Option.isSome_iff_ne_none.1 hsome h

/-- **The keys that depend on their root name only**: all but those that go on with a point behind
a shifted clock. -/
theorem dependsOn_rootName_iff (key : List Char) :
    DependsOn key (rootName (String.ofList key)) ↔
      ¬ ('.' ∈ key ∧ (clockShift? (first key)).isSome = true) := by
  cases hshift : clockShift? (first key) with
  | none =>
    have hkey : clockShift? key = none := by
      by_cases hpoint : '.' ∈ key
      · exact clockShift?_of_point hpoint
      · rwa [first_eq_self hpoint] at hshift
    rw [rootName_of_no_shift hshift]
    exact iff_of_true (dependsOn_first hkey) fun h => Bool.false_ne_true h.2
  | some z =>
    rw [rootName_of_shift hshift]
    by_cases hpoint : '.' ∈ key
    · have hother : "clock" ≠ String.ofList (first key) := by
        intro heq
        have hclock : first key = "clock".toList := by rw [heq, String.toList_ofList]
        rw [hclock] at hshift
        cases hshift
      exact iff_of_false (not_dependsOn_of_point hpoint hother) fun h => h ⟨hpoint, rfl⟩
    · rw [first_eq_self hpoint] at hshift
      exact iff_of_true (dependsOn_clock hshift) fun h => hpoint h.1

/-- The output of a break that is kept as `clock+1` decides what the key names, and yet the root
name is `clock`. -/
theorem not_dependsOn_outputOfBreak : rootName "clock+1.waited_ms" = "clock" ∧
    ∃ b c : Bindings, b.get? "clock" = c.get? "clock" ∧
      lookup? b "clock+1.waited_ms".toList = some (.ofNat 1) ∧
      lookup? c "clock+1.waited_ms".toList = none := by
  refine ⟨by decide, Bindings.empty.bind "clock+1" (.map [("waited_ms", .ofNat 1)]), .empty, ?_⟩
  decide

end ProcessTest.Template
