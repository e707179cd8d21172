import ProcessTest.Artifact.Script
import ProcessTest.Proofs.Template.Filling
import ProcessTest.Proofs.Template.Keys
import ProcessTest.Run.Action

/-!
# Filling ahead of the run

An artifact is filled with what the document's setting binds, and again by the run with all that is
bound by then.  The two fillings together are the run's filling alone.

* `resolve_value` — the two fillings of one text.
* `resolve_resolve` — of a tree.
* `resolve_eq_self` — a tree without placeholders is filled already.
* `Artifact.filled_as_run` — what an artifact says is what the run computes.
-/

set_option autoImplicit false

namespace ProcessTest

namespace Template

variable {b r : Bindings} {setting : Setting} {key w : List Char} {s : String} {v : Value}

/-! ## One text -/

theorem written_ofSetting (hplain : setting.IsPlain) (hr : r.Extends (.ofSetting setting))
    (h : written (.ofSetting setting) key = some w) :
    Text.Plain w ∧ written r key = some w := by
  obtain ⟨v, hv, rfl⟩ := Option.map_eq_some_iff.1 h
  obtain ⟨-, ⟨s, rfl, hs⟩, hrun⟩ := lookup?_ofSetting hplain hr hv
  exact ⟨hs, Option.map_eq_some_iff.2 ⟨_, hrun, rfl⟩⟩

theorem value_of_plain (h : Text.Plain s.toList) : value s b = .text s := by
  apply value_of_keys_eq_nil
  have hkeys := keysFrom_append h.single []
  rw [List.append_nil] at hkeys
  exact hkeys

theorem fill_fill (hplain : setting.IsPlain) (hr : r.Extends (.ofSetting setting)) (s : String) :
    fill (fill s (.ofSetting setting)) r = fill s r := by
  rw [fill_eq, fill_eq, fill_eq, String.toList_ofList,
    fillFrom_fillFrom fun key _ w h => ⟨(written_ofSetting hplain hr h).1.2.1,
      (written_ofSetting hplain hr h).2⟩]

theorem trim_append_brace (key : List Char) :
    Text.trim (key ++ ['}']) = Text.trimLeft key ++ ['}'] := by
  have hleft : Text.trimLeft (key ++ ['}']) = Text.trimLeft key ++ ['}'] := by
    unfold Text.trimLeft
    rw [List.dropWhile_append]
    split
    · rename_i hempty
      rw [List.isEmpty_iff.1 hempty]
      rfl
    · rfl
  unfold Text.trim
  rw [hleft, Text.trimRight_append_of_not_blank rfl]

/-- A text that the setting changes does not become a single placeholder. -/
theorem sole?_fill_eq_none (hplain : setting.IsPlain) (h : fill s (.ofSetting setting) ≠ s) :
    sole? (fill s (.ofSetting setting)) = none := by
  rw [Option.eq_none_iff_forall_ne_some]
  intro key hsole
  obtain ⟨inner, hfilled, -, hi, -⟩ := sole?_eq_some_iff.1 hsole
  rw [fill_eq, String.toList_ofList] at hfilled
  have hself := fillFrom_eq_self_of_sole
    (fun key w hw => (written_ofSetting hplain (.refl _) hw).1) hi hfilled
  apply h
  rw [fill_eq, hself, String.ofList_toList]

/-- If a text is a single placeholder without a value and the setting changes it all the same, its
key ends in a brace, and the run has no value for it either. -/
theorem no_sole_of_fill_ne_self (hplain : setting.IsPlain) (hr : r.Extends (.ofSetting setting))
    (hnone : (sole? s).bind (lookup? (.ofSetting setting)) = none)
    (h : fill s (.ofSetting setting) ≠ s) : (sole? s).bind (lookup? r) = none := by
  cases hsole : sole? s with
  | none => rfl
  | some key =>
    obtain ⟨inner, hs, -, hi, rfl⟩ := sole?_eq_some_iff.1 hsole
    rw [hsole, Option.bind_some] at hnone
    rw [Option.bind_some]
    have hwritten : written (.ofSetting setting) (Text.trim inner) = none := by
      unfold written
      rw [hnone]
      rfl
    have hne : fillFrom (written (.ofSetting setting)) none s.toList ≠ s.toList := by
      intro hself
      apply h
      rw [fill_eq, hself, String.ofList_toList]
    rw [hs] at hne
    obtain ⟨short, w, rfl, hw⟩ := exists_key_of_fillFrom_ne_self hi hwritten hne
    obtain ⟨v, hv, -⟩ := Option.map_eq_some_iff.1 hw
    have hpoint : '.' ∉ Text.trimLeft short := fun hmem =>
      (lookup?_ofSetting hplain hr hv).1
        (Text.mem_trim ((List.dropWhile_sublist _).subset hmem) rfl)
    rw [trim_append_brace]
    exact lookup?_eq_none_of_brace hr hpoint

/-- **Filling a text ahead of the run changes nothing for the run.** -/
theorem resolve_value (hplain : setting.IsPlain) (hr : r.Extends (.ofSetting setting))
    (s : String) : resolve r (value s (.ofSetting setting)) = value s r := by
  cases hsole : (sole? s).bind (lookup? (.ofSetting setting)) with
  | some v =>
    obtain ⟨key, hkey, hv⟩ := Option.bind_eq_some_iff.1 hsole
    obtain ⟨-, ⟨w, rfl, hw⟩, hrun⟩ := lookup?_ofSetting hplain hr hv
    have hlive : (sole? s).bind (lookup? r) = some (.text w) := by
      rw [hkey]
      exact hrun
    rw [value_of_sole hsole, value_of_sole hlive]
    exact value_of_plain hw
  | none =>
    rw [value_of_no_sole hsole, resolve]
    by_cases hself : fill s (.ofSetting setting) = s
    · rw [hself]
    · have hfilled : (sole? (fill s (.ofSetting setting))).bind (lookup? r) = none := by
        rw [sole?_fill_eq_none hplain hself]
        rfl
      have hlive := no_sole_of_fill_ne_self hplain hr hsole hself
      rw [value_of_no_sole hfilled, value_of_no_sole hlive, fill_fill hplain hr]

/-! ## Trees -/

mutual

/-- **Filling a tree ahead of the run changes nothing for the run.** -/
theorem resolve_resolve (hplain : setting.IsPlain) (hr : r.Extends (.ofSetting setting)) :
    ∀ v, resolve r (resolve (.ofSetting setting) v) = resolve r v
  | .null => rfl
  | .bool _ => rfl
  | .number _ => rfl
  | .text s => resolve_value hplain hr s
  | .list items => congrArg Value.list (resolveItems_resolveItems hplain hr items)
  | .map entries => congrArg Value.map (resolveEntries_resolveEntries hplain hr entries)

theorem resolveItems_resolveItems (hplain : setting.IsPlain)
    (hr : r.Extends (.ofSetting setting)) :
    ∀ items, resolveItems r (resolveItems (.ofSetting setting) items) = resolveItems r items
  | [] => rfl
  | v :: rest => by
    simp only [resolveItems]
    rw [resolve_resolve hplain hr v, resolveItems_resolveItems hplain hr rest]

theorem resolveEntries_resolveEntries (hplain : setting.IsPlain)
    (hr : r.Extends (.ofSetting setting)) :
    ∀ entries, resolveEntries r (resolveEntries (.ofSetting setting) entries) =
      resolveEntries r entries
  | [] => rfl
  | (k, v) :: rest => by
    simp only [resolveEntries]
    rw [resolve_resolve hplain hr v, resolveEntries_resolveEntries hplain hr rest]

end

mutual

/-- A tree whose texts have no keys is filled already. -/
theorem resolve_eq_self : ∀ v, (∀ s ∈ texts v, keys s = []) → resolve b v = v
  | .null, _ => rfl
  | .bool _, _ => rfl
  | .number _, _ => rfl
  | .text s, h => value_of_keys_eq_nil (h s (List.mem_singleton.2 rfl))
  | .list items, h => congrArg Value.list (resolveItems_eq_self items h)
  | .map entries, h => congrArg Value.map (resolveEntries_eq_self entries h)

theorem resolveItems_eq_self :
    ∀ items, (∀ s ∈ textsOfItems items, keys s = []) → resolveItems b items = items
  | [], _ => rfl
  | v :: rest, h => by
    simp only [resolveItems, textsOfItems, List.forall_mem_append] at h ⊢
    rw [resolve_eq_self v h.1, resolveItems_eq_self rest h.2]

theorem resolveEntries_eq_self :
    ∀ entries, (∀ s ∈ textsOfEntries entries, keys s = []) → resolveEntries b entries = entries
  | [], _ => rfl
  | (k, v) :: rest, h => by
    simp only [resolveEntries, textsOfEntries, List.forall_mem_append] at h ⊢
    rw [resolve_eq_self v h.1, resolveEntries_eq_self rest h.2]

end

theorem mem_addNew {seen more : List String} {k : String} :
    k ∈ addNew seen more ↔ k ∈ seen ∨ k ∈ more := by
  unfold addNew
  induction more generalizing seen with
  | nil => simp
  | cons first rest ih =>
    rw [List.foldl_cons, ih]
    split
    · rename_i hseen
      have hfirst : first ∈ seen := List.contains_iff_mem.1 hseen
      grind
    · simp [or_assoc]

theorem keys_eq_nil_of_allKeys (h : (allKeys v).isEmpty = true) : ∀ s ∈ texts v, keys s = [] := by
  intro s hs
  rw [List.eq_nil_iff_forall_not_mem]
  intro k hk
  have hmem : k ∈ allKeys v := mem_addNew.2 (.inr (List.mem_flatMap.2 ⟨s, hs, hk⟩))
  rw [List.isEmpty_iff.1 h] at hmem
  cases hmem

end Template

/-! ## Artifacts -/

variable {setting : Setting} {r : Bindings} {v literal : Value}

/-- A settled tree is the run's. -/
theorem Value.eq_resolve_of_settled? (hplain : setting.IsPlain)
    (hr : r.Extends (.ofSetting setting)) (h : v.settled? (.ofSetting setting) = some literal) :
    literal = Template.resolve r v := by
  obtain ⟨hkeys, hfilled⟩ := Option.ite_none_right_eq_some.1 h
  cases hfilled
  rw [← Template.resolve_resolve hplain hr v]
  exact (Template.resolve_eq_self _ (Template.keys_eq_nil_of_allKeys hkeys)).symm

/-- A settled rule is the run's. -/
theorem Rule.resolve_of_settled? {rule filled : Rule} (hplain : setting.IsPlain)
    (hr : r.Extends (.ofSetting setting)) (h : rule.settled? (.ofSetting setting) = some filled) :
    rule.resolve r = .ok filled := by
  obtain ⟨literal, hliteral, hdecode⟩ := Option.bind_eq_some_iff.1 h
  have hok : Rule.decode .direct literal = .ok filled := by
    cases hread : Rule.decode .direct literal with
    | error e =>
      rw [hread] at hdecode
      cases hdecode
    | ok read =>
      rw [hread] at hdecode
      cases hdecode
      rfl
  rw [Value.eq_resolve_of_settled? hplain hr hliteral] at hok
  unfold Rule.resolve resolveAs
  rw [hok]

namespace Artifact

theorem Script.value_of_settled? {b : Bindings} (h : v.settled? b = some literal) :
    Script.value b v = literal.json := by
  unfold Script.value
  rw [h]

theorem Script.value_of_not_settled {b : Bindings} (h : v.settled? b = none) :
    Script.value b v = "resolve(" ++ (Template.resolve b v).json ++ ", ctx)" := by
  unfold Script.value
  rw [h]

/-- **What an artifact is filled with is what the run computes.**  The setting is plain, and the
run's bindings are the setting's with further names that do not end in a closing brace.  Filling
ahead of the run does not change the run's filling; so a settled tree stands in a script as the
literal of the run's value, any other as a call whose argument the run fills as the tree itself,
and a settled rule is the run's. -/
theorem filled_as_run (hplain : setting.IsPlain) (hr : r.Extends (.ofSetting setting)) :
    (∀ v, Template.resolve r (Template.resolve (.ofSetting setting) v) = Template.resolve r v) ∧
      (∀ v literal, v.settled? (.ofSetting setting) = some literal →
        Script.value (.ofSetting setting) v = literal.json ∧ literal = Template.resolve r v) ∧
      (∀ v, v.settled? (.ofSetting setting) = none →
        ∃ argument, Script.value (.ofSetting setting) v =
            "resolve(" ++ argument.json ++ ", ctx)" ∧
          Template.resolve r argument = Template.resolve r v) ∧
      ∀ (rule filled : Rule), rule.settled? (.ofSetting setting) = some filled →
        rule.resolve r = .ok filled := by
  refine ⟨Template.resolve_resolve hplain hr, ?_, ?_, ?_⟩
  · intro v literal h
    exact ⟨Script.value_of_settled? h, Value.eq_resolve_of_settled? hplain hr h⟩
  · intro v h
    exact ⟨_, Script.value_of_not_settled h, Template.resolve_resolve hplain hr v⟩
  · intro rule filled h
    exact Rule.resolve_of_settled? hplain hr h

/-- The setting of a salon's tests. -/
def salon : Setting :=
  { tenant := some "north", organization := "org-salon-001", currency := "AED", locale := "en-AE",
    fiscalYear := none, clock := some "2024-01-01T09:00:00Z" }

/-- What a run has bound once it has created a customer. -/
def visit : Bindings :=
  (Bindings.seeded salon "2026-01-31T09:00:00Z").bind "customer" (.map [("id", .text "c-7")])

theorem salon_isPlain : salon.IsPlain where
  organization := by decide
  currency := by decide
  locale := by decide
  tenant := by
    rintro _ ⟨⟩
    decide
  clock := by
    rintro _ ⟨⟩
    decide

theorem visit_extends : visit.Extends (.ofSetting salon) :=
  (Bindings.extends_seeded salon _).bind (by decide)

/-- An hour behind the clock of the document. -/
def hourLater : Value := .text "\x7b\x7bclock+3600\x7d\x7d"

theorem salon_filled_as_run :
    salon.IsPlain ∧ visit.Extends (.ofSetting salon) ∧
      hourLater.settled? (.ofSetting salon) = some (.text "2024-01-01T10:00:00Z") ∧
      Template.resolve visit hourLater = .text "2024-01-01T10:00:00Z" := by
  have hsettled :
      hourLater.settled? (.ofSetting salon) = some (.text "2024-01-01T10:00:00Z") := by
    decide +kernel
  have hrun := (filled_as_run salon_isPlain visit_extends).2.1 _ _ hsettled
  exact ⟨salon_isPlain, visit_extends, hsettled, hrun.2.symm⟩

example :
    Script.value (.ofSetting salon)
        (.text "\x7b\x7bcustomer.id\x7d\x7d of \x7b\x7btenant\x7d\x7d") =
      "resolve(\"\x7b\x7bcustomer.id\x7d\x7d of north\", ctx)" := by
  decide +kernel

end Artifact

end ProcessTest
