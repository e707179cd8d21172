import Mathlib.Data.List.Nodup
import ProcessTest.Proofs.Store.Atomicity
import ProcessTest.Proofs.Store.Integrity

/-!
# Organizations are isolated

All organizations share the tables and the count of identifiers, and the scope can change before
any command.  What happens outside the scope of an organization is still none of its business.

* `Store.view_step`, `Store.view_foldl` — an organization sees nothing of what is done while
  another one is in scope.
* `Store.Grown.organization_unique` — an identifier belongs to one organization.
* `Store.Isolated`, `Store.isolated_after` — this holds of every store with a scope.
-/

set_option autoImplicit false

namespace ProcessTest

namespace Store

/-- What an organization gets for a query. -/
def view (s : Store) (organization table : String) (conditions : Entries) :
    Except StoreError (List Entries) :=
  (s.enter organization).query table conditions

/-- A store with an organization in scope keeps it apart from the others. -/
structure Isolated (organization : String) (s : Store) : Prop where
  /-- No other organization sees a difference after a command. -/
  unseen : ∀ other, other ≠ organization → ∀ c table conditions,
    (s.step c).view other table conditions = s.view other table conditions
  /-- As long as its scope is not entered, no other organization sees a difference. -/
  apart : ∀ other, other ≠ organization → ∀ commands : List Command, .enter other ∉ commands →
    ∀ table conditions,
      (commands.foldl step s).view other table conditions = s.view other table conditions
  /-- Queries only return records of the organization. -/
  own : ∀ table conditions records, s.query table conditions = .ok records →
    ∀ r ∈ records, textAt? "organization_id" r = some organization
  /-- An operation that needs an entity of another organization is refused for want of it, or of
  one that it needs before. -/
  guarded : ∀ o, ∀ id ∈ needs o, ∀ other, other ≠ organization → s.Has .entities other id →
    ∃ missing ∈ needs o,
      s.reply (.operate o) = .error (.unknownEntity missing organization) ∧
        s.step (.operate o) = s

section Views

variable {s : Store} {organization other : String}

/-! ## What an organization sees -/

theorem view_eq (s : Store) (other table : String) (conditions : Entries) :
    s.view other table conditions = match Table.read? table with
      | none => .error (.unknownTable table)
      | some t => .ok ((s.records t).filter fun r => belongs other r && conditions.all (meets r)) :=
  rfl

theorem records_extend (rows : List Row) (t : Table) :
    (s.extend rows).records t = s.records t ++ (rows.filter (·.table = t)).map Row.content := by
  simp only [records, rows_extend, List.filter_append, List.map_append]

/-- Rows of one organization are not seen by another one. -/
theorem view_extend {rows : List Row}
    (hrows : ∀ row ∈ rows, row.text? "organization_id" = some organization)
    (hother : other ≠ organization) (table : String) (conditions : Entries) :
    (s.extend rows).view other table conditions = s.view other table conditions := by
  have hnone : ∀ t, ((rows.filter (·.table = t)).map Row.content).filter
      (fun r => belongs other r && conditions.all (meets r)) = [] := by
    intro t
    refine List.filter_eq_nil_iff.2 fun r hr => ?_
    obtain ⟨row, hrow, rfl⟩ := List.mem_map.1 hr
    have horg : textAt? "organization_id" row.content = some organization :=
      hrows row (List.mem_of_mem_filter hrow)
    simp [belongs, horg, hother.symm]
  simp only [view_eq, records_extend, List.filter_append, hnone, List.append_nil]

/-- **A step outside the scope** of an organization shows it nothing. -/
theorem view_step (hscope : s.scope ≠ some other) (c : Command) (table : String)
    (conditions : Entries) :
    (s.step c).view other table conditions = s.view other table conditions := by
  cases c with
  | enter organization => rfl
  | query table conditions => rfl
  | operate o =>
    rcases apply_cases o s with ⟨_, -, hrun⟩ | ⟨organization, _, horg, -, hrun⟩
    · simp only [step, hrun]
    · have hother : other ≠ organization := by
        rintro rfl
        exact hscope horg
      simp only [step, hrun]
      exact view_extend (fun row hrow => (newRow_of_mem hrow).inScope) hother table conditions

theorem scope_ne (hscope : s.scope = some organization) (hother : other ≠ organization) :
    s.scope ≠ some other := by
  rw [hscope]
  exact fun heq => hother (Option.some.inj heq).symm

/-- Only a command that enters a scope changes it. -/
theorem scope_step {c : Command} (hscope : s.scope ≠ some other) (hc : c ≠ .enter other) :
    (s.step c).scope ≠ some other := by
  cases c with
  | enter organization =>
    rintro ⟨⟩
    exact hc rfl
  | query table conditions => exact hscope
  | operate o =>
    rcases apply_cases o s with ⟨_, -, hrun⟩ | ⟨_, _, -, -, hrun⟩
    · simp only [step, hrun]
      exact hscope
    · simp only [step, hrun, scope_extend]
      exact hscope

/-- **A run outside the scope** of an organization shows it nothing. -/
theorem view_foldl {commands : List Command} (hscope : s.scope ≠ some other)
    (hc : .enter other ∉ commands) (table : String) (conditions : Entries) :
    (commands.foldl step s).view other table conditions = s.view other table conditions := by
  induction commands generalizing s with
  | nil => rfl
  | cons c rest ih =>
    obtain ⟨hfirst, hrest⟩ := List.ne_and_not_mem_of_not_mem_cons hc
    rw [List.foldl_cons, ih (scope_step hscope (Ne.symm hfirst)) hrest, view_step hscope]

/-- A query returns records of the organization in scope. -/
theorem organization_of_query (hscope : s.scope = some organization) {table : String}
    {conditions : Entries} {records : List Entries} (h : s.query table conditions = .ok records) :
    ∀ r ∈ records, textAt? "organization_id" r = some organization := by
  unfold query at h
  split at h
  · cases h
  · rw [hscope] at h
    cases h
    intro r hr
    have hmeets := (List.mem_filter.1 hr).2
    simp only [belongs, Bool.and_eq_true, decide_eq_true_eq] at hmeets
    exact hmeets.1

end Views

section Ownership

variable {P : Operation → Prop} {s : Store} {organization other id : String}

/-! ## Whose entities an operation refers to -/

/-- An identifier belongs to one organization. -/
theorem Grown.organization_unique (h : Grown P s) {t u : Table} (ht : s.Has t organization id)
    (hu : s.Has u other id) : organization = other := by
  obtain ⟨row, hrow, -, hid, horg⟩ := ht
  obtain ⟨row', hrow', -, hid', horg'⟩ := hu
  have hsame : row = row' :=
    List.inj_on_of_nodup_map h.numbered.nodup hrow hrow' (hid.trans hid'.symm)
  rw [hsame, horg'] at horg
  exact (Option.some.inj horg).symm

/-- An operation in the scope of an organization that lacks an entity is refused. -/
theorem refused_of_missing {o : Operation} (hscope : s.scope = some organization)
    (hid : id ∈ needs o) (hmissing : ¬ s.Has .entities organization id) :
    ∃ missing ∈ needs o, s.apply o = (.error (.unknownEntity missing organization), s) := by
  rcases apply_cases o s with ⟨cause, hrefuses, hrun⟩ | ⟨organization', _, hscope', hneeds, -⟩
  · cases hrefuses with
    | noScope _ hnone =>
      rw [hscope] at hnone
      cases hnone
    | unknownEntity hscope' hneeded _ =>
      rw [hscope] at hscope'
      cases hscope'
      exact ⟨_, hneeded, hrun⟩
    | noRequests p => cases hid
    | interaction p => cases hid
    | wait ms => cases hid
  · rw [hscope] at hscope'
    cases hscope'
    exact absurd (hasEntity_iff.1 (hneeds id hid)) hmissing

theorem Grown.isolated (h : Grown P s) (hscope : s.scope = some organization) :
    s.Isolated organization where
  unseen := by
    intro other hother c table conditions
    exact view_step (scope_ne hscope hother) c table conditions
  apart := by
    intro other hother commands hc table conditions
    exact view_foldl (scope_ne hscope hother) hc table conditions
  own := fun _ _ _ => organization_of_query hscope
  guarded := by
    intro o id hid other hother hhas
    have hmissing : ¬ s.Has .entities organization id :=
      fun hown => hother (h.organization_unique hhas hown)
    obtain ⟨missing, hneeded, hrun⟩ := refused_of_missing hscope hid hmissing
    refine ⟨missing, hneeded, ?_, ?_⟩
    · simp only [reply, hrun]
      rfl
    · simp only [Store.step, hrun]

end Ownership

/-- **Isolation**: whatever commands a store has seen, the organization in scope is kept apart from
all others. -/
theorem isolated_after (commands : List Command) {organization : String}
    (hscope : (after commands).scope = some organization) :
    (after commands).Isolated organization := by
  have hgrown : Grown (fun o => .operate o ∈ commands) (after commands) := grown_after fun _ h => h
  exact hgrown.isolated hscope

/-- A salon cannot give a field to a client of a bakery, and the bakery sees nothing of the try. -/
theorem isolated_bakery :
    let client : Operation :=
      .entity ⟨"client", "Ada", none, "HERA.SALON.CRM.ENT.CLIENT.v1", [], none⟩
    let s := after [.enter "bakery", .operate client, .enter "salon"]
    let field : Operation := .field ⟨"ent-000001", "vip", .bool true, none⟩
    s.scope = some "salon" ∧ s.Has .entities "bakery" "ent-000001" ∧
      (∃ missing ∈ needs field,
        s.reply (.operate field) = .error (.unknownEntity missing "salon") ∧
          s.step (.operate field) = s) ∧
      (s.step (.operate client)).view "bakery" "core_entities" [] =
        s.view "bakery" "core_entities" [] := by
  intro client s field
  have hscope : s.scope = some "salon" := by rfl
  have hhas : s.Has .entities "bakery" "ent-000001" := hasEntity_iff.1 (by decide +kernel)
  have hisolated := isolated_after
    [.enter "bakery", .operate client, .enter "salon"] hscope
  refine ⟨hscope, hhas, ?_, ?_⟩
  · exact hisolated.guarded field "ent-000001" List.mem_cons_self "bakery" (by decide) hhas
  · exact hisolated.unseen "bakery" (by decide) (.operate client) "core_entities" []

end Store

end ProcessTest
