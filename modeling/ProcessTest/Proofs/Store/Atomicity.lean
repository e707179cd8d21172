import ProcessTest.Proofs.Store.History

/-!
# Commands of a store are atomic

A command that is refused leaves the whole store as it was: no record, no identifier and no scope
stays behind, wherever in the command the refusal comes up.

* `Store.reply` — what a command comes to.
* `Store.refuses_of_error` — an operation that fails has been refused before its first record.
* `Store.atomic` — refused commands change nothing.
-/

set_option autoImplicit false

namespace ProcessTest

namespace Store

/-- What a command comes to; `step` is the store behind it. -/
def reply (s : Store) : Command → Except StoreError (List Entries)
  | .enter _ => .ok []
  | .operate o => (s.apply o).1.map fun record => [record]
  | .query table conditions => s.query table conditions

section Refusals

variable {s : Store} {o : Operation} {cause : StoreError}

/-- The causes of refusals come up before the first record of an operation; writing a line down
is none of them. -/
theorem Refuses.not_unwritten (h : s.Refuses o cause) (e : SerialError) :
    cause ≠ .unwritten e := by
  rintro rfl
  cases h

/-- An operation that fails has been refused. -/
theorem refuses_of_error (h : (s.apply o).1 = .error cause) :
    s.Refuses o cause ∧ s.apply o = (.error cause, s) := by
  rcases apply_cases o s with ⟨found, hrefuses, hrun⟩ | ⟨_, _, -, -, hrun⟩
  · rw [hrun] at h
    cases h
    exact ⟨hrefuses, hrun⟩
  · rw [hrun] at h
    cases h

/-- A query is only refused for its table or for want of a scope. -/
theorem query_error {table : String} {conditions : Entries}
    (h : s.query table conditions = .error cause) :
    cause = .unknownTable table ∨ cause = .noScope := by
  unfold query at h
  split at h
  · cases h
    exact .inl rfl
  · split at h
    · cases h
      exact .inr rfl
    · cases h

/-- What an operation is refused for is what its reply says. -/
theorem error_of_reply (h : s.reply (.operate o) = .error cause) :
    (s.apply o).1 = .error cause := by
  simp only [reply] at h
  cases hrun : (s.apply o).1 with
  | error found =>
    rw [hrun] at h
    cases h
    rfl
  | ok record =>
    rw [hrun] at h
    cases h

end Refusals

/-- **Commands are atomic**: in every store, a command that is refused changes nothing.  A
transaction is never refused between its record and its last line, since every line can be written
down. -/
theorem atomic (c : Command) (s : Store) :
    (∀ cause, s.reply c = .error cause → s.step c = s ∧ ∀ e, cause ≠ .unwritten e) ∧
    ∀ organization transaction number items,
      (addLines organization transaction number items s).1 = .ok () := by
  refine ⟨?_, fun _ _ _ _ => by rw [addLines_eq]⟩
  intro cause h
  cases c with
  | enter organization => cases h
  | operate o =>
    obtain ⟨hrefuses, hrun⟩ := refuses_of_error (error_of_reply h)
    exact ⟨congrArg Prod.snd hrun, hrefuses.not_unwritten⟩
  | query table conditions =>
    refine ⟨rfl, ?_⟩
    rintro e rfl
    rcases query_error h with hcause | hcause
    · cases hcause
    · cases hcause

/-- A sale to a known client with a line that refers to nobody. -/
def strayLine : Operation :=
  .transaction ⟨"sale", "HERA.SALON.POS.TXN.SALE.v1", none, none, none, some "ent-000001", none,
    [⟨none, some "ent-000001", none, none, none, none, none⟩,
      ⟨none, some "ent-000009", none, none, none, none, none⟩], none⟩

/-- The sale is refused behind its first references, and the client stays the only record. -/
theorem atomic_strayLine :
    let s := after [.enter "salon",
      .operate (.entity ⟨"client", "Ada", none, "HERA.SALON.CRM.ENT.CLIENT.v1", [], none⟩)]
    s.reply (.operate strayLine) = .error (.unknownEntity "ent-000009" "salon") ∧
      s.step (.operate strayLine) = s ∧ s.rows.length = 1 := by
  intro s
  have hreply : s.reply (.operate strayLine) = .error (.unknownEntity "ent-000009" "salon") := by
    rfl
  have hlength : s.rows.length = 1 := by decide +kernel
  exact ⟨hreply, ((atomic (.operate strayLine) s).1 _ hreply).1, hlength⟩

end Store

end ProcessTest
