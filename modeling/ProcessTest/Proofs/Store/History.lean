import ProcessTest.Proofs.Store.Rows

/-!
# Histories of a store

A store that several parties use sees one command after the other, however their calls interleave.

* `Store.after` — the store after a list of commands, from the empty store on.
* `Store.Grown` — how a store comes about: scopes are set, and the rows of operations are added
  whose entities exist.
* `Store.grown_after`, `Store.rows_prefix_after` — every history is of this kind, and only adds
  rows.
-/

set_option autoImplicit false

namespace ProcessTest

namespace Store

/-- What can be asked of a store. -/
inductive Command where
  | enter (organization : String)
  | operate (o : Operation)
  | query (table : String) (conditions : Entries)

/-- The store after a command; a query leaves it as it is. -/
def step (s : Store) : Command → Store
  | .enter organization => s.enter organization
  | .operate o => (s.apply o).2
  | .query _ _ => s

/-- The store after commands, from the empty store on. -/
def after (commands : List Command) : Store := commands.foldl step empty

theorem after_append (commands more : List Command) :
    after (commands ++ more) = more.foldl step (after commands) :=
  List.foldl_append

/-! ## Rows stay -/

theorem rows_prefix_step (s : Store) (c : Command) : s.rows <+: (s.step c).rows := by
  cases c with
  | enter organization => exact List.prefix_refl _
  | query table conditions => exact List.prefix_refl _
  | operate o =>
    rcases apply_cases o s with ⟨_, -, h⟩ | ⟨_, _, -, -, h⟩
    · simp only [step, h]
      exact List.prefix_refl _
    · simp only [step, h, rows_extend]
      exact List.prefix_append _ _

theorem rows_prefix_foldl (commands : List Command) (s : Store) :
    s.rows <+: (commands.foldl step s).rows := by
  induction commands generalizing s with
  | nil => exact List.prefix_refl _
  | cons c rest ih => exact (rows_prefix_step s c).trans (ih (s.step c))

/-- A row that has been stored stays, and rows keep their order. -/
theorem rows_prefix_after (commands more : List Command) :
    (after commands).rows <+: (after (commands ++ more)).rows := by
  rw [after_append]
  exact rows_prefix_foldl more _

/-! ## How a store grows -/

/-- A store that has come about by operations with a property. -/
inductive Grown (P : Operation → Prop) : Store → Prop
  | empty : Grown P Store.empty
  | enter {s : Store} (organization : String) : Grown P s → Grown P (s.enter organization)
  | extend {s : Store} {organization : String} {o : Operation} : Grown P s → P o →
      (∀ id ∈ needs o, s.hasEntity organization id = true) →
      Grown P (s.extend (newRows organization s.issued o))

section Grown

variable {P : Operation → Prop} {s : Store}

theorem Grown.step {c : Command} (h : Grown P s) (hc : ∀ o, c = .operate o → P o) :
    Grown P (s.step c) := by
  cases c with
  | enter organization => exact h.enter organization
  | query table conditions => exact h
  | operate o =>
    rcases apply_cases o s with ⟨_, -, hrun⟩ | ⟨_, _, -, hneeds, hrun⟩
    · simp only [Store.step, hrun]
      exact h
    · simp only [Store.step, hrun]
      exact h.extend (hc o rfl) hneeds

theorem Grown.foldl {commands : List Command} (h : Grown P s)
    (hc : ∀ o, .operate o ∈ commands → P o) : Grown P (commands.foldl Store.step s) := by
  induction commands generalizing s with
  | nil => exact h
  | cons c rest ih =>
    have hfirst : ∀ o, c = .operate o → P o := fun o ho => hc o (ho ▸ List.mem_cons_self)
    exact ih (h.step hfirst) fun o ho => hc o (List.mem_cons_of_mem c ho)

theorem grown_after {commands : List Command} (hc : ∀ o, .operate o ∈ commands → P o) :
    Grown P (after commands) :=
  Grown.empty.foldl hc

/-! ## Identifiers of a grown store -/

theorem Grown.issued_eq (h : Grown P s) : s.issued = s.rows.length := by
  induction h with
  | empty => rfl
  | enter _ _ ih => exact ih
  | extend _ _ _ ih => rw [issued_extend, rows_extend, List.length_append, ih]

/-- The rows are numbered from one on. -/
theorem Grown.numbered (h : Grown P s) : Numbered 0 s.rows := by
  induction h with
  | empty => exact trivial
  | enter _ _ ih => exact ih
  | extend h _ _ ih =>
    rw [rows_extend, numbered_append]
    refine ⟨ih, ?_⟩
    rw [h.issued_eq, Nat.zero_add]
    exact numbered_newRows _ _ _

/-- No row has an identifier that has not been given out. -/
theorem Grown.ne_identifier (h : Grown P s) {row : Row} (hrow : row ∈ s.rows) {id : String}
    (hid : row.text? "id" = some id) (t : Table) {n : Nat} (hn : s.issued < n) :
    id ≠ identifier t n := by
  obtain ⟨m, -, hle, hm⟩ := h.numbered.of_mem hrow
  rw [hm] at hid
  cases hid
  intro heq
  have := identifier_inj heq
  rw [h.issued_eq] at hn
  omega

end Grown

end Store

end ProcessTest
