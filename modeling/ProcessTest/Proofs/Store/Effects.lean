import ProcessTest.Store

/-!
# What operations add to the store

An operation either fails and leaves the store as it was, or adds rows at the end, each of which
takes the next identifier.

* `Store.newRows` — the rows that an operation adds.
* `Store.Refuses` — the causes for which a store refuses an operation.
* `Store.apply_cases` — all that an operation can do.
-/

set_option autoImplicit false

namespace ProcessTest

namespace Store

/-- The store with further rows, each of which has taken an identifier. -/
def extend (s : Store) (rows : List Row) : Store :=
  { s with rows := s.rows ++ rows, issued := s.issued + rows.length }

theorem extend_extend (s : Store) (rows more : List Row) :
    (s.extend rows).extend more = s.extend (rows ++ more) := by
  simp only [extend, List.append_assoc, List.length_append, Nat.add_assoc]

@[simp] theorem rows_extend (s : Store) (rows : List Row) :
    (s.extend rows).rows = s.rows ++ rows := rfl

@[simp] theorem scope_extend (s : Store) (rows : List Row) : (s.extend rows).scope = s.scope := rfl

@[simp] theorem issued_extend (s : Store) (rows : List Row) :
    (s.extend rows).issued = s.issued + rows.length := rfl

/-! ## Rows -/

/-- The rows of the fields of an entity; `n` identifiers have been given out before. -/
def fieldRows (organization entity : String) : (n : Nat) → Entries → List Row
  | _, [] => []
  | n, (name, value) :: rest =>
    ⟨.fields, fieldRecord (identifier .fields (n + 1)) organization entity name value⟩ ::
      fieldRows organization entity (n + 1) rest

/-- The rows of an entity and its fields. -/
def entityRows (organization : String) (n : Nat) (p : NewEntity) : List Row :=
  let id := identifier .entities (n + 1)
  ⟨.entities, entityRecord id organization p⟩ :: fieldRows organization id (n + 1) p.dynamicFields

/-- The rows of the lines of a transaction, which are numbered from the given number. -/
def lineRows (organization transaction : String) : (n number : Nat) → List LineItem → List Row
  | _, _, [] => []
  | n, number, item :: rest =>
    ⟨.lines, lineRecord (identifier .lines (n + 1)) organization transaction number item.fields⟩ ::
      lineRows organization transaction (n + 1) (number + 1) rest

/-- The rows of a transaction and its lines. -/
def transactionRows (organization : String) (n : Nat) (p : NewTransaction) : List Row :=
  let id := identifier .transactions (n + 1)
  ⟨.transactions, transactionRecord id organization p⟩ ::
    lineRows organization id (n + 1) 1 p.lines

/-- The rows that an operation adds in the scope of an organization. -/
def newRows (organization : String) (n : Nat) : Operation → List Row
  | .entity p => entityRows organization n p
  | .transaction p => transactionRows organization n p
  | .relationship p =>
    [⟨.relationships, relationshipRecord (identifier .relationships (n + 1)) organization p⟩]
  | .field p =>
    [⟨.fields, fieldRecord (identifier .fields (n + 1)) organization p.entityId p.name p.value⟩]
  | .request _ | .interaction _ | .wait _ => []

/-- The entities that must exist before an operation. -/
def needs : Operation → List String
  | .transaction p => references p
  | .relationship p => [p.fromId, p.toId]
  | .field p => [p.entityId]
  | .entity _ | .request _ | .interaction _ | .wait _ => []

/-- Why a store refuses an operation. -/
inductive Refuses (s : Store) : Operation → StoreError → Prop
  | noScope (o : Operation) (hscope : s.scope = none) : Refuses s o .noScope
  | unknownEntity {o : Operation} {organization id : String} (hscope : s.scope = some organization)
      (hid : id ∈ needs o) (h : s.hasEntity organization id = false) :
      Refuses s o (.unknownEntity id organization)
  | noRequests (p : Request) : Refuses s (.request p) (.noRequests p.method p.endpoint)
  | interaction (p : Interaction) :
      Refuses s (.interaction p) (.foreign (Operation.interaction p).kind)
  | wait (ms : Nat) : Refuses s (.wait ms) (.foreign (Operation.wait ms).kind)

/-! ## Steps of an effect -/

section Steps

variable {α β : Type} {x : Effect α} {f : α → Effect β} {s s' : Store}

/-- Two steps: the second one sees what the first one has left behind, unless that has failed. -/
theorem run_bind (x : Effect α) (f : α → Effect β) (s : Store) :
    (x >>= f) s = match x s with
      | (.ok a, s') => f a s'
      | (.error cause, s') => (.error cause, s') := by
  change ExceptT.bindCont f (x s).1 (x s).2 = _
  rcases x s with ⟨_ | a, s'⟩
  · rfl
  · rfl

theorem bind_of_ok {a : α} (h : x s = (.ok a, s')) : (x >>= f) s = f a s' := by
  rw [run_bind, h]

theorem bind_of_error {cause : StoreError} (h : x s = (.error cause, s')) :
    (x >>= f) s = (.error cause, s') := by
  rw [run_bind, h]

end Steps

theorem get_eq (s : Store) : (get : Effect Store) s = (.ok s, s) := rfl

theorem currentScope_cases (s : Store) :
    (∃ organization, s.scope = some organization ∧ currentScope s = (.ok organization, s)) ∨
      (s.scope = none ∧ currentScope s = (.error .noScope, s)) := by
  unfold currentScope
  rw [bind_of_ok (get_eq s)]
  cases h : s.scope with
  | some organization => exact .inl ⟨organization, rfl, rfl⟩
  | none => exact .inr ⟨rfl, rfl⟩

theorem requireEntity_cases (organization id : String) (s : Store) :
    (s.hasEntity organization id = true ∧ requireEntity organization id s = (.ok (), s)) ∨
      (s.hasEntity organization id = false ∧
        requireEntity organization id s = (.error (.unknownEntity id organization), s)) := by
  unfold requireEntity
  rw [bind_of_ok (get_eq s)]
  cases h : s.hasEntity organization id with
  | true => exact .inl ⟨rfl, rfl⟩
  | false => exact .inr ⟨rfl, rfl⟩

theorem requireEntities_cases (organization : String) (ids : List String) (s : Store) :
    ((∀ id ∈ ids, s.hasEntity organization id = true) ∧
        requireEntities organization ids s = (.ok (), s)) ∨
      ∃ id ∈ ids, s.hasEntity organization id = false ∧
        requireEntities organization ids s = (.error (.unknownEntity id organization), s) := by
  induction ids with
  | nil => exact .inl ⟨fun _ h => absurd h List.not_mem_nil, rfl⟩
  | cons id rest ih =>
    unfold requireEntities
    rcases requireEntity_cases organization id s with ⟨hid, hrun⟩ | ⟨hid, hrun⟩
    · rw [bind_of_ok hrun]
      rcases ih with ⟨hrest, hrun⟩ | ⟨other, hother, hrest, hrun⟩
      · exact .inl ⟨List.forall_mem_cons.2 ⟨hid, hrest⟩, hrun⟩
      · exact .inr ⟨other, List.mem_cons_of_mem id hother, hrest, hrun⟩
    · exact .inr ⟨id, List.mem_cons_self, hid, bind_of_error hrun⟩

/-- A new identifier is at once the one of a new row. -/
theorem enroll_eq {α : Type} (t : Table) (record : String → Entries) (next : String → Effect α)
    (s : Store) :
    (do
      let id ← issue t
      add t (record id)
      next id : Effect α) s =
    next (identifier t (s.issued + 1))
      (s.extend [⟨t, record (identifier t (s.issued + 1))⟩]) := rfl

theorem addField_eq (organization entity name : String) (value : Value) (s : Store) :
    ∃ record, addField organization entity name value s =
      (.ok record, s.extend (fieldRows organization entity s.issued [(name, value)])) :=
  ⟨_, rfl⟩

theorem addFields_eq (organization entity : String) (fields : Entries) (s : Store) :
    addFields organization entity fields s =
      (.ok (), s.extend (fieldRows organization entity s.issued fields)) := by
  induction fields generalizing s with
  | nil =>
    unfold extend fieldRows
    rw [List.append_nil]
    rfl
  | cons field rest ih =>
    obtain ⟨name, value⟩ := field
    obtain ⟨record, hrun⟩ := addField_eq organization entity name value s
    unfold addFields
    rw [bind_of_ok hrun, ih, extend_extend]
    rfl

/-- A transaction line can be written down. -/
theorem lineColumns_eq (item : LineItem) : lineColumns item = .ok item.fields := by
  unfold lineColumns
  rw [LineItem.toValue_serial]
  rfl

theorem addLines_eq (organization transaction : String) (number : Nat) (items : List LineItem)
    (s : Store) :
    addLines organization transaction number items s =
      (.ok (), s.extend (lineRows organization transaction s.issued number items)) := by
  induction items generalizing number s with
  | nil =>
    unfold extend lineRows
    rw [List.append_nil]
    rfl
  | cons item rest ih =>
    unfold addLines
    simp only [lineColumns_eq]
    rw [enroll_eq .lines fun id => lineRecord id organization transaction number item.fields, ih,
      extend_extend]
    rfl

/-! ## Operations -/

section Operations

variable {organization : String} {s : Store}

theorem addEntity_eq (h : currentScope s = (.ok organization, s)) (p : NewEntity) :
    ∃ answer, addEntity p s = (.ok answer, s.extend (entityRows organization s.issued p)) := by
  unfold addEntity
  rw [bind_of_ok h]
  simp only
  rw [enroll_eq .entities fun id => entityRecord id organization p,
    bind_of_ok (addFields_eq _ _ _ _), extend_extend]
  exact ⟨_, rfl⟩

theorem addTransaction_eq (h : currentScope s = (.ok organization, s)) {p : NewTransaction}
    (hp : requireEntities organization (references p) s = (.ok (), s)) :
    ∃ answer, addTransaction p s =
      (.ok answer, s.extend (transactionRows organization s.issued p)) := by
  unfold addTransaction
  rw [bind_of_ok h, bind_of_ok hp]
  simp only
  rw [enroll_eq .transactions fun id => transactionRecord id organization p,
    bind_of_ok (addLines_eq _ _ _ _ _), extend_extend]
  exact ⟨_, rfl⟩

end Operations

/-- **What an operation does**: it is refused and changes nothing, or adds its rows to a store that
has all the entities it needs. -/
theorem apply_cases (o : Operation) (s : Store) :
    (∃ cause, s.Refuses o cause ∧ s.apply o = (.error cause, s)) ∨
      ∃ organization answer, s.scope = some organization ∧
        (∀ id ∈ needs o, s.hasEntity organization id = true) ∧
        s.apply o = (.ok answer, s.extend (newRows organization s.issued o)) := by
  rcases currentScope_cases s with ⟨organization, hscope, hrun⟩ | ⟨hscope, hrun⟩
  · cases o with
    | entity p =>
      right
      obtain ⟨answer, h⟩ := addEntity_eq hrun p
      exact ⟨organization, answer, hscope, fun _ hid => absurd hid List.not_mem_nil, h⟩
    | transaction p =>
      rcases requireEntities_cases organization (references p) s with
        ⟨hall, hp⟩ | ⟨id, hid, hnone, hp⟩
      · right
        obtain ⟨answer, h⟩ := addTransaction_eq hrun hp
        exact ⟨organization, answer, hscope, hall, h⟩
      · left
        exact ⟨_, .unknownEntity hscope hid hnone, (bind_of_ok hrun).trans (bind_of_error hp)⟩
    | relationship p =>
      rcases requireEntities_cases organization [p.fromId, p.toId] s with
        ⟨hall, hp⟩ | ⟨id, hid, hnone, hp⟩
      · right
        exact ⟨organization, _, hscope, hall, (bind_of_ok hrun).trans ((bind_of_ok hp).trans rfl)⟩
      · left
        exact ⟨_, .unknownEntity hscope hid hnone, (bind_of_ok hrun).trans (bind_of_error hp)⟩
    | field p =>
      rcases requireEntity_cases organization p.entityId s with ⟨hp, hrun'⟩ | ⟨hnone, hp⟩
      · right
        refine ⟨organization, _, hscope, ?_, (bind_of_ok hrun).trans ((bind_of_ok hrun').trans rfl)⟩
        intro id hid
        obtain rfl := List.mem_singleton.1 hid
        exact hp
      · left
        exact ⟨_, .unknownEntity hscope List.mem_cons_self hnone,
          (bind_of_ok hrun).trans (bind_of_error hp)⟩
    | request p => exact .inl ⟨_, .noRequests p, rfl⟩
    | interaction p => exact .inl ⟨_, .interaction p, rfl⟩
    | wait ms => exact .inl ⟨_, .wait ms, rfl⟩
  · left
    cases o with
    | entity p => exact ⟨_, .noScope _ hscope, bind_of_error hrun⟩
    | transaction p => exact ⟨_, .noScope _ hscope, bind_of_error hrun⟩
    | relationship p => exact ⟨_, .noScope _ hscope, bind_of_error hrun⟩
    | field p => exact ⟨_, .noScope _ hscope, bind_of_error hrun⟩
    | request p => exact ⟨_, .noRequests p, rfl⟩
    | interaction p => exact ⟨_, .interaction p, rfl⟩
    | wait ms => exact ⟨_, .wait ms, rfl⟩

end Store

end ProcessTest
