import ProcessTest.Definition
import ProcessTest.Text.Cut
import ProcessTest.Text.Digits

/-!
# Bindings

The names a run has bound so far, in the order in which they were bound.  A bound name is never
bound again: the first value stays.

* `Bindings.bind`, `Bindings.absorb` — binding one name, and all names of other bindings.
* `Bindings.lookup?` — the value at a path such as `customer.tags.1`.
* `Bindings.ofSetting`, `Bindings.seeded` — what is bound before anything runs.
-/

set_option autoImplicit false

namespace ProcessTest

/-- Names with their values, no name twice. -/
structure Bindings where
  entries : Entries
  distinct : (entries.map Prod.fst).Nodup

namespace Bindings

/-- Nothing bound. -/
def empty : Bindings := ⟨[], by simp⟩

/-- The names in the order in which they were bound. -/
def names (b : Bindings) : List String := b.entries.map Prod.fst

/-- The value of a name. -/
def get? (b : Bindings) (name : String) : Option Value := Entries.get? name b.entries

/-- Whether a name is bound. -/
def binds (b : Bindings) (name : String) : Bool := (b.get? name).isSome

/-- The number of names. -/
def size (b : Bindings) : Nat := b.entries.length

theorem binds_iff {b : Bindings} {name : String} : b.binds name = true ↔ name ∈ b.names := by
  simpa [binds, get?, names, Entries.keys] using Entries.get?_isSome_iff

/-- Binds a name, unless it is bound already. -/
def bind (b : Bindings) (name : String) (value : Value) : Bindings :=
  if h : b.binds name = true then b
  else
    { entries := b.entries ++ [(name, value)]
      distinct := by
        have hn : name ∉ b.entries.map Prod.fst := fun hm => h (binds_iff.2 hm)
        have hd := b.distinct
        simp only [List.map_append, List.map_cons, List.map_nil]
        exact List.nodup_append.2 ⟨hd, by simp, by rintro a ha c hc rfl; simp_all⟩ }

/-- Binds every entry in order; the first value of a name stays. -/
def bindAll (b : Bindings) (entries : Entries) : Bindings :=
  entries.foldl (fun b e => b.bind e.1 e.2) b

/-- Adds the entries of other bindings whose names are free, and counts them. -/
def absorb (b other : Bindings) : Bindings × Nat :=
  other.entries.foldl
    (fun (b, n) e => if b.binds e.1 then (b, n) else (b.bind e.1 e.2, n + 1)) (b, 0)

/-- The value behind the further segments of a path; a number selects an item of a list. -/
def descend? : Value → List (List Char) → Option Value
  | v, [] => some v
  | .map entries, segment :: rest =>
    (Entries.get? (String.ofList segment) entries).bind (descend? · rest)
  | .list items, segment :: rest =>
    ((Text.readUpTo? Text.maxWord segment).bind (items[·]?)).bind (descend? · rest)
  | _, _ :: _ => none

/-- The value at a path: a name, and segments after points. -/
def lookup? (b : Bindings) (path : String) : Option Value :=
  match Text.splitAt '.' path.toList with
  | head :: rest => (b.get? (String.ofList head)).bind (descend? · rest)
  | [] => none

/-- Equality without regard to the order in which the names were bound. -/
def agrees (b other : Bindings) : Bool := (Value.map b.entries).agrees (.map other.entries)

/-- The names that are bound before anything runs. -/
def seededNames : List String :=
  ["timestamp", "clock", "organization_id", "tenant", "currency", "locale"]

/-- What the document itself binds. -/
def ofSetting (s : Setting) : Bindings :=
  let time : Entries := match s.clock with
    | some clock => [("timestamp", .text clock), ("clock", .text clock)]
    | none => []
  let tenant : Entries := match s.tenant with
    | some tenant => [("tenant", .text tenant)]
    | none => []
  empty.bindAll (time ++ [("organization_id", .text s.organization)] ++ tenant ++
    [("currency", .text s.currency), ("locale", .text s.locale)])

/-- What is bound at the start of a run: the timestamp is the document's clock, or else the
time of the start. -/
def seeded (s : Setting) (now : String) : Bindings := (ofSetting s).bind "timestamp" (.text now)

end Bindings

end ProcessTest
