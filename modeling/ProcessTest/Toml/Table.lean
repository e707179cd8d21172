import ProcessTest.Value

/-!
# Tables of TOML

Tables grow line by line.  A table knows how it came about, since that decides what may still be
added to it.

* `Nodes.place?` — one more entry, below the tables of a dotted key.
* `Nodes.openTable?`, `Nodes.openItem?` — what a header adds.
* `Nodes.toEntries` — the finished map.
-/

set_option autoImplicit false

namespace ProcessTest.Toml

/-- How a table came about. -/
inductive Origin where
  /-- By a header of its own. -/
  | header
  /-- As a part of a longer header. -/
  | implied
  /-- By a dotted key. -/
  | dotted
  deriving DecidableEq

/-- What a key stands for while a document is read. -/
inductive Node where
  /-- A value, to which nothing can be added. -/
  | value (v : Value)
  | table (origin : Origin) (entries : List (String × Node))
  /-- The tables of a repeated header, the latest one first. -/
  | tables (latest : List (List (String × Node)))

/-- The entries of a table, in order. -/
abbrev Nodes := List (String × Node)

namespace Nodes

/-- Gives a key a node: in place where the key exists, at the end where it does not. -/
def put (key : String) (n : Node) : Nodes → Nodes
  | [] => [(key, n)]
  | (k, m) :: rest => if k = key then (k, n) :: rest else (k, m) :: put key n rest

/-- Without a key. -/
def erase (key : String) (nodes : Nodes) : Nodes := nodes.filter (·.1 ≠ key)

/-- Adds an entry below the tables of a dotted key.  The tables come about where they are missing;
of those that exist none may have a header of its own, and the last one must have come about by a
dotted key. -/
def place? (key : String) (v : Value) : List String → Nodes → Option Nodes
  | [], nodes =>
    match nodes.lookup key with
    | none => some (nodes ++ [(key, .value v)])
    | some _ => none
  | k :: path, nodes =>
    match nodes.lookup k with
    | none => (place? key v path []).map fun inner => put k (.table .dotted inner) nodes
    | some (.table origin inner) =>
      if origin = .header || (path.isEmpty && origin ≠ .dotted) then none
      else (place? key v path inner).map fun inner => put k (.table origin inner) nodes
    | some (.tables (latest :: earlier)) =>
      if path.isEmpty then none
      else (place? key v path latest).map fun latest => put k (.tables (latest :: earlier)) nodes
    | some (.tables []) | some (.value _) => none

/-- Changes the table that a header names.  Missing tables come about, and a repeated header stands
for its latest table. -/
def within? (change : Nodes → Option Nodes) : List String → Nodes → Option Nodes
  | [], nodes => change nodes
  | k :: path, nodes =>
    match nodes.lookup k with
    | none => (within? change path []).map fun inner => put k (.table .implied inner) nodes
    | some (.table origin inner) =>
      (within? change path inner).map fun inner => put k (.table origin inner) nodes
    | some (.tables (latest :: earlier)) =>
      (within? change path latest).map fun latest => put k (.tables (latest :: earlier)) nodes
    | some (.tables []) | some (.value _) => none

/-- Opens the table of a header.  Of a table that exists only as a part of longer headers the
entries stay, but it moves behind all others. -/
def openTable? (key : String) (nodes : Nodes) : Option Nodes :=
  match nodes.lookup key with
  | none => some (nodes ++ [(key, .table .header [])])
  | some (.table .implied inner) => some (erase key nodes ++ [(key, .table .header inner)])
  | some _ => none

/-- Opens one more table of a repeated header. -/
def openItem? (key : String) (nodes : Nodes) : Option Nodes :=
  match nodes.lookup key with
  | none => some (nodes ++ [(key, .tables [[]])])
  | some (.tables latest) => some (put key (.tables ([] :: latest)) nodes)
  | some _ => none

end Nodes

mutual

/-- The value of a node. -/
def Node.toValue : Node → Value
  | .value v => v
  | .table _ inner => .map (Nodes.toEntries inner)
  | .tables latest => .list (Nodes.toMaps latest).reverse

/-- The entries of a finished table. -/
def Nodes.toEntries : List (String × Node) → Entries
  | [] => []
  | (k, n) :: rest => (k, Node.toValue n) :: Nodes.toEntries rest

/-- The maps of finished tables. -/
def Nodes.toMaps : List (List (String × Node)) → List Value
  | [] => []
  | nodes :: rest => .map (Nodes.toEntries nodes) :: Nodes.toMaps rest

end

end ProcessTest.Toml
