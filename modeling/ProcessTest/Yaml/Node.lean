import ProcessTest.Yaml.Token

/-!
# Nodes of YAML

The tree of a document as its tokens describe it, with tags and anchors but without any reading of
scalars.  A value that is missing is an empty plain scalar.

* `Node.ofTokens?` — the node of the only document, or nothing if there is no document at all.
-/

set_option autoImplicit false

namespace ProcessTest.Yaml

/-- A node whose aliases are of type `α`. -/
inductive Node (α : Type) where
  | alias (target : α)
  | scalar (anchor tag : Option String) (plain : Bool) (text : String)
  | sequence (anchor tag : Option String) (items : List (Node α))
  | mapping (anchor tag : Option String) (entries : List (Node α × Node α))

/-- A node whose aliases are names. -/
abbrev NamedNode := Node String

/-- The handles of a document with what they stand for. -/
abbrev Handles := List (String × String)

/-- The handles that every document has. -/
def Handles.default : Handles := [("!", "!"), ("!!", "tag:yaml.org,2002:")]

/-- The full form of a tag. -/
def Handles.expand? (handles : Handles) (handle : Option String) (suffix : String) :
    Option String :=
  match handle with
  | none => some suffix
  | some name => (handles.lookup name).map (· ++ suffix)

/-- A value that is missing. -/
def emptyNode : NamedNode := .scalar none none true ""

/-- Anchor and tag in front of a node. -/
structure Properties where
  anchor : Option String
  tag : Option String

/-- Reads anchor and tag, in any order, each at most once. -/
def properties? (handles : Handles) : List Token → Option (Properties × List Token)
  | .anchor name :: .tag handle suffix :: rest | .tag handle suffix :: .anchor name :: rest =>
    (handles.expand? handle suffix).map fun tag => (⟨some name, some tag⟩, rest)
  | .anchor name :: rest => some (⟨some name, none⟩, rest)
  | .tag handle suffix :: rest =>
    (handles.expand? handle suffix).map fun tag => (⟨none, some tag⟩, rest)
  | ts => some (⟨none, none⟩, ts)

/-- A scalar; the tag `!` alone counts as none. -/
def Properties.scalarNode (p : Properties) (plain : Bool) (text : String) : NamedNode :=
  .scalar p.anchor (p.tag.filter (· != "!")) plain text

/-- A missing scalar behind properties. -/
def Properties.emptyNode (p : Properties) : NamedNode := .scalar p.anchor p.tag true ""

/-- Whether one of the given tokens comes next; the end counts as none of them. -/
def next (stops : List Token) : List Token → Bool
  | [] => false
  | t :: _ => stops.contains t

/-- Where a node stands. -/
inductive NodePlace where
  /-- As an item of a block sequence, or as the document. -/
  | block
  /-- As a key or value of a block mapping, where the items of a sequence need no indentation. -/
  | blockEntry
  /-- Inside brackets. -/
  | flow
  deriving DecidableEq

mutual

/-- One node.  Each call takes at least one token or hands on to one that does, so that `fuel`
bounds the depth of calls. -/
def node? (handles : Handles) (fuel : Nat) (place : NodePlace) (ts : List Token) :
    Option (NamedNode × List Token) :=
  match fuel with
  | 0 => none
  | fuel + 1 =>
    match ts with
    | .alias name :: rest => some (.alias name, rest)
    | ts => do
      let (p, ts) ← properties? handles ts
      let hasProperties := p.anchor.isSome || p.tag.isSome
      match ts with
      | .scalar plain text :: rest => some (p.scalarNode plain text, rest)
      | .flowSequence :: rest => do
        let (items, rest) ← flowItems? handles fuel true rest
        some (.sequence p.anchor p.tag items, rest)
      | .flowMapping :: rest => do
        let (entries, rest) ← flowEntries? handles fuel true rest
        some (.mapping p.anchor p.tag entries, rest)
      | .blockEntry :: _ =>
        if place = .blockEntry then do
          let (items, rest) ← openItems? handles fuel ts
          some (.sequence p.anchor p.tag items, rest)
        else if hasProperties then some (p.emptyNode, ts)
        else none
      | .blockSequence :: rest =>
        if place = .flow then if hasProperties then some (p.emptyNode, ts) else none
        else do
          let (items, rest) ← blockItems? handles fuel rest
          some (.sequence p.anchor p.tag items, rest)
      | .blockMapping :: rest =>
        if place = .flow then if hasProperties then some (p.emptyNode, ts) else none
        else do
          let (entries, rest) ← blockEntries? handles fuel rest
          some (.mapping p.anchor p.tag entries, rest)
      | ts => if hasProperties then some (p.emptyNode, ts) else none

/-- A node, or the empty one in front of a token that cannot begin one. -/
def nodeUnless? (handles : Handles) (fuel : Nat) (stops : List Token) (place : NodePlace)
    (ts : List Token) : Option (NamedNode × List Token) :=
  match fuel with
  | 0 => none
  | fuel + 1 => if next stops ts then some (emptyNode, ts) else node? handles fuel place ts

/-- The items of a block sequence, up to its end. -/
def blockItems? (handles : Handles) (fuel : Nat) (ts : List Token) :
    Option (List NamedNode × List Token) :=
  match fuel with
  | 0 => none
  | fuel + 1 =>
    match ts with
    | .blockEntry :: rest => do
      let (item, rest) ← nodeUnless? handles fuel [.blockEntry, .blockEnd] .block rest
      let (items, rest) ← blockItems? handles fuel rest
      some (item :: items, rest)
    | .blockEnd :: rest => some ([], rest)
    | _ => none

/-- The items of a sequence without indentation, which ends where no further item begins. -/
def openItems? (handles : Handles) (fuel : Nat) (ts : List Token) :
    Option (List NamedNode × List Token) :=
  match fuel with
  | 0 => none
  | fuel + 1 =>
    match ts with
    | .blockEntry :: rest => do
      let (item, rest) ←
        nodeUnless? handles fuel [.blockEntry, .key, .value, .blockEnd] .block rest
      let (items, rest) ← openItems? handles fuel rest
      some (item :: items, rest)
    | ts => some ([], ts)

/-- The value of an entry of a block mapping, which may be missing. -/
def blockValue? (handles : Handles) (fuel : Nat) (ts : List Token) :
    Option (NamedNode × List Token) :=
  match fuel with
  | 0 => none
  | fuel + 1 =>
    match ts with
    | .value :: rest => nodeUnless? handles fuel [.key, .value, .blockEnd] .blockEntry rest
    | ts => some (emptyNode, ts)

/-- The entries of a block mapping, up to its end. -/
def blockEntries? (handles : Handles) (fuel : Nat) (ts : List Token) :
    Option (List (NamedNode × NamedNode) × List Token) :=
  match fuel with
  | 0 => none
  | fuel + 1 =>
    match ts with
    | .key :: rest => do
      let (key, rest) ← nodeUnless? handles fuel [.key, .value, .blockEnd] .blockEntry rest
      let (value, rest) ← blockValue? handles fuel rest
      let (entries, rest) ← blockEntries? handles fuel rest
      some ((key, value) :: entries, rest)
    | .blockEnd :: rest => some ([], rest)
    | _ => none

/-- The value of an entry inside brackets, which may be missing. -/
def flowValue? (handles : Handles) (fuel : Nat) (close : Token) (ts : List Token) :
    Option (NamedNode × List Token) :=
  match fuel with
  | 0 => none
  | fuel + 1 =>
    match ts with
    | .value :: rest => nodeUnless? handles fuel [.flowEntry, close] .flow rest
    | ts => some (emptyNode, ts)

/-- The items of a sequence in brackets, up to its end.  A single entry may stand as an item; a
mark for its key must have a key behind it. -/
def flowItems? (handles : Handles) (fuel : Nat) (first : Bool) (ts : List Token) :
    Option (List NamedNode × List Token) :=
  match fuel with
  | 0 => none
  | fuel + 1 =>
    match ts with
    | .flowSequenceEnd :: rest => some ([], rest)
    | ts => do
      let ts ← if first then some ts else match ts with
        | .flowEntry :: rest => some rest
        | _ => none
      match ts with
      | .flowSequenceEnd :: rest => some ([], rest)
      | .key :: rest => do
        let (key, rest) ←
          if next [.value, .flowEntry, .flowSequenceEnd] rest then some (emptyNode, rest.drop 1)
          else node? handles fuel .flow rest
        let (value, rest) ← flowValue? handles fuel .flowSequenceEnd rest
        let (items, rest) ← flowItems? handles fuel false rest
        some (.mapping none none [(key, value)] :: items, rest)
      | ts => do
        let (item, rest) ← node? handles fuel .flow ts
        let (items, rest) ← flowItems? handles fuel false rest
        some (item :: items, rest)

/-- The entries of a mapping in brackets, up to its end.  A node without a mark is a key without a
value. -/
def flowEntries? (handles : Handles) (fuel : Nat) (first : Bool) (ts : List Token) :
    Option (List (NamedNode × NamedNode) × List Token) :=
  match fuel with
  | 0 => none
  | fuel + 1 =>
    match ts with
    | .flowMappingEnd :: rest => some ([], rest)
    | ts => do
      let ts ← if first then some ts else match ts with
        | .flowEntry :: rest => some rest
        | _ => none
      match ts with
      | .flowMappingEnd :: rest => some ([], rest)
      | .key :: rest => do
        let (key, rest) ←
          nodeUnless? handles fuel [.value, .flowEntry, .flowMappingEnd] .flow rest
        let (value, rest) ← flowValue? handles fuel .flowMappingEnd rest
        let (entries, rest) ← flowEntries? handles fuel false rest
        some ((key, value) :: entries, rest)
      | ts => do
        let (key, rest) ← node? handles fuel .flow ts
        let (entries, rest) ← flowEntries? handles fuel false rest
        some ((key, emptyNode) :: entries, rest)

end

/-- The directives of a document: the handles, and whether a version has been given. -/
structure Directives where
  handles : Handles
  version : Bool
  any : Bool

/-- Reads the directives in front of a document.  Versions other than 1.1 and 1.2 are refused,
and so is a directive that is given twice. -/
def directives? (d : Directives) : List Token → Option (Directives × List Token)
  | .version major minor :: rest =>
    if d.version || major != 1 || (minor != 1 && minor != 2) then none
    else directives? { d with version := true, any := true } rest
  | .handle name stem :: rest =>
    if (d.handles.lookup name).isSome then none
    else directives? { d with handles := d.handles ++ [(name, stem)], any := true } rest
  | ts => some (d, ts)

/-- Whether nothing but marks of ended documents is left. -/
def onlyEnds (ts : List Token) : Bool := ts.all (· == .documentEnd)

/-- The node of the only document; nothing inside if there is no document at all. -/
def Node.ofTokens? (ts : List Token) : Option (Option NamedNode) := do
  if ts.isEmpty then some none
  else
    let (d, rest) ← directives? ⟨[], false, false⟩ ts
    let handles : Handles := d.handles ++ .default
    let fuel := 4 * ts.length + 4
    let (root, rest) ← match rest with
      | .documentStart :: rest =>
        if rest.isEmpty || next [.documentStart, .documentEnd] rest ||
            rest.head?.any (fun t => match t with
              | .version .. | .handle .. => true
              | _ => false) then
          some (emptyNode, rest)
        else node? handles fuel .block rest
      | rest => if d.any then none else node? handles fuel .block rest
    if onlyEnds rest then some (some root) else none

end ProcessTest.Yaml
