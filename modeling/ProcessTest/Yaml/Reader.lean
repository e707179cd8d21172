import ProcessTest.Yaml.Core
import ProcessTest.Yaml.Node

/-!
# Reading YAML

* `Yaml.read?` — the value of a text with at most one document.

Aliases stand for the node with their anchor.  How often they are followed is limited by the size
of the document, and so is how deep collections may be nested, so a node that contains itself has
no value.  Of two entries with one key the later value counts, at the place of the earlier key.
-/

set_option autoImplicit false

namespace ProcessTest.Yaml

/-! ## Anchors -/

/-- A node whose aliases are numbers of anchors. -/
abbrev LinkedNode := Node Nat

/-- The names of anchors with their numbers, each name once. -/
abbrev AnchorNumbers := List (String × Nat)

/-- Gives a name a number. -/
def AnchorNumbers.put (name : String) (number : Nat) : AnchorNumbers → AnchorNumbers
  | [] => [(name, number)]
  | (n, k) :: rest =>
    if n = name then (name, number) :: rest else (n, k) :: put name number rest

/-- The anchored nodes of a document with their numbers, in document order. -/
abbrev Anchored := List (Nat × LinkedNode)

/-- What linking a part of a document comes to. -/
structure Linked (α : Type) where
  part : α
  numbers : AnchorNumbers
  anchored : Anchored

/-- Numbers the anchor of a node: the number of names seen before it. -/
def numberAnchor (anchor : Option String) (numbers : AnchorNumbers) :
    Option Nat × AnchorNumbers :=
  match anchor with
  | none => (none, numbers)
  | some name => (some numbers.length, numbers.put name numbers.length)

/-- The entry of an anchored node. -/
def anchoredAs (number : Option Nat) (n : LinkedNode) : Anchored :=
  match number with
  | some k => [(k, n)]
  | none => []

mutual

/-- Replaces names of aliases by numbers; fails at a name that has not been seen. -/
def link? (numbers : AnchorNumbers) : NamedNode → Option (Linked LinkedNode)
  | .alias name => (numbers.lookup name).map fun k => ⟨.alias k, numbers, []⟩
  | .scalar anchor tag plain text =>
    let (number, numbers) := numberAnchor anchor numbers
    let n : LinkedNode := .scalar anchor tag plain text
    some ⟨n, numbers, anchoredAs number n⟩
  | .sequence anchor tag items => do
    let (number, numbers) := numberAnchor anchor numbers
    let linked ← linkItems? numbers items
    let n : LinkedNode := .sequence anchor tag linked.part
    some ⟨n, linked.numbers, anchoredAs number n ++ linked.anchored⟩
  | .mapping anchor tag entries => do
    let (number, numbers) := numberAnchor anchor numbers
    let linked ← linkEntries? numbers entries
    let n : LinkedNode := .mapping anchor tag linked.part
    some ⟨n, linked.numbers, anchoredAs number n ++ linked.anchored⟩

/-- The same for items in order. -/
def linkItems? (numbers : AnchorNumbers) : List NamedNode → Option (Linked (List LinkedNode))
  | [] => some ⟨[], numbers, []⟩
  | n :: rest => do
    let first ← link? numbers n
    let more ← linkItems? first.numbers rest
    some ⟨first.part :: more.part, more.numbers, first.anchored ++ more.anchored⟩

/-- The same for entries in order, the key before the value. -/
def linkEntries? (numbers : AnchorNumbers) :
    List (NamedNode × NamedNode) → Option (Linked (List (LinkedNode × LinkedNode)))
  | [] => some ⟨[], numbers, []⟩
  | (k, v) :: rest => do
    let key ← link? numbers k
    let value ← link? key.numbers v
    let more ← linkEntries? value.numbers rest
    some ⟨(key.part, value.part) :: more.part, more.numbers,
      key.anchored ++ value.anchored ++ more.anchored⟩

end

/-- The last anchored node of a number. -/
def Anchored.find? (anchored : Anchored) (number : Nat) : Option LinkedNode :=
  anchored.reverse.lookup number

mutual

/-- The number of marks by which a node is described: one for a scalar or an alias, one for each
end of a collection. -/
def weight : LinkedNode → Nat
  | .alias _ | .scalar .. => 1
  | .sequence _ _ items => 2 + weightOfItems items
  | .mapping _ _ entries => 2 + weightOfEntries entries

/-- The sum over items. -/
def weightOfItems : List LinkedNode → Nat
  | [] => 0
  | n :: rest => weight n + weightOfItems rest

/-- The sum over entries. -/
def weightOfEntries : List (LinkedNode × LinkedNode) → Nat
  | [] => 0
  | (k, v) :: rest => weight k + weight v + weightOfEntries rest

end

/-! ## Values -/

/-- How deep collections may be nested. -/
def depthLimit : Nat := 128

/-- How often aliases may be followed for each mark of a document. -/
def aliasLimit : Nat := 100

/-- Follows an alias; `left` says how many more may be followed. -/
def follow? (anchored : Anchored) (left : Nat) (n : LinkedNode) : Option (LinkedNode × Nat) :=
  match n with
  | .alias number =>
    match left with
    | 0 => none
    | left + 1 => (anchored.find? number).map (·, left)
  | n => some (n, left)

/-- The value of a scalar. -/
def scalarValue? (tag : Option String) (plain : Bool) (text : String) : Option Value :=
  match tag with
  | some tag => if tag.toList.head? = some '!' then none else taggedValue? tag text
  | none =>
    if plain then
      match plainValue text with
      | .value v => some v
      | .tooLarge => none
    else some (.text text)

/-- Whether a collection may have a tag; one that begins with an exclamation mark is refused. -/
def allowsTag (tag : Option String) : Bool :=
  !(tag.any fun tag => tag.toList.head? = some '!')

/-- A key: the text of a scalar as it is written. -/
def keyText? : LinkedNode → Option String
  | .scalar _ _ _ text => some text
  | _ => none

/-- The values of items in order, each by the given reader. -/
def itemValues? (value? : Nat → LinkedNode → Option (Value × Nat)) :
    Nat → List LinkedNode → Option (List Value × Nat)
  | left, [] => some ([], left)
  | left, n :: rest => do
    let (v, left) ← value? left n
    let (vs, left) ← itemValues? value? left rest
    some (v :: vs, left)

/-- The entries in order, added to those before them. -/
def entryValues? (anchored : Anchored) (value? : Nat → LinkedNode → Option (Value × Nat)) :
    Nat → Entries → List (LinkedNode × LinkedNode) → Option (Entries × Nat)
  | left, before, [] => some (before, left)
  | left, before, (k, n) :: rest => do
    let (k, left) ← follow? anchored left k
    let key ← keyText? k
    let (v, left) ← value? left n
    entryValues? anchored value? left (before.put key v) rest

/-- The value of a node whose collections are nested at most `depth` deep. -/
def value? (anchored : Anchored) (depth left : Nat) (n : LinkedNode) : Option (Value × Nat) :=
  match depth with
  | 0 => do
    let (n, left) ← follow? anchored left n
    match n with
    | .scalar _ tag plain text => (scalarValue? tag plain text).map (·, left)
    | _ => none
  | depth + 1 => do
    let (n, left) ← follow? anchored left n
    match n with
    | .alias _ => none
    | .scalar _ tag plain text => (scalarValue? tag plain text).map (·, left)
    | .sequence _ tag items =>
      if !allowsTag tag then none
      else
        let (vs, left) ← itemValues? (value? anchored depth) left items
        some (.list vs, left)
    | .mapping _ tag entries =>
      if !allowsTag tag then none
      else
        let (es, left) ← entryValues? anchored (value? anchored depth) left [] entries
        some (.map es, left)

/-- The value of a text with at most one document; without a document it is null. -/
def read? (s : String) : Option Value := do
  let tokens ← Token.ofSource? (← spots? s)
  match ← Node.ofTokens? tokens with
  | none => some .null
  | some root =>
    let linked ← link? [] root
    let left := aliasLimit * weight linked.part
    (value? linked.anchored depthLimit left linked.part).map (·.1)

end ProcessTest.Yaml
