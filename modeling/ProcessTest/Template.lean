import ProcessTest.Bindings
import ProcessTest.Clock
import ProcessTest.Json.Text
import ProcessTest.Text.Blank

/-!
# Templates

Text with placeholders, each a key between `{{` and the next `}}`.  A key is a path into the
bindings, or `clock` shifted by seconds, as in `clock+3600`.

* `Template.fill` — text with the values of the placeholders that resolve; what has been put in
  is not looked at again, and all else stays as it is.
* `Template.resolve` — fills every text of a value tree; a text that is one placeholder becomes
  the value itself.
* `Template.resolveText` — the same, but every text stays a text.
* `Template.keys`, `Template.hasPlaceholder` — the placeholders of a text.
* `Template.pieces` — a text cut into verbatim parts and placeholders.
-/

set_option autoImplicit false

namespace ProcessTest.Template

/-! ## Keys -/

/-- The seconds of a shift behind `clock`: a sign and a whole number, blanks allowed. -/
def offset? (cs : List Char) : Option Int :=
  match Text.trim cs with
  | '+' :: rest => Text.readInt64? (Text.trim rest)
  | '-' :: rest => (Text.readInt64? (Text.trim rest)).map (-·)
  | _ => none

/-- The shift of a key that names a shifted clock. -/
def clockShift? (key : List Char) : Option Int :=
  (Text.dropMark? "clock".toList key).bind offset?

/-- The value that a key names. -/
def lookup? (b : Bindings) (key : List Char) : Option Value :=
  match clockShift? key with
  | some seconds => do
    let clock ← (← b.get? "clock").text?
    (Clock.shift? clock seconds).map .text
  | none => b.lookup? (String.ofList key)

/-- The name that a key depends on. -/
def rootName (key : String) : String :=
  let head := key.toList.takeWhile (· != '.')
  if (clockShift? head).isSome then "clock" else String.ofList head

/-! ## Text -/

/-- The walk of `fill`: outside placeholders, or behind `{{` with the key so far, last character
first. -/
def fillFrom (value? : List Char → Option (List Char)) : Option (List Char) → List Char → List Char
  | none, '{' :: '{' :: rest => fillFrom value? (some []) rest
  | none, c :: rest => c :: fillFrom value? none rest
  | none, [] => []
  | some key, '}' :: '}' :: rest =>
    (value? (Text.trim key.reverse)).getD ('{' :: '{' :: key.reverse ++ ['}', '}']) ++
      fillFrom value? none rest
  | some key, c :: rest => fillFrom value? (some (c :: key)) rest
  | some key, [] => '{' :: '{' :: key.reverse

/-- The text with the values of the placeholders that resolve. -/
def fill (s : String) (b : Bindings) : String :=
  String.ofList (fillFrom (fun key => (lookup? b key).map (·.plain.toList)) none s.toList)

/-- The walk of `keys`. -/
def keysFrom : Option (List Char) → List Char → List String
  | none, '{' :: '{' :: rest => keysFrom (some []) rest
  | none, _ :: rest => keysFrom none rest
  | some key, '}' :: '}' :: rest => String.ofList (Text.trim key.reverse) :: keysFrom none rest
  | some key, c :: rest => keysFrom (some (c :: key)) rest
  | _, [] => []

/-- The keys of the placeholders, in order. -/
def keys (s : String) : List String := keysFrom none s.toList

/-- A part of a text: verbatim characters, or a placeholder with its key as written. -/
inductive Piece where
  | verbatim (cs : List Char)
  | placeholder (key : List Char)
  deriving DecidableEq, Repr

theorem length_of_cut? {mark cs before rest : List Char}
    (h : Text.cut? mark cs = some (before, rest)) :
    before.length + mark.length + rest.length = cs.length := by
  rw [Text.append_of_cut? h]
  simp [Nat.add_assoc]

/-- The parts of a text, cut again and again at the first opening mark and the first closing mark
behind it.  Verbatim parts may be empty. -/
def pieces (cs : List Char) : List Piece :=
  match h : Text.cut? ['{', '{'] cs with
  | none => [.verbatim cs]
  | some (before, inner) =>
    match g : Text.cut? ['}', '}'] inner with
    | none => [.verbatim cs]
    | some (key, rest) =>
      have : rest.length < cs.length := by
        have := length_of_cut? h
        have := length_of_cut? g
        simp only [List.length_cons, List.length_nil] at *
        omega
      .verbatim before :: .placeholder key :: pieces rest
termination_by cs.length

/-- Whether an opening mark is followed by a closing one. -/
def hasPlaceholder (s : String) : Bool :=
  match Text.cut? ['{', '{'] s.toList with
  | some (_, rest) => Text.holds ['}', '}'] rest
  | none => false

/-- The key of a text that is one placeholder and nothing else. -/
def sole? (s : String) : Option (List Char) := do
  let inner ← Text.dropEnd? ['}', '}'] (← Text.dropMark? ['{', '{'] s.toList)
  if Text.holds ['{', '{'] inner || Text.holds ['}', '}'] inner then none
  else some (Text.trim inner)

/-! ## Value trees -/

/-- The value of a text. -/
def value (s : String) (b : Bindings) : Value :=
  ((sole? s).bind (lookup? b)).getD (.text (fill s b))

mutual

/-- Fills every text of a tree; keys of maps stay as they are. -/
def resolve (b : Bindings) : Value → Value
  | .text s => value s b
  | .list items => .list (resolveItems b items)
  | .map entries => .map (resolveEntries b entries)
  | v => v

/-- Every item. -/
def resolveItems (b : Bindings) : List Value → List Value
  | [] => []
  | v :: rest => resolve b v :: resolveItems b rest

/-- The value of every entry. -/
def resolveEntries (b : Bindings) : List (String × Value) → List (String × Value)
  | [] => []
  | (k, v) :: rest => (k, resolve b v) :: resolveEntries b rest

end

mutual

/-- Fills every text of a tree; texts stay texts. -/
def resolveText (b : Bindings) : Value → Value
  | .text s => .text (fill s b)
  | .list items => .list (resolveTextItems b items)
  | .map entries => .map (resolveTextEntries b entries)
  | v => v

/-- Every item. -/
def resolveTextItems (b : Bindings) : List Value → List Value
  | [] => []
  | v :: rest => resolveText b v :: resolveTextItems b rest

/-- The value of every entry. -/
def resolveTextEntries (b : Bindings) : List (String × Value) → List (String × Value)
  | [] => []
  | (k, v) :: rest => (k, resolveText b v) :: resolveTextEntries b rest

end

mutual

/-- The texts of a tree, in document order. -/
def texts : Value → List String
  | .text s => [s]
  | .list items => textsOfItems items
  | .map entries => textsOfEntries entries
  | _ => []

/-- The texts of all items. -/
def textsOfItems : List Value → List String
  | [] => []
  | v :: rest => texts v ++ textsOfItems rest

/-- The texts of the values of all entries. -/
def textsOfEntries : List (String × Value) → List String
  | [] => []
  | (_, v) :: rest => texts v ++ textsOfEntries rest

end

/-- Adds what is not yet in a list. -/
def addNew (seen more : List String) : List String :=
  more.foldl (fun seen k => if seen.contains k then seen else seen ++ [k]) seen

/-- The distinct keys of all texts of a tree, in document order. -/
def allKeys (v : Value) : List String := addNew [] ((texts v).flatMap keys)

end ProcessTest.Template
