import ProcessTest.Number.Binary64

/-!
# Value trees

The untyped form of a document, of a stored record and of everything a run binds to a name.
A map keeps its entries in the order in which the keys first appeared.

* `Entries.get?`, `Entries.put` — look-up, and writing that replaces in place or appends.
* `Value.agrees` — equality as data: the order of map entries does not count, and the two
  floating zeros are one number.
-/

set_option autoImplicit false

namespace ProcessTest

/-- A number is a whole number or a double; the two kinds never equal each other. -/
inductive Number where
  | int (n : Int)
  | double (x : Binary64)
  deriving DecidableEq, Repr

/-- A value tree. -/
inductive Value where
  | null
  | bool (b : Bool)
  | number (n : Number)
  | text (s : String)
  | list (items : List Value)
  | map (entries : List (String × Value))
  deriving Repr, Inhabited

/-- The entries of a map, in order. -/
abbrev Entries := List (String × Value)

/-- Equality of numbers as data. -/
def Number.agrees : Number → Number → Bool
  | .int m, .int n => m == n
  | .double x, .double y => x.sameNumber y
  | _, _ => false

namespace Entries

/-- The value of a key. -/
def get? (key : String) : Entries → Option Value
  | [] => none
  | (k, v) :: rest => if k = key then some v else get? key rest

/-- The keys in order. -/
def keys (entries : Entries) : List String := entries.map Prod.fst

/-- Gives a key a value: in place where the key exists, at the end where it does not. -/
def put (key : String) (value : Value) : Entries → Entries
  | [] => [(key, value)]
  | (k, v) :: rest => if k = key then (k, value) :: rest else (k, v) :: put key value rest

/-- Writes the entries of the second map over the first, left to right. -/
def merge (entries more : Entries) : Entries :=
  more.foldl (fun acc e => put e.1 e.2 acc) entries

theorem get?_isSome_iff {key : String} {entries : Entries} :
    (get? key entries).isSome = true ↔ key ∈ entries.keys := by
  induction entries with
  | nil => simp [get?, keys]
  | cons e rest ih =>
    obtain ⟨k, v⟩ := e
    by_cases h : k = key
    · simp [get?, keys, h]
    · simp only [get?, h, if_false, ih, keys, List.map_cons, List.mem_cons]
      simp [Ne.symm h]

@[simp] theorem get?_append (key : String) (es fs : Entries) :
    get? key (es ++ fs) = (get? key es).or (get? key fs) := by
  induction es with
  | nil => rfl
  | cons e rest ih =>
    obtain ⟨k, v⟩ := e
    by_cases h : k = key
    · simp [get?, h]
    · simp [get?, h, ih]

end Entries

namespace Value

/-- A whole number as a value. -/
def ofNat (n : Nat) : Value := .number (.int n)

/-- The field of a map. -/
def field? (key : String) : Value → Option Value
  | .map entries => Entries.get? key entries
  | _ => none

/-- The text of a text value. -/
def text? : Value → Option String
  | .text s => some s
  | _ => none

/-- The items of a list value. -/
def items? : Value → Option (List Value)
  | .list items => some items
  | _ => none

/-- The entries of a map value. -/
def entries? : Value → Option Entries
  | .map entries => some entries
  | _ => none

/-- A whole number that is not negative. -/
def natural? : Value → Option Nat
  | .number (.int (.ofNat n)) => some n
  | _ => none

/-- Texts, numbers and truth values. -/
def isScalar : Value → Bool
  | .text _ | .number _ | .bool _ => true
  | _ => false

mutual

/-- Equality as data: maps are compared by key, without regard to the order of their entries. -/
def agrees : Value → Value → Bool
  | .null, .null => true
  | .bool a, .bool b => a == b
  | .number m, .number n => m.agrees n
  | .text s, .text t => s == t
  | .list xs, .list ys => agreesList xs ys
  | .map es, .map fs => es.length == fs.length && agreesEntries es fs
  | _, _ => false

/-- Item by item. -/
def agreesList : List Value → List Value → Bool
  | [], [] => true
  | x :: xs, y :: ys => agrees x y && agreesList xs ys
  | _, _ => false

/-- Every entry on the left has an agreeing one on the right. -/
def agreesEntries : List (String × Value) → Entries → Bool
  | [], _ => true
  | (k, v) :: rest, fs =>
    (match Entries.get? k fs with
      | some w => agrees v w
      | none => false) && agreesEntries rest fs

end

mutual

/-- Identity of value trees is decidable. -/
def decEq : (v w : Value) → Decidable (v = w)
  | .null, .null => isTrue rfl
  | .bool a, .bool b =>
    if h : a = b then isTrue (by rw [h]) else isFalse (by simp [h])
  | .number m, .number n =>
    if h : m = n then isTrue (by rw [h]) else isFalse (by simp [h])
  | .text s, .text t =>
    if h : s = t then isTrue (by rw [h]) else isFalse (by simp [h])
  | .list xs, .list ys =>
    match decEqList xs ys with
    | isTrue h => isTrue (by rw [h])
    | isFalse h => isFalse (by simp [h])
  | .map es, .map fs =>
    match decEqEntries es fs with
    | isTrue h => isTrue (by rw [h])
    | isFalse h => isFalse (by simp [h])
  | .null, .bool _ | .null, .number _ | .null, .text _ | .null, .list _ | .null, .map _
  | .bool _, .null | .bool _, .number _ | .bool _, .text _ | .bool _, .list _ | .bool _, .map _
  | .number _, .null | .number _, .bool _ | .number _, .text _ | .number _, .list _
  | .number _, .map _
  | .text _, .null | .text _, .bool _ | .text _, .number _ | .text _, .list _ | .text _, .map _
  | .list _, .null | .list _, .bool _ | .list _, .number _ | .list _, .text _ | .list _, .map _
  | .map _, .null | .map _, .bool _ | .map _, .number _ | .map _, .text _ | .map _, .list _ =>
    isFalse nofun

/-- Identity of item lists is decidable. -/
def decEqList : (xs ys : List Value) → Decidable (xs = ys)
  | [], [] => isTrue rfl
  | [], _ :: _ | _ :: _, [] => isFalse nofun
  | x :: xs, y :: ys =>
    match decEq x y, decEqList xs ys with
    | isTrue h, isTrue hs => isTrue (by rw [h, hs])
    | isFalse h, _ => isFalse (by simp [h])
    | _, isFalse hs => isFalse (by simp [hs])

/-- Identity of entry lists is decidable. -/
def decEqEntries : (es fs : List (String × Value)) → Decidable (es = fs)
  | [], [] => isTrue rfl
  | [], _ :: _ | _ :: _, [] => isFalse nofun
  | (k, v) :: es, (l, w) :: fs =>
    match decEq v w, decEqEntries es fs with
    | isTrue h, isTrue hs =>
      if hk : k = l then isTrue (by rw [hk, h, hs]) else isFalse (by simp [hk])
    | isFalse h, _ => isFalse (by simp [h])
    | _, isFalse hs => isFalse (by simp [hs])

end

instance : DecidableEq Value := decEq

mutual

/-- No map in the tree has a key twice. -/
def distinctKeys : Value → Prop
  | .list items => distinctKeysList items
  | .map entries => (entries.map Prod.fst).Nodup ∧ distinctKeysEntries entries
  | _ => True

/-- The same for every item. -/
def distinctKeysList : List Value → Prop
  | [] => True
  | v :: rest => distinctKeys v ∧ distinctKeysList rest

/-- The same for every entry. -/
def distinctKeysEntries : List (String × Value) → Prop
  | [] => True
  | (_, v) :: rest => distinctKeys v ∧ distinctKeysEntries rest

end

end Value

end ProcessTest
