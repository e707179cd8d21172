import ProcessTest.Definition.Encoding
import ProcessTest.Json.Text

/-!
# Serial forms

What a value offers to whoever writes it down.  The keys of a map may be of any form here; a value
tree takes only those that have a text, so that writing a serial form down can fail.

* `Serial.toValue` — the value tree of a serial form.
* `Value.serial`, `LineItem.serial` — the serial forms of a value tree and of a transaction line.
* `toValue_serial` — a value tree can be written down, and stays what it is.
-/

set_option autoImplicit false

namespace ProcessTest

/-- What a value offers to whoever writes it down. -/
inductive Serial where
  | null
  | bool (b : Bool)
  | number (n : Number)
  | text (s : String)
  | list (items : List Serial)
  | map (entries : List (Serial × Serial))

/-- Why a serial form cannot be written down. -/
inductive SerialError where
  /-- A key of a map has no text. -/
  | key
  deriving DecidableEq

/-- The wording of a failure to write. -/
def SerialError.message : SerialError → String
  | .key => "key must be a string"

namespace Serial

/-- The key of a serial form: a scalar serves by its text. -/
def key : Serial → Except SerialError String
  | .text s => .ok s
  | .bool b => .ok (if b then "true" else "false")
  | .number n => .ok n.text
  | .null | .list _ | .map _ => .error .key

mutual

/-- The value tree of a serial form. -/
def toValue : Serial → Except SerialError Value
  | .null => .ok .null
  | .bool b => .ok (.bool b)
  | .number n => .ok (.number n)
  | .text s => .ok (.text s)
  | .list items => (toItems items).map .list
  | .map entries => (toEntries entries).map .map

/-- The value tree of every item. -/
def toItems : List Serial → Except SerialError (List Value)
  | [] => .ok []
  | form :: rest => do
    let v ← toValue form
    let more ← toItems rest
    pure (v :: more)

/-- The key and the value tree of every entry. -/
def toEntries : List (Serial × Serial) → Except SerialError Entries
  | [] => .ok []
  | (k, form) :: rest => do
    let key ← k.key
    let v ← toValue form
    let more ← toEntries rest
    pure ((key, v) :: more)

end

end Serial

namespace Value

mutual

/-- The serial form of a value tree. -/
def serial : Value → Serial
  | .null => .null
  | .bool b => .bool b
  | .number n => .number n
  | .text s => .text s
  | .list items => .list (serialItems items)
  | .map entries => .map (serialEntries entries)

/-- The serial form of every item. -/
def serialItems : List Value → List Serial
  | [] => []
  | v :: rest => serial v :: serialItems rest

/-- The serial form of every entry, whose key is a text. -/
def serialEntries : List (String × Value) → List (Serial × Serial)
  | [] => []
  | (k, v) :: rest => (.text k, serial v) :: serialEntries rest

end

mutual

/-- **A value tree can always be written down**, and stays what it is. -/
theorem toValue_serial : (v : Value) → v.serial.toValue = .ok v
  | .null | .bool _ | .number _ | .text _ => rfl
  | .list items => by rw [serial, Serial.toValue, toItems_serialItems]; rfl
  | .map entries => by rw [serial, Serial.toValue, toEntries_serialEntries]; rfl

theorem toItems_serialItems : (items : List Value) →
    Serial.toItems (serialItems items) = .ok items
  | [] => rfl
  | v :: rest => by
    rw [serialItems, Serial.toItems, toValue_serial v, toItems_serialItems rest]
    rfl

theorem toEntries_serialEntries : (entries : Entries) →
    Serial.toEntries (serialEntries entries) = .ok entries
  | [] => rfl
  | (k, v) :: rest => by
    rw [serialEntries, Serial.toEntries, toValue_serial v, toEntries_serialEntries rest]
    rfl

end

end Value

/-- The serial form of a transaction line: a map of its fields. -/
def LineItem.serial (l : LineItem) : Serial := .map (Value.serialEntries l.fields)

theorem LineItem.toValue_serial (l : LineItem) : l.serial.toValue = .ok l.encode :=
  Value.toValue_serial (.map l.fields)

end ProcessTest
