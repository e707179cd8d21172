import ProcessTest.Definition.Encoding
import ProcessTest.Digest.Blake3
import ProcessTest.Json.Text

/-!
# Fingerprints

* `Digest.ofText` — the hash of the UTF-8 bytes of a text, in hexadecimal digits.
* `Definition.canonical` — the JSON text that identifies a definition.
* `Definition.fingerprint` — its hash.
-/

set_option autoImplicit false

namespace ProcessTest

/-- The two hexadecimal digits of a byte. -/
def Digest.hexByte (b : UInt8) : List Char :=
  [Json.hexDigit (b.toNat / 16), Json.hexDigit (b.toNat % 16)]

/-- The hash of a text, marked with the name of the function. -/
def Digest.ofText (s : String) : String :=
  "blake3:" ++ String.ofList ((Blake3.hash s.toUTF8.toList).flatMap Digest.hexByte)

/-- The JSON text of a definition. -/
def Definition.canonical (d : Definition) : String := d.encode.json

/-- The hash that identifies a definition. -/
def Definition.fingerprint (d : Definition) : String := Digest.ofText d.canonical

end ProcessTest
