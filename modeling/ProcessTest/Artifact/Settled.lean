import ProcessTest.Artifact.Lines
import ProcessTest.Definition.Decoding
import ProcessTest.Definition.Encoding
import ProcessTest.Template

/-!
# What is known before a run

An artifact is written before anything has run, so only the document's own bindings can be filled
in.  A tree is settled when that leaves no placeholder.
-/

set_option autoImplicit false

namespace ProcessTest

/-- The bindings that a definition gives by itself. -/
def Definition.bindings (d : Definition) : Bindings := .ofSetting d.setting

/-- The filled tree, if no placeholder is left in it. -/
def Value.settled? (b : Bindings) (v : Value) : Option Value :=
  let filled := Template.resolve b v
  if (Template.allKeys filled).isEmpty then some filled else none

/-- The filled rule, if no placeholder is left in it. -/
def Rule.settled? (b : Bindings) (r : Rule) : Option Rule :=
  (r.encode.settled? b).bind fun v => (Rule.decode .direct v).toOption

end ProcessTest
