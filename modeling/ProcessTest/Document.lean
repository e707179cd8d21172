import ProcessTest.Json.Reader
import ProcessTest.Text.Cut
import ProcessTest.Toml.Reader
import ProcessTest.Yaml.Reader

/-!
# Document texts

A document is written in one of three formats.

* `Format.ofPath` — the format that a file's name stands for.
* `Format.read?` — the value tree of a text.
-/

set_option autoImplicit false

namespace ProcessTest

/-- The formats of documents. -/
inductive Format where
  | yaml
  | json
  | toml
  deriving DecidableEq

namespace Format

def all : List Format := [.yaml, .json, .toml]

/-- The name in messages, in lower case. -/
def name : Format → String
  | .yaml => "yaml"
  | .json => "json"
  | .toml => "toml"

/-- The message for a text that is no document of the format. -/
def failureText : Format → String
  | .yaml => "YAML parse error"
  | .json => "JSON parse error"
  | .toml => "TOML parse error"

/-- The value tree of a text. -/
def read? : Format → String → Option Value
  | .yaml, s => Yaml.read? s
  | .json, s => Json.read? s
  | .toml, s => Toml.read? s

/-- The last segment of a path; `/` at its end and `/.` behind a segment do not count. -/
def lastSegment (path : List Char) : List Char :=
  ((Text.splitAt '/' path).reverse.dropWhile fun s => s = [] || s = ['.']).headD []

/-- What stands behind the last point of a file's name, unless the name begins with that point. -/
def extension? (path : String) : Option (List Char) :=
  let segment := lastSegment path.toList
  if segment = ['.', '.'] then none
  else match (Text.splitAt '.' segment).reverse with
    | [] | [_] | [_, []] => none
    | ext :: _ => some ext

/-- The format that the extension stands for, in any case of its letters; YAML for all others. -/
def ofPath (path : String) : Format :=
  match (extension? path).map fun ext => Text.lowerAscii (String.ofList ext) with
  | some "json" => .json
  | some "toml" => .toml
  | _ => .yaml

end Format

end ProcessTest
