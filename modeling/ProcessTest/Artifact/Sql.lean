import ProcessTest.Template

/-!
# SQL tokens

* `Sql.quoted`, `Sql.identifier` — string literals and names; a quote inside is written twice.
* `Sql.literal` — the literal of a value tree.
* `Sql.expression` — the text expression of a template, whose placeholders become variables of
  the client that runs the script.
-/

set_option autoImplicit false

namespace ProcessTest.Artifact.Sql

/-- The characters with every quote written twice. -/
def doubled (quote : Char) : List Char → List Char
  | [] => []
  | c :: cs => if c = quote then quote :: quote :: doubled quote cs else c :: doubled quote cs

/-- A token in quotes. -/
def enclosed (quote : Char) (s : String) : String :=
  String.ofList (quote :: doubled quote s.toList ++ [quote])

/-- A string literal. -/
def quoted (s : String) : String := enclosed '\'' s

/-- The characters that may begin a name without quotes. -/
def isLead (c : Char) : Bool := c.isLower || c == '_'

/-- Whether a name needs no quotes. -/
def isBare : List Char → Bool
  | [] => false
  | c :: cs => isLead c && cs.all fun d => isLead d || d.isDigit

/-- A name, in quotes unless it is a plain one in lower case. -/
def identifier (name : String) : String :=
  if isBare name.toList then name else enclosed '"' name

/-- The literal of a value tree. -/
def literal : Value → String
  | .null => "NULL"
  | .bool true => "TRUE"
  | .bool false => "FALSE"
  | .number n => n.text
  | .text s => quoted s
  | v => quoted v.json ++ "::jsonb"

/-- The variable of a placeholder's key: `customer.id` becomes `customer_id`. -/
def variableOf (key : List Char) : String :=
  String.ofList ((Text.trim key).map fun c => if c.isAlphanum then c.toLower else '_')

/-- The operands of a text expression, without empty literals. -/
def operands : List Template.Piece → List String
  | [] => []
  | .verbatim [] :: rest => operands rest
  | .verbatim cs :: rest => quoted (String.ofList cs) :: operands rest
  | .placeholder key :: rest => (":" ++ quoted (variableOf key)) :: operands rest

/-- The variables of the placeholders, added to those in use, each once. -/
def variableNames (used : List String) : List Template.Piece → List String
  | [] => used
  | .verbatim _ :: rest => variableNames used rest
  | .placeholder key :: rest =>
    let name := variableOf key
    variableNames (if used.contains name then used else used ++ [name]) rest

/-- The text expression of a template, and the variables in use after it. -/
def expression (used : List String) (template : String) : String × List String :=
  let pieces := Template.pieces template.toList
  (" || ".intercalate (operands pieces), variableNames used pieces)

end ProcessTest.Artifact.Sql
