import ProcessTest.Text.Cut

/-!
# Paths

Paths are texts with segments between slashes.  Empty segments do not count, and nor does a segment
`.` behind another one.

* `Path.parent?`, `Path.join` — the path around a path, and one below it.
* `Path.steps` — the segments to follow from the place where a path begins.
-/

set_option autoImplicit false

namespace ProcessTest.Path

/-- Segments, the last one first, without those at the end that do not count; the first segment
always stays. -/
def dropIdle : List (List Char) → List (List Char)
  | s :: t :: rest => if s = [] || s = ['.'] then dropIdle (t :: rest) else s :: t :: rest
  | segments => segments

/-- The path that a path lies in; none for the root and for the empty path. -/
def parent? (path : String) : Option String :=
  match dropIdle (Text.splitAt '/' path.toList).reverse with
  | [] | [[]] => none
  | _ :: around =>
    match dropIdle around with
    | [[]] => some "/"
    | segments => some ("/".intercalate (segments.reverse.map String.ofList))

/-- A path below another one; a path from the root stays as it is. -/
def join (path below : String) : String :=
  if path = "" || below.toList.head? = some '/' then below
  else if path.toList.getLast? = some '/' then path ++ below
  else path ++ "/" ++ below

/-- Whether a path begins at the root. -/
def isAbsolute (path : String) : Bool := path.toList.head? == some '/'

/-- The segments to follow.  A slash at the end is a last step `.`, which only directories
allow. -/
def steps (path : String) : List String :=
  let segments := Text.splitAt '/' path.toList
  let slash := 1 < segments.length && segments.getLast? = some []
  (segments.filter (· ≠ [])).map String.ofList ++ (if slash then ["."] else [])

/-- A path without the slashes at its end. -/
def dropSlashes (path : String) : String :=
  String.ofList (path.toList.reverse.dropWhile (· == '/')).reverse

end ProcessTest.Path
