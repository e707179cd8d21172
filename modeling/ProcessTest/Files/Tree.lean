import ProcessTest.Files.Path
import ProcessTest.Files.System

/-!
# File trees

Files and directories below a working directory, held in memory.  Nothing exists above it.

* `FileTree.ofFiles` — the tree of some files.
* `FileTree.read`, `FileTree.write`, `FileTree.append`, `FileTree.makeDirectory` — operations.
* `FileTree.system` — a tree as a file system.
-/

set_option autoImplicit false

namespace ProcessTest

/-- The way from the working directory to a file or directory. -/
abbrev FilePlace := List String

/-- Files with their contents, and directories other than the working directory. -/
structure FileTree where
  files : List (FilePlace × String)
  directories : List FilePlace
  deriving DecidableEq

/-- What is found at a place. -/
inductive FileEntry where
  | file (content : String)
  | directory
  deriving DecidableEq

namespace FileTree

/-- The empty tree. -/
def empty : FileTree := ⟨[], []⟩

/-- What is found at a place. -/
def entry? (t : FileTree) (place : FilePlace) : Option FileEntry :=
  if place.isEmpty || t.directories.contains place then some .directory
  else (t.files.lookup place).map .file

/-- The most bytes of a name. -/
def maxNameLength : Nat := 255

/-- The place to which steps lead, all but the last one of which must exist; the last one is a
directory if it is `.` or `..`. -/
def follow (t : FileTree) : FilePlace → List String → Except FileError FilePlace
  | place, [] => .ok place
  | place, step :: rest =>
    if step = "." then follow t place rest
    else if step = ".." then if place.isEmpty then .error .missing else follow t place.dropLast rest
    else if maxNameLength < step.utf8ByteSize then .error .nameTooLong
    else
      let next := place ++ [step]
      match t.entry? next, rest with
      | some .directory, _ => follow t next rest
      | _, [] => .ok next
      | some (.file _), _ :: _ => .error .notDirectory
      | none, _ :: _ => .error .missing

/-- The place of a path; the empty path and paths from the root have none. -/
def locate (t : FileTree) (path : String) : Except FileError FilePlace :=
  if path = "" || Path.isAbsolute path then .error .missing else t.follow [] (Path.steps path)

/-- What is found at a path. -/
def find (t : FileTree) (path : String) : Except FileError FileEntry := do
  match t.entry? (← t.locate path) with
  | some e => .ok e
  | none => .error .missing

/-- The content of a file. -/
def read (t : FileTree) (path : String) : Except FileError String := do
  match ← t.find path with
  | .file content => .ok content
  | .directory => .error .directory

/-- Whether there is something at a path. -/
def holds (t : FileTree) (path : String) : Bool := (t.find path).toOption.isSome

/-- Whether there is a directory at a path. -/
def isDirectory (t : FileTree) (path : String) : Bool :=
  (t.find path).toOption == some .directory

/-- Gives the file at a place a content: in place where it exists, behind all others where it does
not. -/
def putFile (place : FilePlace) (content : String) :
    List (FilePlace × String) → List (FilePlace × String)
  | [] => [(place, content)]
  | (p, c) :: rest =>
    if p = place then (place, content) :: rest else (p, c) :: putFile place content rest

/-- Changes the content of a file, which is nothing where the file does not exist.  A path with a
slash at its end names no file. -/
def modify (t : FileTree) (path : String) (change : String → String) :
    Except FileError FileTree := do
  let place ← t.locate (Path.dropSlashes path)
  match t.entry? place with
  | some .directory => .error .directory
  | found =>
    if Path.dropSlashes path ≠ path then .error .directory
    else
      let content := match found with
        | some (.file content) => content
        | _ => ""
      .ok { t with files := putFile place (change content) t.files }

/-- Writes a file. -/
def write (t : FileTree) (path content : String) : Except FileError FileTree :=
  t.modify path fun _ => content

/-- Writes behind the content of a file. -/
def append (t : FileTree) (path more : String) : Except FileError FileTree :=
  t.modify path fun content => content ++ more

/-- Makes a directory in an existing one. -/
def makeDirectory (t : FileTree) (path : String) : Except FileError FileTree := do
  let path := Path.dropSlashes path
  let place ← t.locate path
  match t.entry? place with
  | some _ => .error .existing
  | none => .ok { t with directories := t.directories ++ [place] }

/-- The names in a directory. -/
def names (t : FileTree) (path : String) : List String :=
  match t.locate path with
  | .error _ => []
  | .ok place => (t.files.map Prod.fst ++ t.directories).filterMap fun p =>
    if p.dropLast = place then p.getLast? else none

/-- The directories around places. -/
def around (places : List FilePlace) : List FilePlace :=
  (places.flatMap fun p => (List.range p.length).map fun n => p.take n).eraseDups.filter (· ≠ [])

/-- The tree of some files. -/
def ofFiles (files : List (String × String)) : FileTree :=
  let files := files.map fun (path, content) => (Path.steps path, content)
  ⟨files, around (files.map Prod.fst)⟩

/-- Carries an operation out that changes the tree if it succeeds. -/
def commit (change : FileTree → Except FileError FileTree) :
    StateM FileTree (Except FileError Unit) := fun t =>
  match change t with
  | .ok t => (.ok (), t)
  | .error cause => (.error cause, t)

/-- A tree as a file system. -/
def system : FileSystem (StateM FileTree) where
  read path := fun t => (t.read path, t)
  write path content := commit fun t => t.write path content
  append path more := commit fun t => t.append path more
  makeDirectory path := commit fun t => t.makeDirectory path
  holds path := fun t => (t.holds path, t)
  isDirectory path := fun t => (t.isDirectory path, t)
  names path := fun t => (t.names path, t)

end FileTree

end ProcessTest
