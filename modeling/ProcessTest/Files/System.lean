import ProcessTest.Files.Path

/-!
# File systems

What the command line needs of the files around it.

* `FileError` — why an operation fails.
* `FileSystem` — the operations, in any monad.
* `FileSystem.makeDirectories` — makes a directory and those around it.
-/

set_option autoImplicit false

namespace ProcessTest

/-- Why an operation on files fails. -/
inductive FileError where
  | missing
  | existing
  | notDirectory
  | directory
  | nameTooLong
  | other (text : String)
  deriving DecidableEq

/-- The wording of a failure. -/
def FileError.message : FileError → String
  | .missing => "No such file or directory (os error 2)"
  | .existing => "File exists (os error 17)"
  | .notDirectory => "Not a directory (os error 20)"
  | .directory => "Is a directory (os error 21)"
  | .nameTooLong => "File name too long (os error 36)"
  | .other text => text

/-- Operations on files; paths begin in the working directory unless they begin at the root. -/
structure FileSystem (m : Type → Type) where
  /-- The content of a file. -/
  read : String → m (Except FileError String)
  /-- Writes a file, which may exist. -/
  write : String → String → m (Except FileError Unit)
  /-- Writes behind the content of a file, which need not exist. -/
  append : String → String → m (Except FileError Unit)
  /-- Makes a directory in an existing one. -/
  makeDirectory : String → m (Except FileError Unit)
  /-- Whether there is something at a path. -/
  holds : String → m Bool
  /-- Whether there is a directory at a path. -/
  isDirectory : String → m Bool
  /-- The names in a directory, in any order. -/
  names : String → m (List String)

namespace FileSystem

variable {m : Type → Type} [Monad m]

/-- Makes a directory in an existing one, unless it exists itself. -/
def ensureDirectory (fs : FileSystem m) (path : String) : m (Except FileError Unit) := do
  match ← fs.makeDirectory path with
  | .ok () => pure (.ok ())
  | .error cause => if ← fs.isDirectory path then pure (.ok ()) else pure (.error cause)

/-- Makes a directory and those around it, of which there are fewer than `fuel`. -/
def makeDirectoriesWithin (fs : FileSystem m) : Nat → String → m (Except FileError Unit)
  | 0, _ => pure (.ok ())
  | fuel + 1, path => do
    if path = "" then pure (.ok ())
    else match ← fs.ensureDirectory path with
      | .error .missing => match Path.parent? path with
        | none => pure (.error .missing)
        | some around => match ← fs.makeDirectoriesWithin fuel around with
          | .error cause => pure (.error cause)
          | .ok () => fs.ensureDirectory path
      | done => pure done

/-- Makes a directory and those around it, where they are missing. -/
def makeDirectories (fs : FileSystem m) (path : String) : m (Except FileError Unit) :=
  fs.makeDirectoriesWithin (path.length + 1) path

end FileSystem

end ProcessTest
