import ProcessTest.CommandLine.Execution
import Std.Time.DateTime.Timestamp

/-!
# The program

Reads the arguments, works on the files of the machine, and prints.
-/

set_option autoImplicit false

namespace ProcessTest

/-- A failure of the machine as a cause. -/
def FileError.ofIO (e : IO.Error) : FileError :=
  let is (code : UInt32) (n : UInt32) : Bool := code == n || code == 0 - n
  match e with
  | .noFileOrDirectory .. => .missing
  | .alreadyExists .. => .existing
  | .inappropriateType _ code _ =>
    if is code 20 then .notDirectory else if is code 21 then .directory else .other (toString e)
  | _ => .other (toString e)

namespace Machine

/-- Does something with files. -/
def attempt {α : Type} (act : IO α) : IO (Except FileError α) := do
  try pure (.ok (← act)) catch e => pure (.error (FileError.ofIO e))

/-- A path as an entry of the machine. -/
def entry (path : String) : IO.FS.DirEntry := { root := path, fileName := "" }

/-- Writes behind the content of a file. -/
def append (path text : String) : IO Unit := do
  let handle ← IO.FS.Handle.mk path .append
  handle.putStr text

/-- The names in a directory. -/
def names (path : String) : IO (List String) := do
  let entries ← (entry path).root.readDir
  pure (entries.toList.map IO.FS.DirEntry.fileName)

/-- The files of the machine. -/
def files : FileSystem IO where
  read path := attempt (IO.FS.readFile path)
  write path text := attempt (IO.FS.writeFile path text)
  append path text := attempt (append path text)
  makeDirectory path := attempt (IO.FS.createDir path)
  holds path := (entry path).root.pathExists
  isDirectory path := (entry path).root.isDir
  names path := names path

/-- The mark of a run that begins now. -/
def mark : IO RunMark := do
  let time ← Std.Time.Timestamp.now
  pure (.ofNanoseconds time.toNanosecondsSinceUnixEpoch.val.toNat)

/-- Carries the command of arguments out; the answer is the exit code. -/
def run (arguments : List String) : IO UInt32 := do
  match Command.read? arguments with
  | none =>
    IO.eprint (Artifact.unlines Command.usage)
    pure 2
  | some command =>
    let outcome ← command.execute files (← mark)
    IO.print outcome.output
    IO.eprint outcome.complaints
    match outcome.failure with
    | none => pure 0
    | some cause =>
      IO.eprintln s!"error: {cause.message}"
      pure 1

end Machine

end ProcessTest

/-- The program. -/
def main (arguments : List String) : IO UInt32 := ProcessTest.Machine.run arguments
