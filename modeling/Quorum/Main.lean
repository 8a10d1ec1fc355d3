import Quorum.Bls.Suite
import Quorum.CommandLine.Run

/-!
# The program

Runs the command that its arguments give on the files of the system, with random
bytes of the system.
-/

namespace Quorum

/-- A failed file operation of the system. -/
def FileFault.ofSystem : IO.Error → FileFault
  | .noFileOrDirectory .. => .notFound
  | .alreadyExists .. => .alreadyExists
  | .inappropriateType _ code description =>
    if code = 20 then .notFolder
    else if code = 21 then .isFolder
    else .other description
  | .invalidArgument _ code description =>
    if code = 36 then .nameTooLong else .other description
  | error => .other (toString error)

/-- The result of a file operation of the system. -/
def outcome {α : Type} (operation : IO α) : IO (Except FileFault α) := do
  try
    let result ← operation
    return .ok result
  catch error => return .error (.ofSystem error)

/-- Files of the system.  A path leads to something unless it cannot be followed. -/
instance : FileAccess IO where
  readFile path := outcome do
    let contents ← IO.FS.readBinFile path
    return contents.toList
  isPresent path := do
    match ← outcome (IO.FS.Handle.mk path .read) with
    | .error .notFound | .error .notFolder => return false
    | _ => return true
  writeFile path contents := outcome (IO.FS.writeBinFile path ⟨contents.toArray⟩)
  createFolders path := outcome (IO.FS.createDirAll path)

/-- More random bytes than any command takes. -/
def systemRandom : IO RandomSource := do
  let bytes ← IO.getRandomBytes 65536
  return SplitMix.source bytes.data 0

end Quorum

open Quorum CommandLine

/-- Prints what the command prints; the exit code tells whether it was understood, was
refused or broke off. -/
def main (arguments : List String) : IO UInt32 := do
  let some command := Command.parse? arguments
    | IO.eprint usage
      return 2
  let random ← systemRandom
  match ← (command.run Bls.suite random).run with
  | .ok output =>
    let stdout ← IO.getStdout
    stdout.write ⟨output.toArray⟩
    stdout.flush
    return 0
  | .error error =>
    IO.eprintln ("Error: " ++ error.message)
    return if error = .crash then 101 else 1
