import Quorum.Error
import Quorum.Files
import Quorum.Json.Parser
import Quorum.Json.Printer
import Quorum.Path

/-!
# Documents in files

Files are read as bytes, as text, or as a JSON value of some form, and JSON values
are written to files in folders that are created if they are missing.  What is
said about a file that cannot be read depends on what it should hold.
-/

namespace Quorum

/-- The kinds of files that are read. -/
inductive FileKind where
  | keyFile
  | serverList
  | object
  | input
deriving DecidableEq

/-- What is said when a file of some kind cannot be read. -/
def FileKind.reading (path : String) : FileKind → String
  | keyFile => "reading key file " ++ path
  | serverList => "reading key servers " ++ path
  | object => "reading object " ++ path
  | input => "reading " ++ path

/-- Why a file cannot be used. -/
inductive DocumentError where
  | unreadable (kind : FileKind) (path : String)
  | unwritable (fault : FileFault)
  /-- The file is no JSON value of the form asked for. -/
  | notJson
  | masterKeyDigits (fault : Hex.Fault)
  | masterKeyLength
  | masterKeyValue (error : SealingError)
  | publicKeyMismatch (path : String)
deriving DecidableEq

/-- What is said about the error. -/
def DocumentError.message : DocumentError → String
  | unreadable kind path => kind.reading path
  | unwritable fault => fault.message
  | notJson => "JSON value of the expected form not found"
  | masterKeyDigits fault => fault.message
  | masterKeyLength => "Invalid master key length"
  | masterKeyValue error => error.message
  | publicKeyMismatch path => "Key file " ++ path ++ " has a mismatched public key"

variable {m : Type → Type} [Monad m] [FileAccess m]

namespace FileAccess

/-- The contents of a file, which must be readable. -/
def load (kind : FileKind) (path : String) : ExceptT DocumentError m (List UInt8) := do
  match ← readFile path with
  | .ok contents => return contents
  | .error _ => throw (.unreadable kind path)

/-- The text in a file. -/
def loadText (kind : FileKind) (path : String) : ExceptT DocumentError m String := do
  match ofUtf8? (← load kind path) with
  | some text => return text
  | none => throw (.unreadable kind path)

/-- Gives a file new contents. -/
def store (path : String) (contents : List UInt8) : ExceptT DocumentError m Unit := do
  match ← writeFile path contents with
  | .ok () => return ()
  | .error fault => throw (.unwritable fault)

/-- The value that a JSON text in a file holds; `ofJson?` tells its form. -/
def loadJson {α : Type} (kind : FileKind) (ofJson? : Json → Option α) (path : String) :
    ExceptT DocumentError m α := do
  match (Json.parse? (← loadText kind path)).bind ofJson? with
  | some value => return value
  | none => throw .notJson

/-- Writes a JSON value into a file, in a folder that is created if it is missing. -/
def storeJson (path : String) (json : Json) : ExceptT DocumentError m Unit := do
  let folder := Path.folder path
  if folder ≠ "" then
    match ← createFolders folder with
    | .ok () => pure ()
    | .error fault => throw (.unwritable fault)
  store path (utf8 json.pretty)

end FileAccess

end Quorum
