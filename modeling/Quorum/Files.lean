import Quorum.Bytes

/-!
# Files

Programs reach files through four operations in a monad of their own, so that
they can be run on a file system or on a value.
-/

namespace Quorum

/-- Why a file operation fails. -/
inductive FileFault where
  | notFound
  | isFolder
  | notFolder
  | alreadyExists
  | nameTooLong
  /-- The path has a character that no name can have. -/
  | zeroInPath
  | other (text : String)
deriving DecidableEq

/-- What is said about a fault. -/
def FileFault.message : FileFault → String
  | notFound => "No such file or directory (os error 2)"
  | isFolder => "Is a directory (os error 21)"
  | notFolder => "Not a directory (os error 20)"
  | alreadyExists => "File exists (os error 17)"
  | nameTooLong => "File name too long (os error 36)"
  | zeroInPath => "file name contained an unexpected NUL byte"
  | other text => text

/-- Access to files. -/
class FileAccess (m : Type → Type) where
  /-- The contents of a file. -/
  readFile : (path : String) → m (Except FileFault (List UInt8))
  /-- Whether there is a file or a folder at a path. -/
  isPresent : (path : String) → m Bool
  /-- Gives a file new contents; the folder that it is in must exist. -/
  writeFile : (path : String) → (contents : List UInt8) → m (Except FileFault Unit)
  /-- Creates a folder and all folders that it is in, as far as they are
  missing. -/
  createFolders : (path : String) → m (Except FileFault Unit)

/-- Programs that can fail reach files as those do that cannot. -/
instance {m : Type → Type} {ε : Type} [Monad m] [FileAccess m] : FileAccess (ExceptT ε m) where
  readFile path := ExceptT.lift (FileAccess.readFile path)
  isPresent path := ExceptT.lift (FileAccess.isPresent path)
  writeFile path contents := ExceptT.lift (FileAccess.writeFile path contents)
  createFolders path := ExceptT.lift (FileAccess.createFolders path)

/-- The text whose UTF-8 form is given. -/
def ofUtf8? (bytes : List UInt8) : Option String := String.fromUTF8? ⟨bytes.toArray⟩

end Quorum
