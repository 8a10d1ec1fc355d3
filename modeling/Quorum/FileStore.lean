import Quorum.Files
import Quorum.Path
import Quorum.Table

/-!
# Files as a value

A `FileStore` holds folders, and files with their contents, by the names that lead
to them from the root.  A path is followed in two steps.  `spot` goes through
all folders that it passes and stops at its last name; `look` tells what is
there.  Between them lies what the operations do differently: a file is created
where there is none, but not at a path that ends in a slash.
-/

namespace Quorum

/-- Folders and files. -/
structure FileStore where
  files : Table (List String) (List UInt8) := Table.empty
  /-- The folders other than the root. -/
  folders : List (List String) := []
  /-- The folder in which paths start that do not start at the root. -/
  current : List String := []

namespace FileStore

/-- Where a path ends. -/
inductive Spot where
  /-- In a folder that is passed. -/
  | folder
  /-- At a name in such a folder; a slash may follow it. -/
  | name (place : List String) (slash : Bool)
deriving DecidableEq

/-- What is at a place. -/
inductive Found where
  | folder
  | file (contents : List UInt8)
  | nothing
deriving DecidableEq

/-- Follows the parts of a path from a folder. -/
def follow (store : FileStore) : (folder names : List String) → Except FileFault Spot
  | _, [] => .ok .folder
  | folder, name :: rest =>
    if Path.isHere name then follow store folder rest
    else if name = ".." then follow store folder.dropLast rest
    else if rest.all (· = "") then .ok (.name (folder ++ [name]) (!rest.isEmpty))
    else if Path.isTooLong name then .error .nameTooLong
    else if folder ++ [name] ∈ store.folders then follow store (folder ++ [name]) rest
    else if store.files.contains (folder ++ [name]) then .error .notFolder
    else .error .notFound

/-- The folder in which a path starts. -/
def start (store : FileStore) (path : String) : List String :=
  if Path.isAbsolute path then [] else store.current

/-- Refuses a path that cannot be followed whatever there is. -/
def checkPath (path : String) : Except FileFault Unit :=
  if path.toList.contains (Char.ofNat 0) then .error .zeroInPath
  else if path = "" then .error .notFound
  else if Path.maxLength < (utf8 path).length then .error .nameTooLong
  else .ok ()

/-- Where a path ends. -/
def spot (store : FileStore) (path : String) : Except FileFault Spot := do
  checkPath path
  store.follow (store.start path) (Path.parts path)

/-- What is at a place in a folder. -/
def look (store : FileStore) (place : List String) : Except FileFault Found :=
  if Path.isTooLong (place.getLast?.getD "") then .error .nameTooLong
  else if place ∈ store.folders then .ok .folder
  else
    match store.files.get? place with
    | some contents => .ok (.file contents)
    | none => .ok .nothing

/-- What a path leads to; what is before a slash must be a folder. -/
def locate (store : FileStore) (path : String) : Except FileFault Found := do
  match ← store.spot path with
  | .folder => return .folder
  | .name place slash =>
    match ← store.look place with
    | .file contents => if slash then throw .notFolder else return .file contents
    | found => return found

/-- The contents of the file at a path. -/
def read (store : FileStore) (path : String) : Except FileFault (List UInt8) := do
  match ← store.locate path with
  | .folder => throw .isFolder
  | .file contents => return contents
  | .nothing => throw .notFound

/-- Whether a path leads to a file or a folder. -/
def contains (store : FileStore) (path : String) : Bool :=
  match store.locate path with
  | .ok .folder => true
  | .ok (.file _) => true
  | _ => false

/-- The store in which the file at a path has the given contents. -/
def write (store : FileStore) (path : String) (contents : List UInt8) :
    Except FileFault FileStore := do
  match ← store.spot path with
  | .folder => throw .isFolder
  | .name _ true => throw .isFolder
  | .name place false =>
    match ← store.look place with
    | .folder => throw .isFolder
    | _ => return { store with files := store.files.insert place contents }

/-- Creates the folders that a path names from a folder on, as far as they are
missing; `created` tells whether one has been.  What has been created before a fault
remains.  A file cannot be passed, and it cannot be replaced by the folder that is to
be created next, which is the last one or follows a created one. -/
def create (store : FileStore) (created : Bool) :
    (folder names : List String) → Except FileFault Unit × FileStore
  | _, [] => (.ok (), store)
  | folder, name :: rest =>
    if Path.isHere name then create store created folder rest
    else if name = ".." then create store created folder.dropLast rest
    else if Path.isTooLong name then (.error .nameTooLong, store)
    else
      let here := folder ++ [name]
      if here ∈ store.folders then create store created here rest
      else if store.files.contains here then
        (.error (if created || rest.all Path.isHere then .alreadyExists else .notFolder), store)
      else create { store with folders := here :: store.folders } true here rest

/-- Creates the folder at a path and the folders that it is in, as far as they are
missing. -/
def createFolders (store : FileStore) (path : String) : Except FileFault Unit × FileStore :=
  match checkPath path with
  | .error fault => (.error fault, store)
  | .ok () => store.create false (store.start path) (Path.parts path)

instance : FileAccess (StateM FileStore) where
  readFile path := fun store => (store.read path, store)
  isPresent path := fun store => (store.contains path, store)
  writeFile path contents := fun store =>
    match store.write path contents with
    | .error fault => (.error fault, store)
    | .ok store => (.ok (), store)
  createFolders path := fun store => store.createFolders path

end FileStore
end Quorum
