import Quorum.Document
import Quorum.Json.Fields

/-!
# Server lists

A server list holds entries of key servers in the order in which they were first
registered.  A missing file stands for a list without entries.
-/

namespace Quorum

namespace ServerList

variable {m : Type → Type} [Monad m] [FileAccess m]

/-- The entries with a further one, which takes the place of the first one with the
same identifier. -/
def register (info : ServerInfo) : List ServerInfo → List ServerInfo
  | [] => [info]
  | first :: rest => if first.id = info.id then info :: rest else first :: register info rest

/-- Reads a server list; a missing file stands for a list without entries. -/
def load (path : String) : ExceptT DocumentError m (List ServerInfo) := do
  if ← FileAccess.isPresent path then
    FileAccess.loadJson .serverList ServerInfo.listOfJson? path
  else return []

/-- Registers an entry in the list in a file, and gives the list. -/
def update (path : String) (info : ServerInfo) :
    ExceptT DocumentError m (List ServerInfo) := do
  let infos := register info (← load path)
  FileAccess.storeJson path (ServerInfo.listToJson infos)
  return infos

end ServerList
end Quorum
