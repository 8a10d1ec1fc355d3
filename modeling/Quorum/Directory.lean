import Quorum.Client

/-!
# Resolving key servers

A directory knows what is registered about each key server.  Its entries are
trusted only after the server has proved that it holds the master key behind the
registered public key, for its identifier and address.
-/

namespace Quorum

/-- What is registered, by identifier.  A directory may give the entry of another
server for some identifiers. -/
structure Directory where
  entries : Table ObjectId ServerInfo := Table.empty
  redirects : Table ObjectId ServerInfo := Table.empty

namespace Directory

/-- Registers a key server in place of any other with its identifier. -/
def insert (directory : Directory) (info : ServerInfo) : Directory :=
  { directory with entries := directory.entries.insert info.id info }

/-- The directory with the given entries; the last one of each identifier
counts. -/
def ofList (infos : List ServerInfo) : Directory where
  entries := Table.ofList (infos.map fun info => (info.id, info))

/-- The entry of a key server. -/
def get? (directory : Directory) (id : ObjectId) : Option ServerInfo :=
  directory.entries.get? id

/-- What the directory answers for an identifier. -/
def resolve (directory : Directory) (id : ObjectId) : Except ServiceError ServerInfo :=
  match (directory.redirects.get? id).or (directory.entries.get? id) with
  | some info => .ok info
  | none => .error (.notFound id)

end Directory

namespace Verification

variable {m : Type → Type} [Monad m]

/-- Resolves an identifier and checks the proof of the server.  Both the directory
and the servers are asked through actions in a monad. -/
def verifyServer (suite : PairingSuite)
    (resolve : ObjectId → m (Except RequestFailure ServerInfo)) (prove : String → m Answer)
    (id : ObjectId) : ExceptT RequestFailure m ServerInfo := do
  let info ← ExceptT.mk (resolve id)
  if info.id ≠ id then
    throw (.error (.notFound id))
  let proof ← ExceptT.mk (prove info.url)
  match Ibe.decode2 suite info.publicKey with
  | .error error => throw (.error (.sealing error))
  | .ok publicKey =>
    match (Ibe.decode1 suite proof).bind
        (Ibe.verifyPossession suite publicKey info.id info.url) with
    | .error _ => throw (.error (.invalidProofOfPossession id))
    | .ok () => return info

/-- Resolves identifiers one after the other, up to the first that fails. -/
def verifyServers (suite : PairingSuite)
    (resolve : ObjectId → m (Except RequestFailure ServerInfo)) (prove : String → m Answer) :
    List ObjectId → ExceptT RequestFailure m (List ServerInfo)
  | [] => return []
  | id :: rest => do
    let info ← verifyServer suite resolve prove id
    let infos ← verifyServers suite resolve prove rest
    return info :: infos

/-- The verified servers as a set to seal for. -/
def verifiedSet (suite : PairingSuite)
    (resolve : ObjectId → m (Except RequestFailure ServerInfo)) (prove : String → m Answer)
    (ids : List ObjectId) : ExceptT RequestFailure m (ServerSet suite) := do
  let infos ← verifyServers suite resolve prove ids
  match ServerSet.ofInfos suite infos with
  | .error error => throw (.error (.sealing error))
  | .ok set => return set

end Verification

/-- The entries of a directory for the given identifiers, after the servers have
proved possession to a client. -/
def Directory.verified (suite : PairingSuite) (directory : Directory) (client : Client)
    (ids : List ObjectId) : Except RequestFailure (List ServerInfo) :=
  Id.run (Verification.verifyServers suite
    (fun id => ((directory.resolve id).mapError .error : Except RequestFailure ServerInfo))
    client.provePossession ids).run

/-- The set of the verified servers. -/
def Directory.verifiedSet (suite : PairingSuite) (directory : Directory) (client : Client)
    (ids : List ObjectId) : Except RequestFailure (ServerSet suite) :=
  Id.run (Verification.verifiedSet suite
    (fun id => ((directory.resolve id).mapError .error : Except RequestFailure ServerInfo))
    client.provePossession ids).run

end Quorum
