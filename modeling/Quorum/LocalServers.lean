import Quorum.Directory

/-!
# Key servers in the same process

Key servers that are reached by address without a network.  They issue a key to
whoever asks; a server can be made to fail, to answer wrongly or to be late.
-/

namespace Quorum

/-- How a server answers. -/
inductive Behavior where
  | honest
  /-- It cannot be reached. -/
  | offline
  /-- Its keys and proofs do not verify. -/
  | corrupt
  /-- It issues keys honestly, but with a delay. -/
  | slow (milliseconds : Nat)
deriving DecidableEq

/-- A server with its master key. -/
structure LocalServer (suite : PairingSuite) where
  id : ObjectId
  masterKey : suite.Scalar
  behavior : Behavior

/-- Servers by their address, and how many keys they have issued. -/
structure LocalServers (suite : PairingSuite) where
  servers : Table String (LocalServer suite) := Table.empty
  served : Nat := 0

namespace LocalServers

variable {suite : PairingSuite}

/-- What is to be registered about a server with the given master key. -/
def describe (id : ObjectId) (name url : String) (masterKey : suite.Scalar) : ServerInfo where
  id := id
  name := name
  url := url
  publicKey := suite.encode2 (Ibe.publicKey suite masterKey)

/-- Puts an honest server at an address, in place of any other. -/
def add (servers : LocalServers suite) (id : ObjectId) (name url : String)
    (masterKey : suite.Scalar) : ServerInfo × LocalServers suite :=
  (describe id name url masterKey,
    { servers with servers := servers.servers.insert url ⟨id, masterKey, .honest⟩ })

/-- Puts a server with a fresh master key at an address. -/
def generate (servers : LocalServers suite) (id : ObjectId) (name url : String)
    (random : RandomSource) :
    Except Failure ((ServerInfo × LocalServers suite) × RandomSource) := do
  let (masterKey, random) ← Ibe.drawScalar suite random
  return (servers.add id name url masterKey, random)

/-- Changes how the server at an address answers, if there is one. -/
def setBehavior (servers : LocalServers suite) (url : String) (behavior : Behavior) :
    LocalServers suite :=
  match servers.servers.get? url with
  | some server =>
    { servers with servers := servers.servers.insert url { server with behavior } }
  | none => servers

/-- The server at an address, if it can be reached. -/
def reach (servers : LocalServers suite) (url : String) :
    Except ServiceError (LocalServer suite) :=
  match servers.servers.get? url with
  | none => .error (.transport (.noServer url))
  | some server =>
    if server.behavior = .offline then .error (.transport (.unreachable url))
    else .ok server

/-- The proof of possession of the server at an address. -/
def provePossession (servers : LocalServers suite) (url : String) :
    Except ServiceError (Bytes 48) := do
  let server ← servers.reach url
  let signed := if server.behavior = .corrupt then url ++ "/forged" else url
  return suite.encode1 (Ibe.provePossession suite server.masterKey server.id signed)

/-- The key that a server issues for an identity. -/
def issue (server : LocalServer suite) (identity : List UInt8) : Bytes 48 :=
  let identity := if server.behavior = .corrupt then identity ++ [0] else identity
  suite.encode1 (Ibe.extract suite server.masterKey identity)

/-- The answer to a request for a key. -/
def requestKey (servers : LocalServers suite) (url : String) (request : KeyRequest) : Reply :=
  match servers.reach url with
  | .error error => { answer := .error (.error error) }
  | .ok server =>
    if request.identity = [] then
      { answer := .error (.error (.transport .noIdentity)) }
    else {
      answer := .ok (issue server request.identity)
      delay := match server.behavior with
        | .slow milliseconds => milliseconds
        | _ => 0
      issued := true }

/-- The servers after they have issued further keys. -/
def record (servers : LocalServers suite) (issued : Nat) : LocalServers suite :=
  { servers with served := servers.served + issued }

/-- The servers as a client reaches them. -/
def client (servers : LocalServers suite) : Client where
  provePossession url := (servers.provePossession url).mapError .error
  requestKey := servers.requestKey

end LocalServers
end Quorum
