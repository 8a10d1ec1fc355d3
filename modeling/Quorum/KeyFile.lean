import Quorum.Document
import Quorum.Json.Fields

/-!
# Key files

A key file holds what is registered about a key server together with its master
key and a proof that it possesses it.  It is accepted only if its public key
belongs to its master key.
-/

namespace Quorum

/-- A key server with its master key, as it is kept in a file. -/
structure KeyFile where
  id : ObjectId
  name : String
  url : String
  /-- The digits of the master key, as they were read. -/
  masterKeyText : String
  publicKey : Bytes 96
  proofOfPossession : Bytes 48
deriving DecidableEq

namespace KeyFile

variable (suite : PairingSuite)

/-- The key file of a server with the given master key. -/
def ofMasterKey (id : ObjectId) (name url : String) (masterKey : suite.Scalar) : KeyFile where
  id := id
  name := name
  url := url
  masterKeyText := Hex.encode (Ibe.encodeMasterKey suite masterKey).toList
  publicKey := suite.encode2 (Ibe.publicKey suite masterKey)
  proofOfPossession := suite.encode1 (Ibe.provePossession suite masterKey id url)

/-- The master key in a key file. -/
def masterKey (file : KeyFile) : Except DocumentError suite.Scalar :=
  match Hex.decode file.masterKeyText with
  | .error fault => .error (.masterKeyDigits fault)
  | .ok bytes =>
    match Bytes.ofList? 32 bytes with
    | none => .error .masterKeyLength
    | some bytes => (Ibe.decodeMasterKey suite bytes).mapError .masterKeyValue

/-- What is to be registered about the server. -/
def info (file : KeyFile) : ServerInfo where
  id := file.id
  name := file.name
  url := file.url
  publicKey := file.publicKey

/-- The names of the fields, in order. -/
def fieldNames : List String :=
  ["object_id", "name", "url", "master_key", "public_key", "proof_of_possession"]

/-- A key file as a JSON value. -/
def toJson (file : KeyFile) : Json :=
  .ofMembers (fieldNames.zip
    [file.id.toJson, .ofText file.name, .ofText file.url, .ofText file.masterKeyText,
      Bytes.toJson file.publicKey, Bytes.toJson file.proofOfPossession])

/-- The key file that a JSON value holds. -/
def ofJson? (json : Json) : Option KeyFile := do
  match ← json.record? fieldNames with
  | [id, name, url, masterKeyText, publicKey, proof] =>
    return {
      id := ← ObjectId.ofJson? id
      name := ← name.asText?
      url := ← url.asText?
      masterKeyText := ← masterKeyText.asText?
      publicKey := ← Bytes.ofJson? 96 publicKey
      proofOfPossession := ← Bytes.ofJson? 48 proof }
  | _ => none

/-- The master key in the key file at `path`, if the public key belongs to it. -/
def checked (path : String) (file : KeyFile) : Except DocumentError suite.Scalar := do
  let masterKey ← file.masterKey suite
  if suite.encode2 (Ibe.publicKey suite masterKey) = file.publicKey then return masterKey
  else throw (.publicKeyMismatch path)

variable {m : Type → Type} [Monad m] [FileAccess m]

/-- Reads a key file; the master key is given beside it. -/
def load (path : String) : ExceptT DocumentError m (KeyFile × suite.Scalar) := do
  let file ← FileAccess.loadJson .keyFile ofJson? path
  let masterKey ← ExceptT.mk (pure (file.checked suite path))
  return (file, masterKey)

/-- Writes a key file. -/
def save (file : KeyFile) (path : String) : ExceptT DocumentError m Unit :=
  FileAccess.storeJson path file.toJson

end KeyFile

end Quorum
