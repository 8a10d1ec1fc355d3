import Quorum.Json.Value
import Quorum.ServerSet

/-!
# Identifiers, points and server entries in JSON

Identifiers are strings of the form in which they are written elsewhere; byte
strings are strings of hexadecimal digits without a marker.  What is registered
about a key server is a record of four fields.
-/

namespace Quorum

/-- An identifier as a JSON value. -/
def ObjectId.toJson (id : ObjectId) : Json := .ofText id.text

/-- The identifier that a JSON value holds. -/
def ObjectId.ofJson? (json : Json) : Option ObjectId := do
  let text ← json.asText?
  (ObjectId.parse text).toOption

/-- A byte string as a JSON value. -/
def Bytes.toJson {n : Nat} (bytes : Bytes n) : Json := .ofText (Hex.encode bytes.toList)

/-- The byte string of length `n` that a JSON value holds. -/
def Bytes.ofJson? (n : Nat) (json : Json) : Option (Bytes n) := do
  let text ← json.asText?
  let bytes ← (Hex.decode text).toOption
  Bytes.ofList? n bytes

namespace ServerInfo

/-- The names of the fields of an entry, in order. -/
def fieldNames : List String := ["object_id", "name", "url", "public_key"]

/-- An entry as a JSON value. -/
def toJson (info : ServerInfo) : Json :=
  .ofMembers (fieldNames.zip
    [info.id.toJson, .ofText info.name, .ofText info.url, Bytes.toJson info.publicKey])

/-- The entry that a JSON value holds. -/
def ofJson? (json : Json) : Option ServerInfo := do
  match ← json.record? fieldNames with
  | [id, name, url, publicKey] =>
    return {
      id := ← ObjectId.ofJson? id
      name := ← name.asText?
      url := ← url.asText?
      publicKey := ← Bytes.ofJson? 96 publicKey }
  | _ => none

/-- A list of entries as a JSON value. -/
def listToJson (infos : List ServerInfo) : Json := .array (infos.map toJson)

/-- The list of entries that a JSON value holds. -/
def listOfJson? (json : Json) : Option (List ServerInfo) := do
  (← json.asItems?).mapM ofJson?

end ServerInfo
end Quorum
