import Quorum.Json.Fields
import Quorum.SealedObject.Basic

/-!
# Showing sealed objects

A sealed object is shown as a JSON object whose members are in the order of
their names.  The payload is described but not shown.
-/

namespace Quorum

/-- A description of a payload. -/
def Ciphertext.toJson : Ciphertext → Json
  | aes256Gcm nonce blob mac =>
    .ofMembers [
      ("blob_len", .ofNat blob.length),
      ("mac", Bytes.toJson mac),
      ("nonce", Bytes.toJson nonce),
      ("type", .ofText "Aes256Gcm")]
  | plain => .ofMembers [("type", .ofText "Plain")]
  | unknown tag bytes =>
    .ofMembers [
      ("len", .ofNat bytes.length),
      ("tag", .ofNat tag.toNat),
      ("type", .ofText "Unknown")]

/-- A service of an object. -/
def Service.toJson (service : Service) : Json :=
  .ofMembers [("index", .ofNat service.index.toNat), ("object_id", service.server.toJson)]

/-- A description of an object. -/
def SealedObject.toJson (object : SealedObject) : Json :=
  .ofMembers [
    ("ciphertext", object.ciphertext.toJson),
    ("encrypted_shares", .ofMembers [
      ("encapsulation", Bytes.toJson object.encapsulation),
      ("shares", .array (object.shares.map Bytes.toJson)),
      ("type", .ofText "BonehFranklinBls12381")]),
    ("inner_id", .ofText (Hex.encode object.innerId)),
    ("package_id", object.packageId.toJson),
    ("services", .array (object.services.map Service.toJson)),
    ("threshold", .ofNat object.threshold.toNat),
    ("version", .ofNat object.version.toNat)]

end Quorum
