import Quorum.Share

/-!
# Sealed objects

A sealed object holds a payload that is encrypted under a symmetric key, and one
masked share of that key for each of the key servers it was sealed for.  This
module has the type, the invariants of an object that can be opened, and the
identity to which all shares are masked.
-/

namespace Quorum

/-- The payload of a sealed object. -/
inductive Ciphertext where
  /-- Encrypted under the shared key. -/
  | aes256Gcm (nonce : Bytes 12) (blob : List UInt8) (mac : Bytes 16)
  /-- There is no payload: the shared key is what is being kept. -/
  | plain
  /-- Of a kind that is not known here. -/
  | unknown (tag : UInt32) (bytes : List UInt8)
deriving DecidableEq

/-- The number that names the kind of a payload. -/
def Ciphertext.tag : Ciphertext → UInt32
  | aes256Gcm .. => 0
  | plain => 1
  | unknown tag _ => tag

/-- A key server of a sealed object and the index of its share. -/
structure Service where
  server : ObjectId
  index : UInt8
deriving DecidableEq

/-- A payload together with the masked shares of its key. -/
structure SealedObject where
  version : UInt8
  packageId : ObjectId
  innerId : List UInt8
  /-- The key servers, in the order in which the object was sealed for them. -/
  services : List Service
  threshold : UInt8
  /-- The ephemeral public value that all masks are made with. -/
  encapsulation : Bytes 96
  /-- The masked shares, in the order of the services. -/
  shares : List Key
  ciphertext : Ciphertext
deriving DecidableEq

/-- The tag that all identities begin with. -/
def identityTag : List UInt8 := utf8 "SUI-SEAL-IBE-BLS12381-00"

/-- The identity that keys are issued for: the tag after its length, the package
and the identifier within the package. -/
def fullIdentity (packageId : ObjectId) (innerId : List UInt8) : List UInt8 :=
  UInt8.ofNat identityTag.length :: identityTag ++ packageId.bytes.toList ++ innerId

namespace SealedObject

/-- The version that is written and read. -/
def currentVersion : UInt8 := 0

/-- The most key servers that an object can be sealed for. -/
def maxServices : Nat := 255

/-- The identity that the shares are masked to. -/
def identity (object : SealedObject) : List UInt8 :=
  fullIdentity object.packageId object.innerId

/-- The index of the share of a key server. -/
def shareIndex? (object : SealedObject) (server : ObjectId) : Option UInt8 :=
  (object.services.find? fun service => service.server = server).map Service.index

/-- The first index that is zero or occurs before, also among those already
seen. -/
def badIndex? (seen : List UInt8) : List UInt8 → Option UInt8
  | [] => none
  | index :: rest =>
    if index = 0 ∨ index ∈ seen then some index else badIndex? (index :: seen) rest

/-- The first of the invariants that an object violates: the version is the
current one; there are one to 255 services and a share for each; the threshold
is between one and their number; the indices are not zero and distinct; a
payload of unknown kind has a tag of its own. -/
def validate (object : SealedObject) : Except SealingError Unit :=
  let services := object.services.length
  if object.version ≠ currentVersion then
    .error (.unsupportedVersion object.version.toNat)
  else if services = 0 ∨ maxServices < services then
    .error (.malformedObject (.serviceCount services))
  else if object.shares.length ≠ services then
    .error (.malformedObject (.shareCount object.shares.length services))
  else if object.threshold = 0 ∨ services < object.threshold.toNat then
    .error (.malformedObject (.threshold object.threshold.toNat services))
  else
    match badIndex? [] (object.services.map Service.index), object.ciphertext with
    | some index, _ => .error (.malformedObject (.shareIndex index.toNat))
    | none, .unknown tag _ =>
      if tag = 0 ∨ tag = 1 then .error (.malformedObject (.knownTag tag.toNat)) else .ok ()
    | none, _ => .ok ()

end SealedObject
end Quorum
