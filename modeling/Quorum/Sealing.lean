import Quorum.Aes256Gcm
import Quorum.SealedObject.Codec
import Quorum.ServerSet

/-!
# Sealing and opening

To seal a payload, a fresh key is drawn, the payload is encrypted under it, the
key is split among the servers of a set, and each share is masked for its
server.  To open an object, the shares of enough servers are unmasked with the
keys that these have issued, and the key is rebuilt from them.
-/

namespace Quorum

/-- What is to be sealed. -/
inductive Payload where
  /-- Data, to be encrypted under the key. -/
  | data (bytes : List UInt8)
  /-- Nothing but the key itself. -/
  | keyOnly
deriving DecidableEq

/-- A description that does not show the data. -/
def Payload.description : Payload → String
  | data bytes => "Aes256Gcm \x7b len: " ++ toString bytes.length ++ " \x7d"
  | keyOnly => "Plain"

namespace Sealing

/-- Encrypts data under a key with a random nonce. -/
def encryptData (key : Key) (bytes : List UInt8) (random : RandomSource) :
    Except SealingError ((Bytes 12 × List UInt8 × Bytes 16) × RandomSource) :=
  let (nonce, random) := random.take 12
  match Aes256Gcm.encrypt? key nonce bytes with
  | some (blob, mac) => .ok ((nonce, blob, mac), random)
  | none => .error (.encryptionFailed "AES-GCM encryption failed: aead::Error")

/-- Decrypts data under a key. -/
def decryptData (key : Key) (nonce : Bytes 12) (blob : List UInt8) (mac : Bytes 16) :
    Except SealingError (List UInt8) :=
  match Aes256Gcm.decrypt? key nonce blob mac with
  | some bytes => .ok bytes
  | none => .error .decryptionFailed

/-- The ciphertext of a payload under a key. -/
def encryptPayload (key : Key) (payload : Payload) (random : RandomSource) :
    Except SealingError (Ciphertext × RandomSource) :=
  match payload with
  | .keyOnly => .ok (.plain, random)
  | .data bytes => do
    let ((nonce, blob, mac), random) ← encryptData key bytes random
    return (.aes256Gcm nonce blob mac, random)

variable {suite : PairingSuite}

/-- A sealed object, the key of its payload, and what is left of the random
source. -/
structure Sealed where
  object : SealedObject
  key : Key
  random : RandomSource

/-- Seals a payload so that any `threshold` servers of the set can release it.  The
servers get the shares with the indices one, two, … in their order. -/
def encrypt (packageId : ObjectId) (innerId : List UInt8) (servers : ServerSet suite)
    (threshold : UInt8) (payload : Payload) (random : RandomSource) :
    Except Failure Sealed := do
  if threshold = 0 ∨ servers.size < threshold.toNat then
    throw (.refused (.invalidInput (.threshold threshold.toNat servers.size)))
  let (key, random) := random.take 32
  let (ciphertext, random) ← encryptPayload key payload random
  let (shares, random) ← Sharing.split key (UInt8.ofNat servers.size) threshold random
  let ((encapsulation, masked), random) ←
    Ibe.encrypt suite (fullIdentity packageId innerId) (shares.map Share.payload)
      servers.publicKeys random
  let object : SealedObject := {
    version := SealedObject.currentVersion
    packageId, innerId
    services := List.zipWith (fun server share => ⟨server.id, share.index⟩)
      servers.servers shares
    threshold
    encapsulation := suite.encode2 encapsulation
    shares := masked
    ciphertext }
  return { object, key, random }

/-- A service of an object with its masked share and the key of its server. -/
structure Opening (suite : PairingSuite) where
  service : Service
  masked : Key
  key : suite.G1

/-- Rebuilds the key of an object from unmasked shares.  A single share is the key
itself. -/
def rebuildKey (threshold : UInt8) (shares : List Share) : Except SealingError Key :=
  match shares with
  | [only] => .ok only.payload
  | shares => Sharing.combine shares threshold

/-- The key of an object, rebuilt from the selected shares. -/
def recoverKey (object : SealedObject) (selected : List (Opening suite)) :
    Except Failure Key := do
  let encapsulation ← Ibe.decode2 suite object.encapsulation
  let shares ← selected.mapM fun opening =>
    Ibe.decrypt suite encapsulation opening.key opening.masked opening.service.index
  rebuildKey object.threshold shares

/-- Opens an object with the selected shares. -/
def openWith (object : SealedObject) (selected : List (Opening suite)) :
    Except Failure (List UInt8) :=
  match object.ciphertext with
  | .unknown tag _ => .error (.refused (.unsupportedScheme .ciphertext tag.toNat))
  | .plain => do
    let key ← recoverKey object selected
    return key.toList
  | .aes256Gcm nonce blob mac => do
    let key ← recoverKey object selected
    decryptData key nonce blob mac

/-- Opens an object with one key for each of its services, in their order. -/
def decryptAll (object : SealedObject) (keys : List suite.G1) :
    Except Failure (List UInt8) := do
  object.validate
  if keys.length ≠ object.services.length then
    throw (.refused (.insufficientKeys object.services.length keys.length))
  openWith object
    (List.zipWith (fun (service, masked) key => ⟨service, masked, key⟩)
      (object.services.zip object.shares) keys)

/-- The services of an object for which a key is at hand, in their order. -/
def available (object : SealedObject) (keys : KeyRing suite) : List (Opening suite) :=
  (object.services.zip object.shares).filterMap fun (service, masked) =>
    (keys.get? service.server).map fun key => ⟨service, masked, key⟩

/-- Opens an object with the keys of any services, of which there must be as many as
the threshold says; the first of them are used. -/
def decrypt (object : SealedObject) (keys : KeyRing suite) : Except Failure (List UInt8) := do
  object.validate
  let selected := available object keys
  if selected.length < object.threshold.toNat then
    throw (.refused (.insufficientKeys object.threshold.toNat selected.length))
  openWith object (selected.take object.threshold.toNat)

/-- Decodes an object and opens it. -/
def decryptBytes (bytes : List UInt8) (keys : KeyRing suite) : Except Failure (List UInt8) := do
  let object ← SealedObject.decode bytes
  decrypt object keys

end Sealing
end Quorum
