import Quorum.SealedObject.Basic
import Quorum.Wire.Reader

/-!
# The encoding of sealed objects

The parts follow each other in this order: version, package, inner identifier
after its length, services after their number, threshold, a tag for the kind of
masking, encapsulation, masked shares after their number, a tag for the kind of
payload, and the payload.  A payload of unknown kind extends to the end.
Decoding accepts whole inputs whose object passes validation.
-/

namespace Quorum

open Wire

/-- The encoding of a payload, without its tag. -/
def Ciphertext.encodeBody : Ciphertext → List UInt8
  | aes256Gcm nonce blob mac => nonce.toList ++ withSize blob ++ mac.toList
  | plain => []
  | unknown _ bytes => bytes

/-- Reads a payload of the kind that a tag names. -/
def Ciphertext.readBody (tag : UInt32) : Reader Ciphertext := do
  if tag = 0 then
    let nonce ← fixed 12 .nonce
    let blob ← sized .blob
    let mac ← fixed 16 .mac
    return aes256Gcm nonce blob mac
  else if tag = 1 then return plain
  else
    let bytes ← remainder
    return unknown tag bytes

/-- The encoding of a service. -/
def Service.encode (service : Service) : List UInt8 :=
  service.server.bytes.toList ++ [service.index]

/-- Reads a service. -/
def Service.read : Reader Service := do
  let server ← fixed 32 .serviceId
  let index ← byte .shareIndex
  return ⟨⟨server⟩, index⟩

namespace SealedObject

/-- The encoding of an object. -/
def encode (object : SealedObject) : List UInt8 :=
  object.version :: object.packageId.bytes.toList ++
    withSize object.innerId ++
    size object.services.length ++ object.services.flatMap Service.encode ++
    object.threshold ::
    (uleb128 0 ++ object.encapsulation.toList ++
      size object.shares.length ++ object.shares.flatMap Vector.toList ++
      uleb128 object.ciphertext.tag.toNat ++ object.ciphertext.encodeBody)

/-- Reads an object up to the end of the input. -/
def read : Reader SealedObject := do
  let version ← byte .version
  if version ≠ currentVersion then
    throw (.unsupportedVersion version.toNat)
  let packageId ← fixed 32 .packageId
  let innerId ← sized .innerId
  let serviceCount ← count 33 .services
  let services ← elements Service.read serviceCount
  let threshold ← byte .threshold
  let scheme ← readUleb128 .sharesTag
  if scheme ≠ 0 then
    throw (.unsupportedScheme .ibe scheme.toNat)
  let encapsulation ← fixed 96 .encapsulation
  let shareCount ← count 32 .shares
  let shares ← elements (fixed 32 .share) shareCount
  let tag ← readUleb128 .ciphertextTag
  let ciphertext ← Ciphertext.readBody tag
  finish
  return {
    version, packageId := ⟨packageId⟩, innerId, services, threshold,
    encapsulation, shares, ciphertext }

/-- The object with the given encoding. -/
def decode (bytes : List UInt8) : Except SealingError SealedObject := do
  let (object, _) ← read.run bytes
  object.validate
  return object

end SealedObject
end Quorum
