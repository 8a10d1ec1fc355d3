import Quorum.ParseError

/-!
# Object identifiers

Packages and key servers are identified by 32 bytes.  They are written as `0x`
and 64 lowercase digits; shorter texts are read as if they had zeros in front.
-/

namespace Quorum

/-- The identifier of a package or of a key server. -/
structure ObjectId where
  bytes : Bytes 32
deriving DecidableEq

namespace ObjectId

/-- The identifier that consists of zeros. -/
def zero : ObjectId := ⟨Bytes.zero 32⟩

/-- The identifier whose bytes are the big-endian form of a number. -/
def ofNat (value : Nat) : ObjectId := ⟨Bytes.ofNat 32 value⟩

/-- The number whose big-endian form the bytes are. -/
def toNat (id : ObjectId) : Nat := id.bytes.toNat

/-- The identifier with the given bytes. -/
def ofBytes (bytes : List UInt8) : Except ParseError ObjectId :=
  (Bytes.ofList 32 bytes).map ObjectId.mk

/-- The written form. -/
def text (id : ObjectId) : String := "0x" ++ Hex.encode id.bytes.toList

/-- The written form with the name of the type. -/
def description (id : ObjectId) : String := "ObjectId(" ++ id.text ++ ")"

/-- The identifier that a text stands for.  Its length is counted in bytes, while
zeros are added until there are 64 characters. -/
def parse (text : String) : Except ParseError ObjectId :=
  let digits := dropMarker text.toList
  let size := (utf8 (String.ofList digits)).length
  if size = 0 ∨ size > 64 then .error (.invalidLength 32 ((size + 1) / 2))
  else
    let padded := List.replicate (64 - digits.length) '0' ++ digits
    match Hex.decode (String.ofList padded) with
    | .ok bytes => ofBytes bytes
    | .error fault => .error (.invalidHex fault)

/-- Identifiers in ascending order of their bytes. -/
def sort (ids : List ObjectId) : List ObjectId :=
  ids.mergeSort fun a b => a.toNat ≤ b.toNat

end ObjectId
end Quorum
