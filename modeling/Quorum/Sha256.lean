import Quorum.Bytes

/-!
# SHA-256

The hash function of FIPS 180-4, and on top of it the message authentication
code HMAC and the key derivation function HKDF.  Digests have their length of 32
bytes in their type.
-/

namespace Quorum
namespace Sha256

/-- The first 32 bits of the fractional parts of the cube roots of the first 64
primes. -/
def roundConstants : List UInt32 := [
    0x428a2f98, 0x71374491, 0xb5c0fbcf, 0xe9b5dba5,
    0x3956c25b, 0x59f111f1, 0x923f82a4, 0xab1c5ed5,
    0xd807aa98, 0x12835b01, 0x243185be, 0x550c7dc3,
    0x72be5d74, 0x80deb1fe, 0x9bdc06a7, 0xc19bf174,
    0xe49b69c1, 0xefbe4786, 0x0fc19dc6, 0x240ca1cc,
    0x2de92c6f, 0x4a7484aa, 0x5cb0a9dc, 0x76f988da,
    0x983e5152, 0xa831c66d, 0xb00327c8, 0xbf597fc7,
    0xc6e00bf3, 0xd5a79147, 0x06ca6351, 0x14292967,
    0x27b70a85, 0x2e1b2138, 0x4d2c6dfc, 0x53380d13,
    0x650a7354, 0x766a0abb, 0x81c2c92e, 0x92722c85,
    0xa2bfe8a1, 0xa81a664b, 0xc24b8b70, 0xc76c51a3,
    0xd192e819, 0xd6990624, 0xf40e3585, 0x106aa070,
    0x19a4c116, 0x1e376c08, 0x2748774c, 0x34b0bcb5,
    0x391c0cb3, 0x4ed8aa4a, 0x5b9cca4f, 0x682e6ff3,
    0x748f82ee, 0x78a5636f, 0x84c87814, 0x8cc70208,
    0x90befffa, 0xa4506ceb, 0xbef9a3f7, 0xc67178f2]

/-- The eight words that are carried from round to round. -/
structure State where
  a : UInt32
  b : UInt32
  c : UInt32
  d : UInt32
  e : UInt32
  f : UInt32
  g : UInt32
  h : UInt32

/-- The first 32 bits of the fractional parts of the square roots of the first
eight primes. -/
def initial : State :=
  ⟨0x6a09e667, 0xbb67ae85, 0x3c6ef372, 0xa54ff53a,
    0x510e527f, 0x9b05688c, 0x1f83d9ab, 0x5be0cd19⟩

/-- Rotation to the right. -/
def rotate (x n : UInt32) : UInt32 := (x >>> n) ||| (x <<< (32 - n))

/-- One round, with the schedule word and the round constant. -/
def round (s : State) (word : UInt32 × UInt32) : State :=
  let big1 := rotate s.e 6 ^^^ rotate s.e 11 ^^^ rotate s.e 25
  let choice := (s.e &&& s.f) ^^^ (~~~s.e &&& s.g)
  let t1 := s.h + big1 + choice + word.1 + word.2
  let big0 := rotate s.a 2 ^^^ rotate s.a 13 ^^^ rotate s.a 22
  let majority := (s.a &&& s.b) ^^^ (s.a &&& s.c) ^^^ (s.b &&& s.c)
  ⟨t1 + (big0 + majority), s.a, s.b, s.c, s.d + t1, s.e, s.f, s.g⟩

/-- Appends the given number of words to a message schedule. -/
def extend : Nat → Array UInt32 → Array UInt32
  | 0, words => words
  | count + 1, words =>
    let at' (back : Nat) : UInt32 := words.getD (words.size - back) 0
    let s0 := rotate (at' 15) 7 ^^^ rotate (at' 15) 18 ^^^ (at' 15 >>> 3)
    let s1 := rotate (at' 2) 17 ^^^ rotate (at' 2) 19 ^^^ (at' 2 >>> 10)
    extend count (words.push (at' 16 + s0 + at' 7 + s1))

/-- The 64 schedule words of a block of 64 bytes. -/
def schedule (block : List UInt8) : List UInt32 :=
  let words := (blocks 4 block).map fun word => UInt32.ofNat (ofBigEndian word)
  (extend 48 words.toArray).toList

/-- The state after a further block. -/
def compress (s : State) (block : List UInt8) : State :=
  let t := ((schedule block).zip roundConstants).foldl round s
  ⟨s.a + t.a, s.b + t.b, s.c + t.c, s.d + t.d, s.e + t.e, s.f + t.f, s.g + t.g, s.h + t.h⟩

/-- The message followed by a one bit, zeros, and its length in bits, which
makes a whole number of blocks of 64 bytes. -/
def pad (message : List UInt8) : List UInt8 :=
  let zeros := (119 - message.length % 64) % 64
  message ++ 0x80 :: List.replicate zeros 0 ++ bigEndian 8 (8 * message.length)

/-- The words of the state, one after the other. -/
def State.toBytes (s : State) : Bytes 32 :=
  let words := [s.a, s.b, s.c, s.d, s.e, s.f, s.g, s.h]
  Bytes.ofNat 32 (words.foldl (fun n word => n * UInt32.size + word.toNat) 0)

/-- The digest of a message. -/
def hash (message : List UInt8) : Bytes 32 :=
  ((blocks 64 (pad message)).foldl compress initial).toBytes

/-- The length of a block. -/
def blockSize : Nat := 64

/-- The authentication code of a message under a key. -/
def hmac (key message : List UInt8) : Bytes 32 :=
  let key := if key.length > blockSize then (hash key).toList else key
  let key := key ++ List.replicate (blockSize - key.length) 0
  let inner := hash (key.map (· ^^^ 0x36) ++ message)
  hash (key.map (· ^^^ 0x5c) ++ inner.toList)

end Sha256

namespace Hkdf

/-- The pseudorandom key that is extracted from input keying material. -/
def extract (salt material : List UInt8) : Bytes 32 :=
  Sha256.hmac (if salt.isEmpty then List.replicate 32 0 else salt) material

/-- The output blocks from the one with the given number on, each computed from
the one before. -/
def expandFrom (key info : List UInt8) : (count number : Nat) → List UInt8 → List UInt8
  | 0, _, _ => []
  | count + 1, number, previous =>
    let block := (Sha256.hmac key (previous ++ info ++ [UInt8.ofNat number])).toList
    block ++ expandFrom key info count (number + 1) block

/-- Output of the given length, or nothing if that is more than 255 blocks. -/
def expand (key : Bytes 32) (info : List UInt8) (size : Nat) : Option (List UInt8) :=
  if size ≤ 255 * 32 then
    some ((expandFrom key.toList info ((size + 31) / 32) 1 []).take size)
  else none

end Hkdf
end Quorum
