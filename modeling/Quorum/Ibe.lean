import Quorum.PairingSuite
import Quorum.Sha256
import Quorum.Share

/-!
# Identity-based encryption

A key server holds a master key `s` and publishes `s • G`.  The key that it
issues for an identity is `s • H(identity)`; whoever knows the public key alone
can mask a share so that this key unmasks it.  The encapsulation `r • G` of a
single ephemeral scalar serves all key servers: the mask for one of them is
derived from the pairing of `r • H(identity)` with its public key, which is also
the pairing of the issued key with the encapsulation.

Nothing here authenticates what is unmasked; a wrong key gives a wrong share.  A
mask does not exist where the pairing has the value one.
-/

namespace Quorum
namespace Ibe

/-- The tag for hashing identities. -/
def hashTag : List UInt8 := utf8 "BLS_SIG_BLS12381G1_XMD:SHA-256_SSWU_RO_NUL_"

/-- The tag for proofs of possession. -/
def possessionTag : List UInt8 := utf8 "SUI-SEAL-IBE-BLS12381-POP-00"

/-- The tag for deriving masks. -/
def maskTag : List UInt8 := utf8 "SUI-SEAL-IBE-BLS12381-H2-00"

/-- How often a scalar is drawn before drawing is given up: `2 ^ 62` times.  As many
draws read `2 ^ 64` numbers of eight bytes, which is more than can be read. -/
def drawLimit : Nat := 4611686018427387904

variable (suite : PairingSuite)

/-- The group element for an identity. -/
def hashIdentity (identity : List UInt8) : suite.G1 := suite.hash hashTag identity

/-- The public key of a master key. -/
def publicKey (masterKey : suite.Scalar) : suite.G2 :=
  suite.mul2 masterKey.val suite.generator

/-- A random scalar. -/
def drawScalar (random : RandomSource) : Except Failure (suite.Scalar × RandomSource) :=
  match random.takeBelow suite.order drawLimit with
  | some drawn => .ok drawn
  | none => .error .randomnessExhausted

/-- The bytes of a master key, big-endian. -/
def encodeMasterKey (masterKey : suite.Scalar) : Bytes 32 := Bytes.ofNat 32 masterKey.val

/-- The master key with the given bytes. -/
def decodeMasterKey (bytes : Bytes 32) : Except SealingError suite.Scalar :=
  if h : bytes.toNat < suite.order then .ok ⟨bytes.toNat, h⟩ else .error .invalidScalar

/-- The element of the first group with the given encoding. -/
def decode1 (bytes : Bytes 48) : Except SealingError suite.G1 :=
  match suite.decode1? bytes with
  | some x => .ok x
  | none => .error .invalidG1Point

/-- The element of the second group with the given encoding. -/
def decode2 (bytes : Bytes 96) : Except SealingError suite.G2 :=
  match suite.decode2? bytes with
  | some y => .ok y
  | none => .error .invalidG2Point

/-- The key that the holder of a master key issues for an identity. -/
def extract (masterKey : suite.Scalar) (identity : List UInt8) : suite.G1 :=
  suite.mul1 masterKey.val (hashIdentity suite identity)

/-- Checks that a key was issued for an identity by the holder of a public
key. -/
def verifyKey (key : suite.G1) (identity : List UInt8) (publicKey : suite.G2) :
    Except SealingError Unit :=
  if suite.pairing key suite.generator =
      suite.pairing (hashIdentity suite identity) publicKey then .ok ()
  else .error .invalidUserSecretKey

/-- The mask that is derived from a pairing value. -/
def mask (value : suite.Gt) : Except Failure Key :=
  match suite.compress? value with
  | none => .error .maskUndefined
  | some material =>
    match (Hkdf.expand (Hkdf.extract [] material) maskTag 32).bind (Bytes.ofList? 32) with
    | some key => .ok key
    | none => .error (.refused .keyDerivationFailed)

/-- Masks a payload for each public key, all with the ephemeral scalar `r`. -/
def maskPayloads (r : suite.Scalar) (identity : List UInt8) (payloads : List Key)
    (publicKeys : List suite.G2) : Except Failure (List Key) :=
  let ephemeral := suite.mul1 r.val (hashIdentity suite identity)
  (payloads.zip publicKeys).mapM fun (payload, publicKey) => do
    return Bytes.xor payload (← mask suite (suite.pairing ephemeral publicKey))

/-- Encrypts a payload to an identity for each public key; all share one
encapsulation. -/
def encrypt (identity : List UInt8) (payloads : List Key) (publicKeys : List suite.G2)
    (random : RandomSource) :
    Except Failure ((suite.G2 × List Key) × RandomSource) := do
  if payloads.length ≠ publicKeys.length then
    throw (.refused (.invalidInput (.payloadCount payloads.length publicKeys.length)))
  if suite.infinity ∈ publicKeys then
    throw (.refused (.invalidInput .infinitePublicKey))
  let (r, random) ← drawScalar suite random
  let masked ← maskPayloads suite r identity payloads publicKeys
  return ((suite.mul2 r.val suite.generator, masked), random)

/-- Unmasks a payload with an issued key. -/
def decrypt (encapsulation : suite.G2) (key : suite.G1) (masked : Key) (index : UInt8) :
    Except Failure Share := do
  let mask ← mask suite (suite.pairing key encapsulation)
  return ⟨index, Bytes.xor masked mask⟩

/-- What a proof of possession signs: a tag, the public key, the server and its
address. -/
def possessionMessage (publicKey : suite.G2) (server : ObjectId) (url : String) :
    List UInt8 :=
  possessionTag ++ (suite.encode2 publicKey).toList ++ server.bytes.toList ++ utf8 url

/-- The proof that whoever runs a server holds its master key. -/
def provePossession (masterKey : suite.Scalar) (server : ObjectId) (url : String) :
    suite.G1 :=
  suite.mul1 masterKey.val
    (suite.hash possessionTag (possessionMessage suite (publicKey suite masterKey) server url))

/-- Checks a proof of possession. -/
def verifyPossession (publicKey : suite.G2) (server : ObjectId) (url : String)
    (proof : suite.G1) : Except SealingError Unit :=
  let hashed := suite.hash possessionTag (possessionMessage suite publicKey server url)
  if suite.pairing proof suite.generator = suite.pairing hashed publicKey then .ok ()
  else .error .invalidProofOfPossession

end Ibe
end Quorum
