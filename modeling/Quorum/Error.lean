import Quorum.ObjectId

/-!
# Errors

Every error is a cause; how it is worded is decided in one function for each
type of error.  A reason of the form `other` is one that is already worded.
-/

namespace Quorum

/-- The parts of a sealed object, as far as their encodings can be faulty. -/
inductive Field where
  | version
  | packageId
  | innerId
  | services
  | serviceId
  | shareIndex
  | threshold
  | sharesTag
  | encapsulation
  | shares
  | share
  | ciphertextTag
  | nonce
  | blob
  | mac
deriving DecidableEq

/-- The name of a part in messages. -/
def Field.name : Field → String
  | version => "version"
  | packageId => "package_id"
  | innerId => "inner_id"
  | services => "services"
  | serviceId => "service object id"
  | shareIndex => "share index"
  | threshold => "threshold"
  | sharesTag => "encrypted_shares tag"
  | encapsulation => "encapsulation"
  | shares => "encrypted shares"
  | share => "encrypted share"
  | ciphertextTag => "ciphertext tag"
  | nonce => "nonce"
  | blob => "blob"
  | mac => "mac"

/-- What is wrong with a sealed object or with its encoding. -/
inductive Malformation where
  /-- The input ends before the part does. -/
  | truncated (field : Field)
  /-- A number is written with more digits than it needs. -/
  | nonCanonical (field : Field)
  /-- A number does not fit into 32 bits. -/
  | overflow (field : Field)
  /-- Bytes follow the last part. -/
  | trailing (count : Nat)
  | serviceCount (count : Nat)
  | shareCount (shares services : Nat)
  | threshold (value services : Nat)
  /-- An index is zero or occurs before. -/
  | shareIndex (index : Nat)
  /-- A ciphertext that is marked as unknown has a known tag. -/
  | knownTag (tag : Nat)
  | other (text : String)
deriving DecidableEq

/-- What is said about a malformation. -/
def Malformation.message : Malformation → String
  | truncated field => "unexpected end of input reading " ++ field.name
  | nonCanonical field => "non-canonical length for " ++ field.name
  | overflow field => "length overflow for " ++ field.name
  | trailing count => toString count ++ " trailing bytes"
  | serviceCount count => toString count ++ " services"
  | shareCount shares services =>
    toString shares ++ " encrypted shares for " ++ toString services ++ " services"
  | threshold value services =>
    "threshold " ++ toString value ++ " for " ++ toString services ++ " services"
  | shareIndex index => "invalid or repeated share index " ++ toString index
  | knownTag tag => "unknown ciphertext with known tag " ++ toString tag
  | other text => text

/-- What is wrong with the arguments of an operation. -/
inductive InputFault where
  | payloadCount (payloads publicKeys : Nat)
  | infinitePublicKey
  | threshold (value servers : Nat)
  | serverCount (count : Nat)
  | repeatedServer (id : ObjectId)
  | other (text : String)
deriving DecidableEq

/-- What is said about such a fault. -/
def InputFault.message : InputFault → String
  | payloadCount payloads publicKeys =>
    toString payloads ++ " payloads for " ++ toString publicKeys ++ " public keys"
  | infinitePublicKey => "public key is the point at infinity"
  | threshold value servers =>
    "threshold " ++ toString value ++ " for " ++ toString servers ++ " key servers"
  | serverCount count => "expected 1 to 255 key servers, got " ++ toString count
  | repeatedServer id => "key server " ++ id.text ++ " listed twice"
  | other text => text

/-- What is wrong with a share. -/
inductive ShareFault where
  | length (got : Nat)
  | reservedIndex
  | conflict (index : Nat)
  | repeatedPoint
  | other (text : String)
deriving DecidableEq

/-- What is said about such a fault. -/
def ShareFault.message : ShareFault → String
  | length got => "expected 33 bytes, got " ++ toString got
  | reservedIndex => "share index 0 is reserved"
  | conflict index => "conflicting payloads for index " ++ toString index
  | repeatedPoint => "duplicate interpolation point"
  | other text => text

/-- The two places where a tag names a scheme. -/
inductive SchemeKind where
  | ibe
  | ciphertext
deriving DecidableEq

/-- The name of such a place in messages. -/
def SchemeKind.name : SchemeKind → String
  | ibe => "IBE"
  | ciphertext => "ciphertext"

/-- Why something cannot be sealed, read or opened. -/
inductive SealingError where
  | invalidInput (fault : InputFault)
  | invalidParameters (threshold shares : Nat)
  | malformedObject (malformation : Malformation)
  | unsupportedVersion (version : Nat)
  | unsupportedScheme (kind : SchemeKind) (tag : Nat)
  | insufficientKeys (required got : Nat)
  | insufficientShares (required got : Nat)
  | corruptShare (fault : ShareFault)
  | decryptionFailed
  | encryptionFailed (reason : String)
  | invalidG1Point
  | invalidG2Point
  | invalidScalar
  | keyDerivationFailed
  | invalidProofOfPossession
  | invalidUserSecretKey
deriving DecidableEq

/-- What is said about the error. -/
def SealingError.message : SealingError → String
  | invalidInput fault => "Invalid input: " ++ fault.message
  | invalidParameters threshold shares =>
    "Invalid secret sharing parameters: threshold " ++ toString threshold ++ ", shares " ++
      toString shares
  | malformedObject malformation => "Malformed encrypted object: " ++ malformation.message
  | unsupportedVersion version =>
    "Unsupported encrypted object version " ++ toString version
  | unsupportedScheme kind tag =>
    "Unsupported " ++ kind.name ++ " scheme tag " ++ toString tag
  | insufficientKeys required got =>
    "Insufficient partial keys: need " ++ toString required ++ ", got " ++ toString got
  | insufficientShares required got =>
    "Insufficient shares: need " ++ toString required ++ ", got " ++ toString got
  | corruptShare fault => "Corrupt share: " ++ fault.message
  | decryptionFailed => "Decryption failed"
  | encryptionFailed reason => "Encryption failed: " ++ reason
  | invalidG1Point => "Invalid G1 point encoding"
  | invalidG2Point => "Invalid G2 point encoding"
  | invalidScalar => "Invalid scalar encoding"
  | keyDerivationFailed => "Key derivation failed"
  | invalidProofOfPossession => "Proof of possession verification failed"
  | invalidUserSecretKey => "User secret key does not match identity and public key"

/-- Why an operation that masks shares ends without a result. -/
inductive Failure where
  /-- It is refused. -/
  | refused (error : SealingError)
  /-- A mask is asked for that does not exist, since a pairing has the value
  one; the operation breaks off. -/
  | maskUndefined
  /-- The random source keeps giving numbers that are no scalars. -/
  | randomnessExhausted
deriving DecidableEq

/-- An error of a step is a refusal of the whole. -/
instance : MonadLift (Except SealingError) (Except Failure) :=
  ⟨fun result => result.mapError .refused⟩

/-- What goes wrong on the way to a key server. -/
inductive TransportFault where
  | noServer (url : String)
  | unreachable (url : String)
  | noIdentity
  | other (text : String)
deriving DecidableEq

/-- What is said about such a fault. -/
def TransportFault.message : TransportFault → String
  | noServer url => "no key server at " ++ url
  | unreachable url => url ++ " is unreachable"
  | noIdentity => "request carries no identity"
  | other text => text

/-- Why key servers cannot be resolved or keys cannot be collected. -/
inductive ServiceError where
  | sealing (error : SealingError)
  | notFound (id : ObjectId)
  | invalidProofOfPossession (id : ObjectId)
  | unknownServer (id : ObjectId)
  | duplicateKey (id : ObjectId)
  | invalidKey (id : ObjectId)
  | thresholdNotMet (collected need : Nat)
  | timeout (url : String) (milliseconds : Nat)
  | transport (fault : TransportFault)
deriving DecidableEq

/-- A duration in the largest unit of which it has at least one; fractions of a
second are written without zeros at the end. -/
def durationText (milliseconds : Nat) : String :=
  let seconds := toString (milliseconds / 1000)
  let fraction := milliseconds % 1000
  if milliseconds = 0 then "0ns"
  else if milliseconds < 1000 then toString milliseconds ++ "ms"
  else if fraction = 0 then seconds ++ "s"
  else if fraction % 100 = 0 then seconds ++ "." ++ toString (fraction / 100) ++ "s"
  else
    let hundredths := toString (fraction / 100) ++ toString (fraction / 10 % 10)
    if fraction % 10 = 0 then seconds ++ "." ++ hundredths ++ "s"
    else seconds ++ "." ++ hundredths ++ toString (fraction % 10) ++ "s"

/-- What is said about the error. -/
def ServiceError.message : ServiceError → String
  | sealing error => error.message
  | notFound id => "Key server " ++ id.text ++ " not found"
  | invalidProofOfPossession id =>
    "Invalid proof of possession for key server " ++ id.text
  | unknownServer id => "Key server " ++ id.text ++ " is not a service of this object"
  | duplicateKey id => "Duplicate partial key from key server " ++ id.text
  | invalidKey id => "Invalid partial key from key server " ++ id.text
  | thresholdNotMet collected need =>
    "Threshold not met: have " ++ toString collected ++ ", need " ++ toString need
  | timeout url milliseconds =>
    "Request to " ++ url ++ " timed out after " ++ durationText milliseconds
  | transport fault => "Transport error: " ++ fault.message

end Quorum
