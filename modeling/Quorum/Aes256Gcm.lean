import Quorum.Aes256

/-!
# AES-256 in Galois/Counter Mode

Authenticated encryption with a nonce of 12 bytes and a tag of 16 bytes, without
associated data (NIST SP 800-38D).  A text is masked with a key stream and
authenticated by a polynomial hash of the masked text.  The main statement says
that decryption gives back what was encrypted.
-/

namespace Quorum
namespace Aes256Gcm

/-- The most bytes that may be encrypted under one nonce. -/
def maxPlaintext : Nat := 0x1000000000

/-- The most bytes for which decryption is attempted. -/
def maxBody : Nat := maxPlaintext + 16

/-- The product in the field with `2¹²⁸` elements, where the most significant bit
is the coefficient of `1`: `y` is added up over the set bits of `x`, of which
`count` are left, and multiplied with the variable at every step. -/
def fieldMul : (count : Nat) → (x y sum : Nat) → Nat
  | 0, _, _, sum => sum
  | count + 1, x, y, sum =>
    let sum := if x.testBit count then sum ^^^ y else sum
    fieldMul count x (if y % 2 = 1 then (y / 2) ^^^ (0xe1 * 2 ^ 120) else y / 2) sum

/-- The polynomial hash of a text: blocks are filled up with zeros, and a block
with the length in bits follows. -/
def authenticate (hashKey : Nat) (body : List UInt8) : Nat :=
  let absorb (sum : Nat) (block : List UInt8) : Nat :=
    let padded := block ++ List.replicate (16 - block.length) 0
    fieldMul 128 (sum ^^^ ofBigEndian padded) hashKey 0
  absorb ((blocks 16 body).foldl absorb 0) (bigEndian 16 (8 * body.length))

/-- The counter block with the given number. -/
def counterBlock (nonce : Bytes 12) (number : Nat) : Aes256.Block :=
  nonce ++ Bytes.ofNat 4 number

/-- Key stream from the counter block with the given number on. -/
def keystream (keys : List (List UInt8)) (nonce : Bytes 12) :
    (count number : Nat) → List UInt8
  | 0, _ => []
  | count + 1, number =>
    (Aes256.encryptBlock keys (counterBlock nonce number)).toList ++
      keystream keys nonce count (number + 1)

/-- A text masked with the key stream. -/
def mask (keys : List (List UInt8)) (nonce : Bytes 12) (text : List UInt8) : List UInt8 :=
  List.zipWith (· ^^^ ·) text (keystream keys nonce ((text.length + 15) / 16) 2)

/-- The tag of a masked text. -/
def tag (keys : List (List UInt8)) (nonce : Bytes 12) (body : List UInt8) : Bytes 16 :=
  let hashKey := (Aes256.encryptBlock keys (Bytes.zero 16)).toNat
  Bytes.xor (Bytes.ofNat 16 (authenticate hashKey body))
    (Aes256.encryptBlock keys (counterBlock nonce 1))

/-- The masked text and its tag, unless the text is too long. -/
def encrypt? (key : Bytes 32) (nonce : Bytes 12) (plaintext : List UInt8) :
    Option (List UInt8 × Bytes 16) :=
  if plaintext.length ≤ maxPlaintext then
    let keys := Aes256.roundKeys key
    let body := mask keys nonce plaintext
    some (body, tag keys nonce body)
  else none

/-- The text behind a masked text, if the tag is the right one. -/
def decrypt? (key : Bytes 32) (nonce : Bytes 12) (body : List UInt8) (mac : Bytes 16) :
    Option (List UInt8) :=
  let keys := Aes256.roundKeys key
  if body.length ≤ maxBody ∧ tag keys nonce body = mac then some (mask keys nonce body)
  else none

theorem keystream_length (keys : List (List UInt8)) (nonce : Bytes 12) (count number : Nat) :
    (keystream keys nonce count number).length = 16 * count := by
  induction count generalizing number with
  | zero => rfl
  | succ count ih => simp [keystream, ih]; omega

@[simp] theorem mask_length (keys : List (List UInt8)) (nonce : Bytes 12)
    (text : List UInt8) : (mask keys nonce text).length = text.length := by
  simp [mask, keystream_length]
  omega

/-- Masking twice with a stream that is long enough changes nothing. -/
theorem zipWith_xor_cancel (text stream : List UInt8) (h : text.length ≤ stream.length) :
    List.zipWith (· ^^^ ·) (List.zipWith (· ^^^ ·) text stream) stream = text := by
  induction text generalizing stream with
  | nil => simp
  | cons byte rest ih =>
    cases stream with
    | nil => simp at h
    | cons first stream =>
      have htail : rest.length ≤ stream.length := by simpa using h
      simp only [List.zipWith_cons_cons, ih stream htail]
      rw [UInt8.xor_assoc, UInt8.xor_self, UInt8.xor_zero]

theorem mask_mask (keys : List (List UInt8)) (nonce : Bytes 12) (text : List UInt8) :
    mask keys nonce (mask keys nonce text) = text := by
  have h := mask_length keys nonce text
  rw [mask, h, mask, zipWith_xor_cancel]
  rw [keystream_length]
  omega

/-- Decryption gives back what was encrypted. -/
theorem decrypt?_of_encrypt? {key : Bytes 32} {nonce : Bytes 12}
    {plaintext body : List UInt8} {mac : Bytes 16}
    (h : encrypt? key nonce plaintext = some (body, mac)) :
    decrypt? key nonce body mac = some plaintext := by
  rw [encrypt?] at h
  split at h
  · rename_i hlength
    simp only [Option.some.injEq, Prod.mk.injEq] at h
    obtain ⟨rfl, rfl⟩ := h
    have hbody : plaintext.length ≤ maxBody := Nat.le_trans hlength (by decide)
    simp [decrypt?, mask_mask, hbody]
  · simp at h

end Aes256Gcm
end Quorum
