/-!
# Byte strings

Byte strings whose length is free are lists; those whose length a format fixes
carry it in their type.  Numbers are written big-endian or little-endian in a
given number of bytes.  The main statements say that both forms have the length
asked for, and that reading a number back loses nothing that fits.
-/

namespace Quorum

/-- A byte string of exactly `n` bytes. -/
abbrev Bytes (n : Nat) := Vector UInt8 n

/-- The last `size` base-256 digits of a number, the least significant first. -/
def littleEndian : (size value : Nat) → List UInt8
  | 0, _ => []
  | size + 1, value => UInt8.ofNat value :: littleEndian size (value / 256)

/-- The last `size` base-256 digits of a number, the most significant first. -/
def bigEndian (size value : Nat) : List UInt8 := (littleEndian size value).reverse

/-- The number with the given base-256 digits, the least significant first. -/
def ofLittleEndian : List UInt8 → Nat
  | [] => 0
  | byte :: rest => byte.toNat + 256 * ofLittleEndian rest

/-- The number with the given base-256 digits, the most significant first. -/
def ofBigEndian (bytes : List UInt8) : Nat := ofLittleEndian bytes.reverse

@[simp] theorem littleEndian_length (size value : Nat) :
    (littleEndian size value).length = size := by
  induction size generalizing value with
  | zero => rfl
  | succ size ih => simp [littleEndian, ih]

@[simp] theorem bigEndian_length (size value : Nat) :
    (bigEndian size value).length = size := by
  simp [bigEndian]

/-- Reading the digits back gives the number modulo what they can hold. -/
theorem ofLittleEndian_littleEndian (size value : Nat) :
    ofLittleEndian (littleEndian size value) = value % Nat.pow 256 size := by
  induction size generalizing value with
  | zero => simp [littleEndian, ofLittleEndian, Nat.mod_one]
  | succ size ih =>
    rw [littleEndian, ofLittleEndian, ih]
    simp only [Nat.pow_eq, UInt8.toNat_ofNat', Nat.reducePow]
    rw [Nat.pow_succ', Nat.mod_mul]

/-- Reading the digits back gives the number modulo what they can hold. -/
theorem ofBigEndian_bigEndian (size value : Nat) :
    ofBigEndian (bigEndian size value) = value % Nat.pow 256 size := by
  simp only [ofBigEndian, bigEndian, List.reverse_reverse, ofLittleEndian_littleEndian]

namespace Bytes

/-- A list of bytes as a byte string of length `n`, if that is its length. -/
def ofList? (n : Nat) (bytes : List UInt8) : Option (Bytes n) :=
  if h : bytes.length = n then some ⟨bytes.toArray, by simpa using h⟩ else none

/-- The `n` bytes of a number, the most significant first. -/
def ofNat (n value : Nat) : Bytes n := ⟨(bigEndian n value).toArray, by simp⟩

/-- The number whose bytes are given, the most significant first. -/
def toNat {n : Nat} (bytes : Bytes n) : Nat := ofBigEndian bytes.toList

/-- The byte string of `n` zeros. -/
def zero (n : Nat) : Bytes n := Vector.replicate n 0

/-- The exclusive or, byte by byte. -/
def xor {n : Nat} (a b : Bytes n) : Bytes n := Vector.zipWith (· ^^^ ·) a b

@[simp] theorem ofList?_toList {n : Nat} (bytes : Bytes n) :
    ofList? n bytes.toList = some bytes := by
  simp [ofList?, Vector.toList]

/-- Masking twice with the same bytes changes nothing. -/
theorem xor_xor_cancel {n : Nat} (a mask : Bytes n) : xor (xor a mask) mask = a := by
  ext i hi
  simp only [xor, Vector.getElem_zipWith]
  rw [UInt8.xor_assoc, UInt8.xor_self, UInt8.xor_zero]

end Bytes

/-- Consecutive pieces of `size` elements, the last of which may be shorter. -/
def blocks {α : Type} (size : Nat) (items : List α) : List (List α) :=
  if _h : size = 0 ∨ items.length = 0 then []
  else items.take size :: blocks size (items.drop size)
termination_by items.length
decreasing_by
  simp only [List.length_drop]
  omega

/-- The UTF-8 form of a text. -/
def utf8 (text : String) : List UInt8 := text.toList.flatMap String.utf8EncodeChar

end Quorum
