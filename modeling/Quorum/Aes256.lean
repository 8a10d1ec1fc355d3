import Quorum.Bytes
import Quorum.GF256

/-!
# AES-256

The block cipher of FIPS 197 with a key of 32 bytes.  A block is a byte string
of length 16 that is read as four columns of four bytes.  Only encryption is
needed, since the mode of operation uses the cipher in one direction.
-/

namespace Quorum
namespace Aes256

/-- A block of 16 bytes. -/
abbrev Block := Bytes 16

/-- The substitution: the inverse in the field with 256 elements, followed by an
affine map. -/
def substitute (byte : UInt8) : UInt8 :=
  let x := (GF256.power254 ⟨byte⟩).byte
  let rotate (n : UInt8) : UInt8 := x <<< n ||| x >>> (8 - n)
  x ^^^ rotate 1 ^^^ rotate 2 ^^^ rotate 3 ^^^ rotate 4 ^^^ 0x63

/-- The values of the substitution. -/
def substitutionTable : Vector UInt8 256 := Vector.ofFn fun i => substitute (UInt8.ofNat i)

/-- The substitution of a byte, looked up. -/
def substituted (byte : UInt8) : UInt8 := substitutionTable.get ⟨byte.toNat, byte.toNat_lt⟩

/-- The constants of the key schedule: the powers of `x`. -/
def scheduleConstants : List UInt8 := [1, 2, 4, 8, 16, 32, 64]

/-- The words of four bytes that follow eight words of the key schedule, without
the changes that are made to every eighth and every fourth of them. -/
def chain (previous : List UInt8) : List (List UInt8) → List (List UInt8)
  | [] => []
  | word :: rest =>
    let next := List.zipWith (· ^^^ ·) word previous
    next :: chain next rest

/-- The eight words that follow eight words of the key schedule. -/
def nextWords (words : List (List UInt8)) (constant : UInt8) : List (List UInt8) :=
  let last := words.getLast?.getD []
  let rotated := (last.drop 1 ++ last.take 1).map substituted
  let start := List.zipWith (· ^^^ ·) rotated [constant, 0, 0, 0]
  let lower := chain start (words.take 4)
  let middle := (lower.getLast?.getD []).map substituted
  lower ++ chain middle (words.drop 4)

/-- The words of the key schedule from eight given ones on. -/
def scheduleFrom (words : List (List UInt8)) : List UInt8 → List (List UInt8)
  | [] => words
  | constant :: rest => words ++ scheduleFrom (nextWords words constant) rest

/-- The round keys, of which the cipher uses the first fifteen. -/
def roundKeys (key : Bytes 32) : List (List UInt8) :=
  blocks 16 (scheduleFrom (blocks 4 key.toList) scheduleConstants).flatten

/-- The exclusive or of a block with a round key. -/
def addKey (state : Block) (key : List UInt8) : Block :=
  Vector.ofFn fun i => state[i] ^^^ key.getD i 0

/-- The byte of a block at a place that is counted modulo its length. -/
def byteAt (state : Block) (place : Nat) : UInt8 :=
  state.get ⟨place % 16, Nat.mod_lt place (by decide)⟩

/-- Substitutes all bytes and moves those of row `r` by `r` columns. -/
def substituteAndShift (state : Block) : Block :=
  Vector.ofFn fun i => substituted (byteAt state (i.val + 4 * (i.val % 4)))

/-- Multiplies every column with a fixed polynomial. -/
def mixColumns (state : Block) : Block :=
  Vector.ofFn fun i =>
    let column := i.val / 4 * 4
    let byte (k : Nat) : UInt8 := byteAt state (column + (i.val + k) % 4)
    GF256.timesX (byte 0) ^^^ GF256.timesX (byte 1) ^^^ byte 1 ^^^ byte 2 ^^^ byte 3

/-- The rounds that are left, with their keys. -/
def rounds (state : Block) : List (List UInt8) → Block
  | [] => state
  | [key] => addKey (substituteAndShift state) key
  | key :: rest => rounds (addKey (mixColumns (substituteAndShift state)) key) rest

/-- The encryption of a block under expanded round keys. -/
def encryptBlock (keys : List (List UInt8)) (block : Block) : Block :=
  match keys.take 15 with
  | [] => block
  | first :: rest => rounds (addKey block first) rest

end Aes256
end Quorum
