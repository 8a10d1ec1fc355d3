import Quorum.Bytes

/-!
# Hexadecimal text

Bytes are written with two lowercase digits each; digits of both cases are read.
A text that is refused is refused for one of two causes: an odd number of bytes,
found first, or the first byte that is no digit.
-/

namespace Quorum
namespace Hex

/-- Why a text is not the hexadecimal form of a byte string. -/
inductive Fault where
  /-- The text does not consist of pairs. -/
  | oddLength
  /-- The byte at the given offset of the text's UTF-8 form is no digit. -/
  | invalidByte (byte : UInt8) (position : Nat)
  /-- A fault that is described in words. -/
  | other (text : String)
deriving DecidableEq

/-- The digit for a number below sixteen. -/
def digit (value : UInt8) : Char :=
  Char.ofNat (if value < 10 then value.toNat + 48 else value.toNat + 87)

/-- The number that a digit of either case stands for. -/
def digitValue? (byte : UInt8) : Option UInt8 :=
  if 48 ≤ byte ∧ byte ≤ 57 then some (byte - 48)
  else if 97 ≤ byte ∧ byte ≤ 102 then some (byte - 87)
  else if 65 ≤ byte ∧ byte ≤ 70 then some (byte - 55)
  else none

/-- The digits of a byte string. -/
def digits (bytes : List UInt8) : List Char :=
  bytes.flatMap fun (byte : UInt8) => [digit (byte >>> 4), digit (byte &&& 15)]

/-- The hexadecimal form of a byte string. -/
def encode (bytes : List UInt8) : String := String.ofList (digits bytes)

/-- The value of the digit at an offset. -/
def readDigit (byte : UInt8) (position : Nat) : Except Fault UInt8 :=
  match digitValue? byte with
  | some value => .ok value
  | none => .error (.invalidByte byte position)

/-- The bytes that pairs of digits stand for; `position` is the offset of the
first pair. -/
def readPairs (position : Nat) : List UInt8 → Except Fault (List UInt8)
  | high :: low :: rest => do
    let high ← readDigit high position
    let low ← readDigit low (position + 1)
    let rest ← readPairs (position + 2) rest
    return (high <<< 4 ||| low) :: rest
  | _ => .ok []

/-- The byte string with the given digits, which are given as bytes. -/
def decodeBytes (text : List UInt8) : Except Fault (List UInt8) :=
  if text.length % 2 = 1 then .error .oddLength else readPairs 0 text

/-- The byte string whose hexadecimal form is given. -/
def decode (text : String) : Except Fault (List UInt8) := decodeBytes (utf8 text)

/-- Whether the character of a byte is shown as it is. -/
def isShown (byte : UInt8) : Bool :=
  (32 ≤ byte && byte < 127) || (161 ≤ byte && byte != 173)

/-- The character whose code is a byte, quoted. -/
def quoted (byte : UInt8) : String :=
  if byte = 0 then "'\\0'"
  else if byte = 9 then "'\\t'"
  else if byte = 10 then "'\\n'"
  else if byte = 13 then "'\\r'"
  else if byte = 39 then "'\\''"
  else if byte = 92 then "'\\\\'"
  else if isShown byte then "'" ++ (Char.ofNat byte.toNat).toString ++ "'"
  else "'\\u\x7b" ++ String.ofList (Nat.toDigits 16 byte.toNat) ++ "\x7d'"

/-- What is said about a fault. -/
def Fault.message : Fault → String
  | oddLength => "Odd number of digits"
  | invalidByte byte position =>
    "Invalid character " ++ quoted byte ++ " at position " ++ toString position
  | other text => text

end Hex
end Quorum
