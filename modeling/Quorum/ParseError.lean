import Quorum.Hex

/-!
# Texts of fixed-length byte strings

Identifiers and points are given as hexadecimal text with an optional `0x`
before the digits.  A text is refused because its digits are wrong or because it
stands for the wrong number of bytes.
-/

namespace Quorum

/-- Why a text or a byte string has no value of the type asked for. -/
inductive ParseError where
  | invalidHex (fault : Hex.Fault)
  | invalidLength (expected got : Nat)
deriving DecidableEq

/-- What is said about the error. -/
def ParseError.message : ParseError → String
  | invalidHex fault => "Invalid hex encoding: " ++ fault.message
  | invalidLength expected got =>
    "Invalid length: expected " ++ toString expected ++ " bytes, got " ++ toString got

/-- A text without the marker `0x` at its start, of which one is removed. -/
def dropMarker : List Char → List Char
  | '0' :: 'x' :: rest => rest
  | text => text

/-- A list of bytes as a byte string of length `n`. -/
def Bytes.ofList (n : Nat) (bytes : List UInt8) : Except ParseError (Bytes n) :=
  match Bytes.ofList? n bytes with
  | some bytes => .ok bytes
  | none => .error (.invalidLength n bytes.length)

/-- The byte string of length `n` that a text stands for. -/
def Bytes.parse (n : Nat) (text : String) : Except ParseError (Bytes n) :=
  match Hex.decode (String.ofList (dropMarker text.toList)) with
  | .ok bytes => Bytes.ofList n bytes
  | .error fault => .error (.invalidHex fault)

end Quorum
