import Quorum.Bytes

/-!
# Base 64

Three bytes are written as four symbols of six bits each; an incomplete group at
the end is filled up with `=`.  Only the form that is written is read: the
padding is required, and the bits of the last symbol that stand for nothing must
be zero.  A faulty text is examined in pieces of eight bytes, and the last piece,
which may be padded, after all others.
-/

namespace Quorum
namespace Base64

/-- Why a text is not the base 64 form of a byte string. -/
inductive Fault where
  /-- The byte at an offset is no symbol, or is padding that may not stand
  there. -/
  | invalidByte (byte : UInt8) (offset : Nat)
  /-- The last symbol has bits that stand for nothing. -/
  | invalidLastSymbol (byte : UInt8) (offset : Nat)
  /-- A single symbol is left over. -/
  | remainder
  /-- The text is not filled up to groups of four. -/
  | padding
deriving DecidableEq

/-- What is said about a fault. -/
def Fault.message : Fault → String
  | invalidByte byte offset =>
    "Invalid byte " ++ toString byte.toNat ++ ", offset " ++ toString offset ++ "."
  | invalidLastSymbol byte offset =>
    "Invalid last symbol " ++ toString byte.toNat ++ ", offset " ++ toString offset ++ "."
  | remainder => "Encoded text cannot have a 6-bit remainder."
  | padding => "Invalid padding"

/-- The byte that fills up the last group. -/
def pad : UInt8 := 61

/-- The symbol for a number below 64. -/
def symbol (value : Nat) : UInt8 :=
  if value < 26 then UInt8.ofNat (65 + value)
  else if value < 52 then UInt8.ofNat (97 + (value - 26))
  else if value < 62 then UInt8.ofNat (48 + (value - 52))
  else if value = 62 then 43
  else 47

/-- The number that a symbol stands for. -/
def symbolValue? (byte : UInt8) : Option Nat :=
  if 65 ≤ byte ∧ byte ≤ 90 then some (byte.toNat - 65)
  else if 97 ≤ byte ∧ byte ≤ 122 then some (byte.toNat - 97 + 26)
  else if 48 ≤ byte ∧ byte ≤ 57 then some (byte.toNat - 48 + 52)
  else if byte = 43 then some 62
  else if byte = 47 then some 63
  else none

/-- The symbols of a byte string, as bytes. -/
def encodeBytes : List UInt8 → List UInt8
  | [] => []
  | [a] =>
    let value := a.toNat * 16
    [symbol (value / 64), symbol (value % 64), pad, pad]
  | [a, b] =>
    let value := (a.toNat * 256 + b.toNat) * 4
    [symbol (value / 64 / 64), symbol (value / 64 % 64), symbol (value % 64), pad]
  | a :: b :: c :: rest =>
    let value := (a.toNat * 256 + b.toNat) * 256 + c.toNat
    symbol (value / 64 / 64 / 64) :: symbol (value / 64 / 64 % 64) ::
      symbol (value / 64 % 64) :: symbol (value % 64) :: encodeBytes rest

/-- The base 64 form of a byte string. -/
def encode (bytes : List UInt8) : String :=
  String.ofList ((encodeBytes bytes).map fun byte => Char.ofNat byte.toNat)

/-- The values of symbols, the first of which is at the given offset. -/
def readSymbols (offset : Nat) : List UInt8 → Except Fault (List Nat)
  | [] => .ok []
  | byte :: rest =>
    match symbolValue? byte with
    | none => .error (.invalidByte byte offset)
    | some value => (readSymbols (offset + 1) rest).map (value :: ·)

/-- The values of the symbols of the last piece, the padding behind them, and the
offset at which it starts.  Padding belongs to the second half of a group, and no
symbol follows it; a fault that involves padding is reported at the first of
it. -/
def readLast (start : Nat) :
    (place : Nat) → (firstPad : Option Nat) → List UInt8 → Except Fault (List Nat × Nat)
  | _, _, [] => .ok ([], 0)
  | place, firstPad, byte :: rest =>
    if byte = pad then
      if place % 4 < 2 then .error (.invalidByte pad (start + firstPad.getD place))
      else
        (readLast start (place + 1) (firstPad.or (some place)) rest).map
          fun (values, pads) => (values, pads + 1)
    else
      match firstPad, symbolValue? byte with
      | some first, _ => .error (.invalidByte pad (start + first))
      | none, none => .error (.invalidByte byte (start + place))
      | none, some value =>
        (readLast start (place + 1) none rest).map
          fun (values, pads) => (value :: values, pads)

/-- The bytes of complete groups, and of an incomplete one, whose spare bits must
be zero.  `none` stands for spare bits that are not. -/
def join : List Nat → Option (List UInt8)
  | a :: b :: c :: d :: rest => do
    let value := ((a * 64 + b) * 64 + c) * 64 + d
    let bytes ← join rest
    return UInt8.ofNat (value / 256 / 256) :: UInt8.ofNat (value / 256 % 256) ::
      UInt8.ofNat (value % 256) :: bytes
  | [a, b, c] =>
    let value := (a * 64 + b) * 64 + c
    if value % 4 = 0 then
      some [UInt8.ofNat (value / 4 / 256), UInt8.ofNat (value / 4 % 256)]
    else none
  | [a, b] =>
    let value := a * 64 + b
    if value % 16 = 0 then some [UInt8.ofNat (value / 16)] else none
  | _ => some []

/-- The length of the last piece, which is not empty unless the text is. -/
def lastSize (length : Nat) : Nat := if length % 8 = 0 then min length 8 else length % 8

/-- The byte string whose base 64 form is given as bytes. -/
def decodeBytes (text : List UInt8) : Except Fault (List UInt8) := do
  if text.length % 4 = 1 then
    match text.getLast? with
    | some byte =>
      if byte ≠ pad ∧ symbolValue? byte = none then
        throw (.invalidByte byte (text.length - 1))
    | none => pure ()
    throw .remainder
  let start := text.length - lastSize text.length
  let front ← readSymbols 0 (text.take start)
  let (last, pads) ← readLast start 0 none (text.drop start)
  if (last.length + pads) % 4 ≠ 0 then
    throw .padding
  match join (front ++ last) with
  | some bytes => return bytes
  | none =>
    let offset := start + last.length - 1
    throw (.invalidLastSymbol (text.getD offset 0) offset)

/-- The byte string whose base 64 form is given. -/
def decode (text : String) : Except Fault (List UInt8) := decodeBytes (utf8 text)

end Base64
end Quorum
