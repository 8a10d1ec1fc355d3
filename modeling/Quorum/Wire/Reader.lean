import Quorum.Error
import Quorum.Wire.Uleb128

/-!
# Reading encodings

A reader takes what it needs from the front of the input and leaves the rest.
The name of the part that is being read goes into the error when the input is
faulty.  Numbers of variable length are accepted in their shortest form only and
up to 32 bits.
-/

namespace Quorum
namespace Wire

/-- Takes a value from the front of the input. -/
abbrev Reader (α : Type) := StateT (List UInt8) (Except SealingError) α

/-- The input is faulty. -/
def malformed {α : Type} (malformation : Malformation) : Reader α :=
  throw (.malformedObject malformation)

/-- Takes the next byte. -/
def byte (field : Field) : Reader UInt8 := do
  match ← get with
  | [] => malformed (.truncated field)
  | first :: rest =>
    set rest
    return first

/-- Takes the next `n` bytes, as a byte string of that length. -/
def fixed (n : Nat) (field : Field) : Reader (Bytes n) := do
  let input ← get
  match Bytes.ofList? n (input.take n) with
  | none => malformed (.truncated field)
  | some bytes =>
    set (input.drop n)
    return bytes

/-- Takes the digits of a number from a place on, of which at most `left` may
follow; `value` is what the digits before them stand for. -/
def uleb128Digits (field : Field) : (left place value : Nat) → Reader UInt32
  | 0, _, _ => malformed (.overflow field)
  | left + 1, place, value => do
    let digit ← byte field
    let value := value + digit.toNat % 128 * Nat.pow 128 place
    if digit < 128 then
      if 0 < place ∧ digit = 0 then malformed (.nonCanonical field)
      else if value < UInt32.size then return UInt32.ofNat value
      else malformed (.overflow field)
    else uleb128Digits field left (place + 1) value

/-- Takes a number of at most five digits. -/
def readUleb128 (field : Field) : Reader UInt32 := uleb128Digits field 5 0 0

/-- Takes a number of elements that have at least the given size each, if the rest
of the input has room for them. -/
def count (elementSize : Nat) (field : Field) : Reader Nat := do
  let number ← readUleb128 field
  let rest ← get
  if number.toNat * elementSize > rest.length then malformed (.truncated field)
  else return number.toNat

/-- Takes a byte string that follows its length. -/
def sized (field : Field) : Reader (List UInt8) := do
  let size ← count 1 field
  let input ← get
  set (input.drop size)
  return input.take size

/-- Takes all that is left. -/
def remainder : Reader (List UInt8) := do
  let rest ← get
  set ([] : List UInt8)
  return rest

/-- Takes `n` elements one after the other. -/
def elements {α : Type} (element : Reader α) : (n : Nat) → Reader (List α)
  | 0 => return []
  | n + 1 => do
    let first ← element
    let rest ← elements element n
    return first :: rest

/-- Takes nothing, and nothing may be left. -/
def finish : Reader Unit := do
  match ← get with
  | [] => return ()
  | rest => malformed (.trailing rest.length)

/-- The number that stands for a length; what does not fit into 32 bits is written
as the largest number that does. -/
def size (length : Nat) : List UInt8 := uleb128 (min length (UInt32.size - 1))

/-- A byte string after its length. -/
def withSize (bytes : List UInt8) : List UInt8 := size bytes.length ++ bytes

end Wire
end Quorum
