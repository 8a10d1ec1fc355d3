import Quorum.Hex
import Quorum.Json.Value

/-!
# Writing JSON

Values are written on several lines: every item and every member has a line of
its own, two spaces further to the right than the value that it belongs to.
Empty arrays and objects have no line breaks.  In strings only the quotation
mark, the backslash and control characters are escaped.
-/

namespace Quorum
namespace Json

/-- The last hexadecimal digit of a number. -/
def lastDigit (value : Nat) : Char := Hex.digit (UInt8.ofNat (value % 16))

/-- An escape by number. -/
def numericEscape (code : Nat) : List Char :=
  ['\\', 'u', lastDigit (code / 4096), lastDigit (code / 256), lastDigit (code / 16),
    lastDigit code]

/-- How a symbol is written in a string. -/
def escape : Symbol → List Char
  | .half code => numericEscape code
  | .char c =>
    if c = '"' then ['\\', '"']
    else if c = '\\' then ['\\', '\\']
    else if c = '\x08' then ['\\', 'b']
    else if c = '\x0c' then ['\\', 'f']
    else if c = '\n' then ['\\', 'n']
    else if c = '\r' then ['\\', 'r']
    else if c = '\t' then ['\\', 't']
    else if c.toNat < 32 then numericEscape c.toNat
    else [c]

/-- A string in quotation marks. -/
def quote (symbols : List Symbol) : List Char := '"' :: symbols.flatMap escape ++ ['"']

/-- The start of a line that is indented by a number of levels. -/
def newLine (depth : Nat) : List Char := '\n' :: List.replicate (2 * depth) ' '

mutual

/-- A value whose first line is indented by a number of levels. -/
def render (depth : Nat) : Json → List Char
  | .null => ['n', 'u', 'l', 'l']
  | .bool true => ['t', 'r', 'u', 'e']
  | .bool false => ['f', 'a', 'l', 's', 'e']
  | .number digits => digits.toList
  | .string symbols => quote symbols
  | .array [] => ['[', ']']
  | .array (item :: items) =>
    '[' :: newLine (depth + 1) ++ render (depth + 1) item ++ renderItems (depth + 1) items ++
      newLine depth ++ [']']
  | .object [] => ['\x7b', '\x7d']
  | .object ((name, value) :: members) =>
    '\x7b' :: newLine (depth + 1) ++ quote name ++ [':', ' '] ++ render (depth + 1) value ++
      renderMembers (depth + 1) members ++ newLine depth ++ ['\x7d']

/-- The items after the first. -/
def renderItems (depth : Nat) : List Json → List Char
  | [] => []
  | item :: items => ',' :: newLine depth ++ render depth item ++ renderItems depth items

/-- The members after the first. -/
def renderMembers (depth : Nat) : List (List Symbol × Json) → List Char
  | [] => []
  | (name, value) :: members =>
    ',' :: newLine depth ++ quote name ++ [':', ' '] ++ render depth value ++
      renderMembers depth members

end

/-- The written form of a value. -/
def pretty (value : Json) : String := String.ofList (render 0 value)

end Json
end Quorum
