import Quorum.Json.Value

/-!
# Reading JSON

Each reader takes what it needs from the front of a text and gives what is left.
White space is allowed around values and nowhere else; control characters are not
allowed in strings.  Values are read with fuel, of which the length of the text is
enough since every step takes a character.
-/

namespace Quorum
namespace Json

/-- A text without the white space in front. -/
def skipBlanks : List Char → List Char
  | [] => []
  | c :: rest =>
    if c = ' ' ∨ c = '\n' ∨ c = '\t' ∨ c = '\r' then skipBlanks rest else c :: rest

/-- What is left of a text after a word in front. -/
def word? : (word text : List Char) → Option (List Char)
  | [], text => some text
  | c :: word, d :: text => if c = d then word? word text else none
  | _ :: _, [] => none

/-- The decimal digits in front of a text, and the rest. -/
def digits (text : List Char) : List Char × List Char :=
  (text.takeWhile Char.isDigit, text.dropWhile Char.isDigit)

/-- At least one decimal digit in front of a text, and the rest. -/
def someDigits? (text : List Char) : Option (List Char × List Char) :=
  let (front, rest) := digits text
  if front = [] then none else some (front, rest)

/-- The whole part of a number; a zero in front stands alone. -/
def whole? : List Char → Option (List Char × List Char)
  | '0' :: rest => if (digits rest).1 = [] then some (['0'], rest) else none
  | text => someDigits? text

/-- The fraction of a number, if there is one. -/
def fraction? : List Char → Option (List Char × List Char)
  | '.' :: rest => (someDigits? rest).map fun (front, rest) => ('.' :: front, rest)
  | text => some ([], text)

/-- The sign of an exponent, if there is one. -/
def sign : List Char → List Char × List Char
  | '+' :: rest => (['+'], rest)
  | '-' :: rest => (['-'], rest)
  | text => ([], text)

/-- The exponent of a number, if there is one. -/
def exponent? : List Char → Option (List Char × List Char)
  | c :: rest =>
    if c = 'e' ∨ c = 'E' then
      let (sign, rest) := sign rest
      (someDigits? rest).map fun (front, rest) => (c :: sign ++ front, rest)
    else some ([], c :: rest)
  | [] => some ([], [])

/-- The number in front of a text, after its sign. -/
def unsigned? (text : List Char) : Option (List Char × List Char) := do
  let (whole, rest) ← whole? text
  let (fraction, rest) ← fraction? rest
  let (exponent, rest) ← exponent? rest
  return (whole ++ fraction ++ exponent, rest)

/-- The number in front of a text. -/
def number? : List Char → Option (Json × List Char)
  | '-' :: rest =>
    (unsigned? rest).map fun (front, rest) => (.number (String.ofList ('-' :: front)), rest)
  | text =>
    (unsigned? text).map fun (front, rest) => (.number (String.ofList front), rest)

/-- The number that a hexadecimal digit stands for. -/
def hexValue? (c : Char) : Option Nat :=
  if '0' ≤ c ∧ c ≤ '9' then some (c.toNat - 48)
  else if 'a' ≤ c ∧ c ≤ 'f' then some (c.toNat - 87)
  else if 'A' ≤ c ∧ c ≤ 'F' then some (c.toNat - 55)
  else none

/-- The number that four hexadecimal digits stand for. -/
def escapeCode? (a b c d : Char) : Option Nat := do
  return ((← hexValue? a) * 16 + (← hexValue? b)) * 256 + (← hexValue? c) * 16 + (← hexValue? d)

/-- The symbol that an escaped number stands for. -/
def Symbol.ofCode (code : Nat) : Symbol :=
  if 0xd800 ≤ code ∧ code < 0xe000 then .half code else .char (Char.ofNat code)

/-- The character that a letter stands for after a backslash. -/
def shortEscape? : Char → Option Char
  | '"' => some '"'
  | '\\' => some '\\'
  | '/' => some '/'
  | 'b' => some '\x08'
  | 'f' => some '\x0c'
  | 'n' => some '\n'
  | 'r' => some '\r'
  | 't' => some '\t'
  | _ => none

/-- The symbols up to the quotation mark that ends a string, and what is left after
it. -/
def characters? : List Char → Option (List Symbol × List Char)
  | [] => none
  | '"' :: rest => some ([], rest)
  | '\\' :: 'u' :: a :: b :: c :: d :: rest => do
    let code ← escapeCode? a b c d
    let (symbols, rest) ← characters? rest
    return (Symbol.ofCode code :: symbols, rest)
  | '\\' :: c :: rest => do
    let c ← shortEscape? c
    let (symbols, rest) ← characters? rest
    return (.char c :: symbols, rest)
  | c :: rest =>
    if c.toNat < 32 ∨ c = '\\' then none
    else do
      let (symbols, rest) ← characters? rest
      return (.char c :: symbols, rest)

/-- Symbols in which the two halves of a surrogate pair, where they follow each
other, are one character. -/
def joinHalves : List Symbol → List Symbol
  | .half high :: .half low :: rest =>
    if high < 0xdc00 ∧ 0xdc00 ≤ low then
      .char (Char.ofNat (0x10000 + (high - 0xd800) * 1024 + (low - 0xdc00))) :: joinHalves rest
    else .half high :: joinHalves (.half low :: rest)
  | symbol :: rest => symbol :: joinHalves rest
  | [] => []

/-- The string whose opening quotation mark has been taken, and what is left. -/
def symbols? (text : List Char) : Option (List Symbol × List Char) :=
  (characters? text).map fun (symbols, rest) => (joinHalves symbols, rest)

mutual

/-- The value in front of a text, and what is left after it. -/
def value? : (fuel : Nat) → List Char → Option (Json × List Char)
  | 0, _ => none
  | fuel + 1, text =>
    match skipBlanks text with
    | '"' :: rest => (symbols? rest).map fun (symbols, rest) => (.string symbols, rest)
    | '[' :: rest =>
      match skipBlanks rest with
      | ']' :: rest => some (.array [], rest)
      | rest => (items? fuel rest).map fun (items, rest) => (.array items, rest)
    | '\x7b' :: rest =>
      match skipBlanks rest with
      | '\x7d' :: rest => some (.object [], rest)
      | rest => (members? fuel rest).map fun (members, rest) => (.object members, rest)
    | 'n' :: rest => (word? ['u', 'l', 'l'] rest).map fun rest => (.null, rest)
    | 't' :: rest => (word? ['r', 'u', 'e'] rest).map fun rest => (.bool true, rest)
    | 'f' :: rest => (word? ['a', 'l', 's', 'e'] rest).map fun rest => (.bool false, rest)
    | rest => number? rest

/-- The items up to the end of an array, of which there is at least one. -/
def items? : (fuel : Nat) → List Char → Option (List Json × List Char)
  | 0, _ => none
  | fuel + 1, text => do
    let (item, rest) ← value? fuel text
    match skipBlanks rest with
    | ',' :: rest =>
      let (items, rest) ← items? fuel rest
      return (item :: items, rest)
    | ']' :: rest => return ([item], rest)
    | _ => none

/-- The members up to the end of an object, of which there is at least one. -/
def members? : (fuel : Nat) → List Char → Option (List (List Symbol × Json) × List Char)
  | 0, _ => none
  | fuel + 1, text => do
    let '"' :: rest := skipBlanks text | none
    let (name, rest) ← symbols? rest
    let ':' :: rest := skipBlanks rest | none
    let (value, rest) ← value? fuel rest
    match skipBlanks rest with
    | ',' :: rest =>
      let (members, rest) ← members? fuel rest
      return ((name, value) :: members, rest)
    | '\x7d' :: rest => return ([(name, value)], rest)
    | _ => none

end

/-- The value that a text consists of. -/
def parse? (text : String) : Option Json :=
  let chars := text.toList
  match value? (2 * chars.length + 1) chars with
  | some (value, rest) => if skipBlanks rest = [] then some value else none
  | none => none

end Json
end Quorum
