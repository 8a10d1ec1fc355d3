/-!
# JSON values

Numbers are kept as they are written.  A string may hold one half of a surrogate
pair without the other, since an escape can stand for it; such a string is no
text.  A record is given by an object or by an array of its fields in order.
-/

namespace Quorum
namespace Json

/-- What a string is made of. -/
inductive Symbol where
  | char (value : Char)
  /-- One half of a surrogate pair. -/
  | half (code : Nat)
deriving DecidableEq

/-- The symbols of a text. -/
def symbols (text : String) : List Symbol := text.toList.map Symbol.char

/-- The character that a symbol is. -/
def Symbol.char? : Symbol → Option Char
  | char value => some value
  | half _ => none

/-- The text that consists of the given symbols, unless one of them is half of a
surrogate pair. -/
def text? (symbols : List Symbol) : Option String :=
  (symbols.mapM Symbol.char?).map String.ofList

/-- The symbols of a text are read back as that text. -/
theorem text?_symbols (text : String) : text? (symbols text) = some text := by
  have chars (chars : List Char) : (chars.map Symbol.char).mapM Symbol.char? = some chars := by
    induction chars with
    | nil => rfl
    | cons c rest ih => simp [List.mapM_cons, Symbol.char?, ih]
  simp [text?, symbols, chars]

end Json

/-- A JSON value. -/
inductive Json where
  | null
  | bool (value : Bool)
  | number (digits : String)
  | string (symbols : List Json.Symbol)
  | array (items : List Json)
  | object (members : List (List Json.Symbol × Json))

namespace Json

/-- The string that holds a text. -/
def ofText (text : String) : Json := .string (symbols text)

/-- The number that holds a natural number. -/
def ofNat (value : Nat) : Json := .number (toString value)

/-- The object with the given members. -/
def ofMembers (members : List (String × Json)) : Json :=
  .object (members.map fun (name, value) => (symbols name, value))

/-- The text that a value holds. -/
def asText? : Json → Option String
  | .string symbols => text? symbols
  | _ => none

/-- The items that a value holds. -/
def asItems? : Json → Option (List Json)
  | .array items => some items
  | _ => none

/-- The only value of a name among members. -/
def member? (name : String) (members : List (String × Json)) : Option Json :=
  match members.filter fun member => member.1 = name with
  | [(_, value)] => some value
  | _ => none

/-- The values of the fields of a record, in the order of their names.  An object
may have further members, but none of the fields twice; its names must all be
texts. -/
def record? (names : List String) : Json → Option (List Json)
  | .array items => if items.length = names.length then some items else none
  | .object members => do
    let named ← members.mapM fun (name, value) => do return (← text? name, value)
    names.mapM fun name => member? name named
  | _ => none

end Json
end Quorum
