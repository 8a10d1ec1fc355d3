/-!
# Options on a command line

Options have long names after two hyphens and may have a letter after one.  A
value follows as the next argument, where it must not look like an option, or in
the same argument: after `=`, or directly after the letter.  Arguments that are
no options are not understood.  Among the options it can be asked how the program
is used: what follows such a question does not matter, while the options before
it must be sound.
-/

namespace Quorum
namespace CommandLine

/-- How an option may be given. -/
structure OptionSpec where
  name : String
  letter : Option Char := none
  takesValue : Bool := true
  repeatable : Bool := false
  /-- Whether a text can be the value of the option. -/
  accepts : String → Bool := fun _ => true

namespace OptionSpec

/-- An option with a value that `read` understands. -/
def single {α : Type} (name : String) (read : String → Option α) : OptionSpec :=
  { name, accepts := fun value => (read value).isSome }

/-- An option with a value that `read` understands; it may be given again. -/
def repeated {α : Type} (name : String) (read : String → Option α) : OptionSpec :=
  { single name read with repeatable := true }

/-- An option without a value. -/
def flag (name : String) : OptionSpec := { name, takesValue := false }

end OptionSpec

/-- Options with their values, in the order in which they were given; an option
without a value has an empty one. -/
abbrev Given := List (String × String)

/-- Whether an argument cannot be the value of the option before it. -/
def looksLikeOption (argument : String) : Bool :=
  argument ≠ "-" && argument.toList.head? = some '-'

/-- A text divided at the first sign of equality, if it has one. -/
def splitAtEquals : List Char → List Char × Option (List Char)
  | [] => ([], none)
  | '=' :: rest => ([], some rest)
  | c :: rest =>
    let (front, value) := splitAtEquals rest
    (c :: front, value)

/-- An argument that is taken for an option: how the option may be given, and the
value in the same argument. -/
structure Token where
  option : OptionSpec
  attached : Option String

/-- The option that an argument gives. -/
def token? (specs : List OptionSpec) (argument : String) : Option Token :=
  match argument.toList with
  | '-' :: '-' :: rest => do
    let (name, attached) := splitAtEquals rest
    let option ← specs.find? fun spec => spec.name = String.ofList name
    return { option, attached := attached.map String.ofList }
  | '-' :: letter :: rest => do
    let option ← specs.find? fun spec => spec.letter = some letter
    let attached :=
      match rest with
      | [] => none
      | '=' :: value => some (String.ofList value)
      | value => some (String.ofList value)
    return { option, attached }
  | _ => none

/-- Whether an argument asks how the program is used. -/
def asksForHelp (argument : String) : Bool :=
  argument = "--help" || argument.toList.take 2 = ['-', 'h']

/-- What arguments say. -/
structure Scanned where
  given : Given
  /-- Whether they end with the question how the program is used. -/
  help : Bool

/-- What arguments say with an option before them. -/
def Scanned.add (name value : String) (scanned : Scanned) : Scanned :=
  { scanned with given := (name, value) :: scanned.given }

/-- What arguments say up to the question how the program is used, unless one of them
is not understood.  Two hyphens alone may stand at the end. -/
def scan (specs : List OptionSpec) : List String → Option Scanned
  | [] => some { given := [], help := false }
  | argument :: rest =>
    if asksForHelp argument then some { given := [], help := true }
    else if argument = "--" then
      if rest = [] then some { given := [], help := false } else none
    else
      match token? specs argument with
      | none => none
      | some token =>
        match token.option.takesValue, token.attached with
        | true, some value => (scan specs rest).map (Scanned.add token.option.name value)
        | true, none =>
          match rest with
          | [] => none
          | value :: rest =>
            if looksLikeOption value then none
            else (scan specs rest).map (Scanned.add token.option.name value)
        | false, none => (scan specs rest).map (Scanned.add token.option.name "")
        | false, some _ => none

namespace Given

/-- The values of an option. -/
def values (given : Given) (name : String) : List String :=
  (given.filter fun option => option.1 = name).map Prod.snd

/-- The value of an option that is given once at most. -/
def value? (given : Given) (name : String) : Option String := (given.values name).head?

/-- Whether an option is given. -/
def has (given : Given) (name : String) : Bool := (given.value? name).isSome

/-- Whether all values are understood, and only those options are repeated that may
be. -/
def respects (given : Given) (specs : List OptionSpec) : Bool :=
  specs.all fun spec =>
    (given.values spec.name).all spec.accepts &&
      (spec.repeatable || (given.values spec.name).length ≤ 1)

/-- The value of an option that must be given, in the form that `read` accepts. -/
def required {α : Type} (given : Given) (name : String) (read : String → Option α) :
    Option α := do
  read (← given.value? name)

/-- The value of an option that may be missing. -/
def optional {α : Type} (given : Given) (name : String) (read : String → Option α) :
    Option (Option α) :=
  match given.value? name with
  | none => some none
  | some value => (read value).map some

/-- The values of an option that may be repeated. -/
def repeated {α : Type} (given : Given) (name : String) (read : String → Option α) :
    Option (List α) :=
  (given.values name).mapM read

end Given

/-- What arguments say, if they are understood, their values are, and no option is
repeated that must not be. -/
def scan? (specs : List OptionSpec) (arguments : List String) : Option Scanned := do
  let scanned ← scan specs arguments
  if scanned.given.respects specs then return scanned else none

/-- A path, which must not be empty. -/
def path? (value : String) : Option String := if value = "" then none else some value

/-- The number with the given decimal digits, of which there must be one. -/
def decimal? (digits : List Char) : Option Nat :=
  if digits = [] ∨ digits.all Char.isDigit = false then none
  else some (digits.foldl (fun value digit => value * 10 + (digit.toNat - 48)) 0)

/-- A number that fits into a byte; it may have a sign. -/
def byte? (value : String) : Option UInt8 := do
  let number ←
    match value.toList with
    | '+' :: digits => decimal? digits
    | '-' :: digits => (decimal? digits).filter (· = 0)
    | digits => decimal? digits
  if number < 256 then return UInt8.ofNat number else none

/-- A number of 64 bits; it may have a plus sign. -/
def word? (value : String) : Option Nat := do
  let number ←
    match value.toList with
    | '+' :: digits => decimal? digits
    | digits => decimal? digits
  if number < UInt64.size then return number else none

end CommandLine
end Quorum
