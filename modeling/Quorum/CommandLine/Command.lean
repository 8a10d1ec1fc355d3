import Quorum.CommandLine.Options
import Quorum.ObjectId

/-!
# Commands

What the program can be asked to do, and how it is asked.
-/

namespace Quorum
namespace CommandLine

/-- Creates a key server with a fresh master key. -/
structure Keygen where
  name : String
  url : String
  /-- The identifier of the server; a random one is drawn if it is missing. -/
  id : Option ObjectId
  /-- Where to write the key file. -/
  out : String
  /-- The server list to register the server in. -/
  servers : Option String

/-- Issues a key for an identity. -/
structure Extract where
  keyFile : String
  packageId : ObjectId
  innerId : String

/-- Seals an object for the servers of a list. -/
structure Encrypt where
  servers : String
  packageId : ObjectId
  innerId : String
  threshold : UInt8
  /-- The file with the data to be sealed, unless the key alone is kept. -/
  input : Option String
  /-- Where to write the object. -/
  out : Option String
  /-- Where to write the key. -/
  keyOut : Option String

/-- Opens an object. -/
structure Decrypt where
  object : String
  /-- Issued keys, with the servers that have issued them. -/
  keys : List String
  /-- Key files of servers that are run to issue keys. -/
  keyFiles : List String
  /-- Whether there must be a key for each service. -/
  strict : Bool
  timeoutSeconds : Nat
  /-- Where to write what was sealed. -/
  out : Option String

/-- A request to the program. -/
inductive Command where
  | keygen (options : Keygen)
  | extract (options : Extract)
  | encrypt (options : Encrypt)
  | decrypt (options : Decrypt)
  | inspect (object : String)
  /-- Asks how the program is used. -/
  | help

/-- An identifier. -/
def id? (value : String) : Option ObjectId := (ObjectId.parse value).toOption

/-- The options of the command that creates a key server. -/
def Keygen.specs : List OptionSpec :=
  [.single "name" some, .single "url" some, .single "object-id" id?, .single "out" path?,
    .single "servers" path?]

/-- Creating a key server as it is asked for by options. -/
def Keygen.ofGiven? (given : Given) : Option Keygen := do
  return {
    name := ← given.required "name" some
    url := ← given.required "url" some
    id := ← given.optional "object-id" id?
    out := ← given.required "out" path?
    servers := ← given.optional "servers" path? }

/-- The options of the command that issues a key. -/
def Extract.specs : List OptionSpec :=
  [.single "key-file" path?, .single "package-id" id?, .single "inner-id" some]

/-- Issuing a key as it is asked for by options. -/
def Extract.ofGiven? (given : Given) : Option Extract := do
  return {
    keyFile := ← given.required "key-file" path?
    packageId := ← given.required "package-id" id?
    innerId := ← given.required "inner-id" some }

/-- The options of the command that seals an object; one has a letter. -/
def Encrypt.specs : List OptionSpec :=
  [.single "servers" path?, .single "package-id" id?, .single "inner-id" some,
    { OptionSpec.single "threshold" byte? with letter := some 't' },
    .single "input" path?, .flag "plain", .single "out" path?, .single "key-out" path?]

/-- Sealing as it is asked for by options; either a file is given or the key alone is
kept. -/
def Encrypt.ofGiven? (given : Given) : Option Encrypt := do
  if given.has "input" = given.has "plain" then none
  else
    return {
      servers := ← given.required "servers" path?
      packageId := ← given.required "package-id" id?
      innerId := ← given.required "inner-id" some
      threshold := ← given.required "threshold" byte?
      input := ← given.optional "input" path?
      out := ← given.optional "out" path?
      keyOut := ← given.optional "key-out" path? }

/-- The options of the command that opens an object. -/
def Decrypt.specs : List OptionSpec :=
  [.single "object" path?, .repeated "key" some, .repeated "key-file" path?, .flag "strict",
    .single "timeout-secs" word?, .single "out" path?]

/-- Opening as it is asked for by options; keys and key files exclude each other. -/
def Decrypt.ofGiven? (given : Given) : Option Decrypt := do
  if given.has "key" && given.has "key-file" then none
  else
    return {
      object := ← given.required "object" path?
      keys := ← given.repeated "key" some
      keyFiles := ← given.repeated "key-file" path?
      strict := given.has "strict"
      timeoutSeconds := (← given.optional "timeout-secs" word?).getD 10
      out := ← given.optional "out" path? }

namespace Command

/-- The names of the commands. -/
def names : List String := ["keygen", "extract", "encrypt", "decrypt", "inspect", "help"]

/-- The options of the command with a name, and what they ask for. -/
def form? : String → Option (List OptionSpec × (Given → Option Command))
  | "keygen" => some (Keygen.specs, fun given => (Keygen.ofGiven? given).map keygen)
  | "extract" => some (Extract.specs, fun given => (Extract.ofGiven? given).map extract)
  | "encrypt" => some (Encrypt.specs, fun given => (Encrypt.ofGiven? given).map encrypt)
  | "decrypt" => some (Decrypt.specs, fun given => (Decrypt.ofGiven? given).map decrypt)
  | "inspect" =>
    some ([.single "object" path?], fun given => (given.required "object" path?).map inspect)
  | _ => none

/-- The command that is given by the arguments of the program, if they are understood.
It can be asked how each command is used: by an option of the command, or by a command
of its own that takes the name. -/
def parse? : List String → Option Command
  | [] => none
  | name :: arguments =>
    if asksForHelp name then some help
    else if name = "help" then
      match arguments with
      | [] => some help
      | [topic] => if topic ∈ names then some help else none
      | _ => none
    else do
      let (specs, ofGiven?) ← form? name
      let scanned ← scan? specs arguments
      if scanned.help then return help else ofGiven? scanned.given

end Command

end CommandLine
end Quorum
