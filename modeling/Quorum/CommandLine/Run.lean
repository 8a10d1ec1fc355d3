import Quorum.Base64
import Quorum.Blank
import Quorum.CommandLine.Command
import Quorum.CommandLine.Inspection
import Quorum.Fetch
import Quorum.KeyFile
import Quorum.ServerList

/-!
# Running commands

A command reads and writes files and gives the bytes that are printed at its end.
Sealed objects are kept as base 64 text.  Keys to open an object come from
arguments of the form `ID=KEY`, or are fetched from servers that are run from key
files after their proofs of possession have been checked.
-/

namespace Quorum
namespace CommandLine

/-- Why a command ends without a result. -/
inductive CommandError where
  | document (error : DocumentError)
  | noServers (path : String)
  | innerId (fault : Hex.Fault)
  | encoding (fault : Base64.Fault)
  /-- A key is not given in the form `ID=KEY`. -/
  | keyArgument (argument : String)
  | missingKey (server : ObjectId)
  /-- An identifier or the encoding of a key is no such text. -/
  | text (error : ParseError)
  | sealing (error : SealingError)
  | service (error : ServiceError)
  | randomnessExhausted
  /-- The command breaks off. -/
  | crash
deriving DecidableEq

/-- What is said about the error. -/
def CommandError.message : CommandError → String
  | document error => error.message
  | noServers path => "No key servers in " ++ path
  | innerId fault => fault.message
  | encoding fault => fault.message
  | keyArgument argument => "Expected OBJECT_ID=KEY, got " ++ argument
  | missingKey server => "Missing partial key for " ++ server.text
  | text error => error.message
  | sealing error => error.message
  | service error => error.message
  | randomnessExhausted => "No random scalar found"
  | crash => "The operation broke off"

/-- A failure of an operation as an error of a command. -/
def CommandError.ofFailure : Failure → CommandError
  | .refused error => .sealing error
  | .maskUndefined => .crash
  | .randomnessExhausted => .randomnessExhausted

/-- A failed request as an error of a command. -/
def CommandError.ofRequest : RequestFailure → CommandError
  | .error error => .service error
  | .crash => .crash

/-- The bytes of an inner identifier, whose digits may follow a marker. -/
def parseInnerId (text : String) : Except CommandError (List UInt8) :=
  (Hex.decode (String.ofList (dropMarker text.toList))).mapError .innerId

/-- The object in a base 64 text, which may be surrounded by white space. -/
def parseObject (text : String) : Except CommandError SealedObject := do
  let bytes ← (Base64.decode (trim text)).mapError CommandError.encoding
  (SealedObject.decode bytes).mapError .sealing

section Keys

variable (suite : PairingSuite)

/-- The line that gives an issued key. -/
def keyLine (server : ObjectId) (key : suite.G1) : String :=
  server.text ++ "=" ++ Hex.encode (suite.encode1 key).toList

/-- The server and the key that an argument gives. -/
def parseKey (argument : String) : Except CommandError (ObjectId × suite.G1) :=
  match splitAtEquals argument.toList with
  | (_, none) => .error (.keyArgument argument)
  | (server, some key) => do
    let server ← (ObjectId.parse (String.ofList server)).mapError CommandError.text
    let encoded ← (Bytes.parse 48 (String.ofList key)).mapError CommandError.text
    let key ← (Ibe.decode1 suite encoded).mapError CommandError.sealing
    return (server, key)

/-- The servers and the keys that arguments give. -/
def parseKeys (arguments : List String) : Except CommandError (List (ObjectId × suite.G1)) :=
  arguments.mapM (parseKey suite)

variable {suite}

/-- The first key of each service of an object, in the order of the services. -/
def keysOfServices (object : SealedObject) (keys : List (ObjectId × suite.G1)) :
    Except CommandError (List suite.G1) :=
  object.services.mapM fun service =>
    match keys.find? fun entry => entry.1 = service.server with
    | some entry => Except.ok entry.2
    | none => .error (.missingKey service.server)

variable (suite)

/-- Opens an object with the keys that arguments give; with `strict`, there must be
one for each service. -/
def openWithArguments (object : SealedObject) (arguments : List String) (strict : Bool) :
    Except CommandError (List UInt8) := do
  let keys ← parseKeys suite arguments
  if strict then
    let ordered ← keysOfServices object keys
    (Sealing.decryptAll object ordered).mapError .ofFailure
  else (Sealing.decrypt object (Table.ofList keys)).mapError .ofFailure

/-- The servers of key files with their master keys, and a directory in which they
are registered. -/
def serve (files : List (KeyFile × suite.Scalar)) : LocalServers suite × Directory :=
  files.foldl
    (fun (servers, directory) (file, masterKey) =>
      let (info, servers) := servers.add file.id file.name file.url masterKey
      (servers, directory.insert info))
    ({}, {})

/-- The entries of those services of an object that have a key file, after their
proofs of possession have been checked. -/
def servedServices (object : SealedObject) (files : List (KeyFile × suite.Scalar)) :
    Except RequestFailure (List ServerInfo) :=
  let (servers, directory) := serve suite files
  let ids := (object.services.map Service.server).filter fun id => (directory.get? id).isSome
  directory.verified suite servers.client ids

/-- How long a request to a server of a key file may take, and how many may be under
way. -/
def limitsOf (timeoutSeconds : Nat) : FetchLimits := { timeout := timeoutSeconds * 1000 }

/-- The keys that are fetched from the servers of key files, where `complete` asks
the targets through a client and gives their answers in the order in which they
come. -/
def fetchFromFiles (object : SealedObject) (files : List (KeyFile × suite.Scalar))
    (limits : FetchLimits) (complete : Client → List Target → List (ObjectId × Answer)) :
    Except CommandError (KeyRing suite) := do
  let infos ← (servedServices suite object files).mapError CommandError.ofRequest
  (Fetch.keys suite infos object limits
    (complete (serve suite files).1.client)).mapError .ofRequest

/-- Asks all targets for the key of an object, and gives their answers in the order
in which they come. -/
def completeInTime (object : SealedObject) (limits : FetchLimits) (client : Client)
    (targets : List Target) : List (ObjectId × Answer) :=
  (Fetch.completions client { identity := object.identity } limits targets).map
    (Fetch.answer limits)

/-- Opens an object with keys that are fetched from the servers of key files. -/
def openWithFiles (object : SealedObject) (files : List (KeyFile × suite.Scalar))
    (limits : FetchLimits) (complete : Client → List Target → List (ObjectId × Answer)) :
    Except CommandError (List UInt8) := do
  let keys ← fetchFromFiles suite object files limits complete
  (Sealing.decrypt object keys).mapError .ofFailure

end Keys

variable {m : Type → Type} [Monad m] [FileAccess m] (suite : PairingSuite)

/-- A step whose result is known. -/
def known {α : Type} (result : Except CommandError α) : ExceptT CommandError m α :=
  ExceptT.mk (pure result)

/-- A step that works on files. -/
def onFiles {α : Type} (step : ExceptT DocumentError m α) : ExceptT CommandError m α :=
  step.adapt .document

/-- Writes the key file of a new server, registers the server, and prints its
entry. -/
def Keygen.run (options : Keygen) (random : RandomSource) :
    ExceptT CommandError m (List UInt8) := do
  let (id, random) :=
    match options.id with
    | some id => (id, random)
    | none =>
      let (bytes, random) := random.take 32
      (⟨bytes⟩, random)
  let (masterKey, _) ← known ((Ibe.drawScalar suite random).mapError .ofFailure)
  let file := KeyFile.ofMasterKey suite id options.name options.url masterKey
  onFiles (file.save options.out)
  match options.servers with
  | some path => discard <| onFiles (ServerList.update path file.info)
  | none => pure ()
  return utf8 (file.info.toJson.pretty ++ "\n")

/-- Prints the key that the server of a key file issues for an identity. -/
def Extract.run (options : Extract) : ExceptT CommandError m (List UInt8) := do
  let (file, masterKey) ← onFiles (KeyFile.load suite options.keyFile)
  let innerId ← known (parseInnerId options.innerId)
  let key := Ibe.extract suite masterKey (fullIdentity options.packageId innerId)
  return utf8 (keyLine suite file.id key ++ "\n")

/-- What is to be sealed: the contents of a file, or nothing but the key. -/
def Encrypt.payload (options : Encrypt) : ExceptT CommandError m Payload := do
  match options.input with
  | some path => return .data (← onFiles (FileAccess.load .input path))
  | none => return .keyOnly

/-- The object that is sealed, and its key. -/
def Encrypt.sealed (options : Encrypt) (infos : List ServerInfo) (random : RandomSource) :
    ExceptT CommandError m Sealing.Sealed := do
  if infos = [] then
    throw (.noServers options.servers)
  let servers ← known ((ServerSet.ofInfos suite infos).mapError .sealing)
  let payload ← options.payload
  let innerId ← known (parseInnerId options.innerId)
  known ((Sealing.encrypt options.packageId innerId servers options.threshold payload
    random).mapError .ofFailure)

/-- What is printed after an object has been written to a file. -/
def Encrypt.report (path : String) (servers threshold size : Nat) : String :=
  "Encrypted object written to " ++ path ++ "\n" ++
    "  Servers: " ++ toString servers ++ "\n" ++
    "  Threshold: " ++ toString threshold ++ "\n" ++
    "  Size: " ++ toString size ++ " bytes\n"

/-- Seals an object, and writes or prints it. -/
def Encrypt.run (options : Encrypt) (random : RandomSource) :
    ExceptT CommandError m (List UInt8) := do
  let infos ← onFiles (ServerList.load options.servers)
  let done ← options.sealed suite infos random
  match options.keyOut with
  | some path => onFiles (FileAccess.store path (utf8 (Hex.encode done.key.toList)))
  | none => pure ()
  let bytes := done.object.encode
  let encoded := Base64.encode bytes
  match options.out with
  | some path => do
    onFiles (FileAccess.store path (utf8 encoded))
    return utf8 (report path infos.length options.threshold.toNat bytes.length)
  | none => return utf8 (encoded ++ "\n")

/-- Reads an object from a file. -/
def readObject (path : String) : ExceptT CommandError m SealedObject := do
  let text ← onFiles (FileAccess.loadText .object path)
  known (parseObject text)

/-- What was sealed in an object.  Key files are used if there are any; `strict` is
for keys that are given. -/
def Decrypt.opened (options : Decrypt) (object : SealedObject) :
    ExceptT CommandError m (List UInt8) := do
  if options.keyFiles = [] then
    known (openWithArguments suite object options.keys options.strict)
  else
    let files ← options.keyFiles.mapM fun path => onFiles (KeyFile.load suite path)
    let limits := limitsOf options.timeoutSeconds
    known (openWithFiles suite object files limits (completeInTime object limits))

/-- Opens an object, and writes or prints what was sealed. -/
def Decrypt.run (options : Decrypt) : ExceptT CommandError m (List UInt8) := do
  let object ← readObject options.object
  let bytes ← options.opened suite object
  match options.out with
  | some path => do
    onFiles (FileAccess.store path bytes)
    return utf8 ("Decrypted " ++ toString bytes.length ++ " bytes to " ++ path ++ "\n")
  | none => return bytes

/-- Prints a description of an object. -/
def inspect (path : String) : ExceptT CommandError m (List UInt8) := do
  let object ← readObject path
  return utf8 (object.toJson.pretty ++ "\n")

/-- How the program is used. -/
def usage : String :=
  "Threshold encryption with independent key servers\n\n" ++
    "Usage:\n" ++
    "  keygen --name NAME --url URL [--object-id ID] --out FILE [--servers FILE]\n" ++
    "  extract --key-file FILE --package-id ID --inner-id HEX\n" ++
    "  encrypt --servers FILE --package-id ID --inner-id HEX -t NUMBER\n" ++
    "    (--input FILE | --plain) [--out FILE] [--key-out FILE]\n" ++
    "  decrypt --object FILE [--key ID=HEX]... [--key-file FILE]... [--strict]\n" ++
    "    [--timeout-secs NUMBER] [--out FILE]\n" ++
    "  inspect --object FILE\n"

/-- Runs a command, and gives what it prints. -/
def Command.run (random : RandomSource) : Command → ExceptT CommandError m (List UInt8)
  | keygen options => options.run suite random
  | extract options => options.run suite
  | encrypt options => options.run suite random
  | decrypt options => options.run suite
  | inspect path => CommandLine.inspect path
  | help => return utf8 usage

end CommandLine
end Quorum
