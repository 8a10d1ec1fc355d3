import Quorum.Sealing

/-!
# Collecting issued keys

A collector accepts keys for one sealed object, each of which is checked against
the public key of the server that sent it.  It is ready once it holds as many
keys as the threshold of the object says; later keys are still accepted.
-/

namespace Quorum

/-- Whether enough keys have been collected. -/
inductive CollectionState where
  | collecting
  | ready
deriving DecidableEq

/-- The keys collected for an object so far. -/
structure Collector (suite : PairingSuite) where
  /-- The identity that the keys must have been issued for. -/
  identity : List UInt8
  threshold : Nat
  /-- The public keys of those services of the object whose key is known. -/
  publicKeys : Table ObjectId suite.G2
  keys : KeyRing suite
  state : CollectionState

instance : MonadLift (Except SealingError) (Except ServiceError) :=
  ⟨fun result => result.mapError .sealing⟩

namespace Collector

variable {suite : PairingSuite}

/-- A collector without keys.  Services that are not in the set cannot
contribute. -/
def start (object : SealedObject) (servers : ServerSet suite) :
    Except SealingError (Collector suite) := do
  object.validate
  let known := object.services.filterMap fun service =>
    (servers.find? service.server).map fun server => (service.server, server.publicKey)
  return {
    identity := object.identity
    threshold := object.threshold.toNat
    publicKeys := Table.ofList known
    keys := Table.empty
    state := .collecting }

/-- The number of keys. -/
def collected (collector : Collector suite) : Nat := collector.keys.size

/-- The servers that can still contribute a key. -/
def pending (collector : Collector suite) : List ObjectId :=
  collector.publicKeys.keys.filter fun id => !collector.keys.contains id

/-- The collector with a further key. -/
def add (collector : Collector suite) (id : ObjectId) (key : suite.G1) : Collector suite :=
  let keys := collector.keys.insert id key
  { collector with
    keys
    state := if collector.threshold ≤ keys.size then .ready else collector.state }

/-- The collector after a key has been accepted.  A key is refused if its sender is
not a known service, has already contributed, or has sent something that is not
an encoding or does not belong to the identity. -/
def accept (collector : Collector suite) (id : ObjectId) (encoded : Bytes 48) :
    Except ServiceError (Collector suite) :=
  match collector.publicKeys.get? id with
  | none => .error (.unknownServer id)
  | some publicKey =>
    if collector.keys.contains id then .error (.duplicateKey id)
    else do
      let key ← Ibe.decode1 suite encoded
      match Ibe.verifyKey suite key collector.identity publicKey with
      | .error _ => throw (.invalidKey id)
      | .ok () => return collector.add id key

/-- The answer to a submitted key, and the collector after it. -/
def submit (collector : Collector suite) (id : ObjectId) (encoded : Bytes 48) :
    Except ServiceError CollectionState × Collector suite :=
  match collector.accept id encoded with
  | .error error => (.error error, collector)
  | .ok after => (.ok after.state, after)

end Collector
end Quorum
