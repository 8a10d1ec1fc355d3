import Quorum.Collector
import Quorum.LocalServers
import Quorum.Schedule

/-!
# Fetching a quorum of keys

All known services of an object are asked for a key at once.  Answers are
submitted to a collector in the order in which they come; fetching ends with the
first one that makes the collector ready.  Failed requests and refused keys are
passed over.
-/

namespace Quorum

/-- A key server that is to be asked, and where. -/
structure Target where
  id : ObjectId
  url : String
deriving DecidableEq

/-- How many milliseconds a request may take, and how many requests may be under way
at a time. -/
structure FetchLimits where
  timeout : Nat := 10000
  concurrency : Nat := 32

/-- The most requests that can be allowed at a time: `2 ^ 61 - 1`. -/
def FetchLimits.maxConcurrency : Nat := 2305843009213693951

namespace Collector

variable {suite : PairingSuite}

/-- Submits answers in order until the collector is ready.  Gives the collector and
the answers that are left over. -/
def run (collector : Collector suite) :
    List (ObjectId × Answer) → Collector suite × List (ObjectId × Answer)
  | [] => (collector, [])
  | (_, .error _) :: rest => collector.run rest
  | (id, .ok encoded) :: rest =>
    let after := (collector.submit id encoded).2
    if after.state = .ready then (after, rest) else after.run rest

/-- The collected keys, if they are enough. -/
def result (collector : Collector suite) : Except ServiceError (KeyRing suite) :=
  if collector.state = .ready then .ok collector.keys
  else .error (.thresholdNotMet collector.collected collector.threshold)

end Collector

namespace Fetch

variable (suite : PairingSuite)

/-- A collector for an object, and those of its services that can be asked: they
must be among the given servers.  There must be as many as the threshold
says. -/
def plan (infos : List ServerInfo) (object : SealedObject) :
    Except ServiceError (Collector suite × List Target) := do
  let servers ← ServerSet.ofInfos suite infos
  let collector ← Collector.start object servers
  let urls : Table ObjectId String := Table.ofList (infos.map fun info => (info.id, info.url))
  let targets := collector.pending.filterMap fun id =>
    (urls.get? id).map fun url => ⟨id, url⟩
  if targets.length < collector.threshold then
    throw (.thresholdNotMet 0 collector.threshold)
  return (collector, targets)

/-- What is planned for an object; breaks off if more requests are allowed at a time
than can be. -/
def planWithin (infos : List ServerInfo) (object : SealedObject) (limits : FetchLimits) :
    Except RequestFailure (Collector suite × List Target) := do
  let planned ← plan suite infos object
  if FetchLimits.maxConcurrency < limits.concurrency then throw .crash
  return planned

/-- Fetches keys for an object, where `complete` asks the targets and gives their
answers in the order in which they come. -/
def keys (infos : List ServerInfo) (object : SealedObject) (limits : FetchLimits)
    (complete : List Target → List (ObjectId × Answer)) :
    Except RequestFailure (KeyRing suite) := do
  let (collector, targets) ← planWithin suite infos object limits
  (collector.run (complete targets)).1.result

/-- The ends of the requests to all targets, in order. -/
def completions (client : Client) (request : KeyRequest) (limits : FetchLimits)
    (targets : List Target) : List (Completion (Target × Reply)) :=
  Schedule.completions limits.concurrency limits.timeout <| targets.map fun target =>
    let reply := client.requestKey target.url request
    { duration := reply.delay, result := (target, reply) }

/-- The answer with which a request ends. -/
def answer (limits : FetchLimits) (completion : Completion (Target × Reply)) :
    ObjectId × Answer :=
  let (target, reply) := completion.result
  (target.id,
    if completion.timedOut then .error (.error (.timeout target.url limits.timeout))
    else reply.answer)

/-- How many keys have been issued by the time the last of `consumed` requests
ended; requests that end later are broken off. -/
def issuedBy (completed : List (Completion (Target × Reply))) (consumed : Nat) : Nat :=
  let last := ((completed.take consumed).getLast?.map Completion.time).getD 0
  (completed.filter fun completion =>
    completion.time ≤ last && !completion.timedOut && completion.result.2.issued).length

/-- Fetches keys on a virtual clock.  Gives the result and how many keys have been
issued for it. -/
def timed (client : Client) (infos : List ServerInfo) (object : SealedObject)
    (request : KeyRequest) (limits : FetchLimits) :
    Except RequestFailure (KeyRing suite) × Nat :=
  match planWithin suite infos object limits with
  | .error failure => (.error failure, 0)
  | .ok (collector, targets) =>
    let completed := completions client request limits targets
    let (after, left) := collector.run (completed.map (answer limits))
    (after.result.mapError .error, issuedBy completed (completed.length - left.length))

end Fetch
end Quorum
