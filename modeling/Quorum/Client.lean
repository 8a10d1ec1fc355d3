import Quorum.ServerSet

/-!
# Requests to key servers

A key server is asked for a proof that it holds its master key, and for the key
of an identity.  Answers may be late, and asking may fail or crash.
-/

namespace Quorum

/-- What a key server needs in order to decide on a request. -/
structure KeyRequest where
  /-- The identity for which a key is asked. -/
  identity : List UInt8
  signedRequest : List UInt8 := []
  certificate : List UInt8 := []
  ephemeralSecret : List UInt8 := []

/-- A description that does not show secrets. -/
def KeyRequest.description (request : KeyRequest) : String :=
  "KeyRequest \x7b identity: \"" ++ Hex.encode request.identity ++
    "\", signed_request_len: " ++ toString request.signedRequest.length ++
    ", certificate_len: " ++ toString request.certificate.length ++ ", .. \x7d"

/-- How a request can fail. -/
inductive RequestFailure where
  | error (error : ServiceError)
  /-- The request breaks off without an error. -/
  | crash
deriving DecidableEq

/-- An encoded element of the first group, unless the request fails. -/
abbrev Answer := Except RequestFailure (Bytes 48)

/-- An answer and when it comes. -/
structure Reply where
  answer : Answer
  /-- The time until the answer comes, in milliseconds. -/
  delay : Nat := 0
  /-- Whether a key server has issued a key for it. -/
  issued : Bool := false

/-- Access to key servers by their address. -/
structure Client where
  provePossession : String → Answer
  requestKey : String → KeyRequest → Reply

instance : MonadLift (Except ServiceError) (Except RequestFailure) :=
  ⟨fun result => result.mapError .error⟩

/-- Answers that are given instead of those of a server. -/
structure Script where
  proof : Option Answer := none
  key : Option Answer := none

/-- A client that answers for some addresses itself. -/
def Client.withScripts (client : Client) (scripts : Table String Script) : Client where
  provePossession url :=
    match (scripts.get? url).bind Script.proof with
    | some answer => answer
    | none => client.provePossession url
  requestKey url request :=
    match (scripts.get? url).bind Script.key with
    | some answer => { answer }
    | none => client.requestKey url request

end Quorum
