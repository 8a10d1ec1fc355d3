import Quorum.LocalServers
import Quorum.Proofs.Verification.Steps

/-!
# Honest servers in the same process

An honest server is asked at its address.  It proves possession for the identifier and the
address under which it was put there, and it issues keys from the master key that it was
given; both at once and to whoever asks.  What it proves is what is registered about it, so
the registered description is verified.
-/

namespace Quorum
namespace LocalServers

variable {suite : PairingSuite} {servers : LocalServers suite} {id : ObjectId}
  {name url : String} {masterKey : suite.Scalar}

theorem reach_of_honest (h : servers.servers.get? url = some ⟨id, masterKey, .honest⟩) :
    servers.reach url = .ok ⟨id, masterKey, .honest⟩ := by
  rw [reach, h]
  rfl

theorem client_provePossession_of_honest
    (h : servers.servers.get? url = some ⟨id, masterKey, .honest⟩) :
    servers.client.provePossession url =
      .ok (suite.encode1 (Ibe.provePossession suite masterKey id url)) := by
  unfold client provePossession
  simp only [reach_of_honest h, Outcome.ok_bind]
  rfl

/-- A key is issued for everything but the empty identity. -/
theorem client_requestKey_of_honest
    (h : servers.servers.get? url = some ⟨id, masterKey, .honest⟩) {request : KeyRequest}
    (hidentity : request.identity ≠ []) :
    servers.client.requestKey url request = {
      answer := .ok (suite.encode1 (Ibe.extract suite masterKey request.identity))
      issued := true } := by
  unfold client requestKey
  simp only [reach_of_honest h, if_neg hidentity]
  rfl

/-- Where all servers are honest, none is late, also at an address where there is none. -/
theorem delay_requestKey_of_honest
    (h : ∀ url server, servers.servers.get? url = some server → server.behavior = .honest)
    (url : String) (request : KeyRequest) :
    (servers.client.requestKey url request).delay = 0 := by
  unfold client requestKey
  cases hserver : servers.servers.get? url with
  | none => simp only [reach, hserver]
  | some server =>
      obtain ⟨id, masterKey, behavior⟩ := server
      obtain rfl : behavior = .honest := h url _ hserver
      simp only [reach_of_honest hserver]
      split
      · rfl
      · rfl

/-- The description of a server is proved by its proof of possession. -/
theorem proves_describe_of_balanced (hpairing : suite.Balanced)
    (hdecode1 : ∀ x, suite.decode1? (suite.encode1 x) = some x)
    (hdecode2 : ∀ y, suite.decode2? (suite.encode2 y) = some y) (id : ObjectId)
    (name url : String) (masterKey : suite.Scalar) :
    Verification.Proves suite (describe id name url masterKey)
      (suite.encode1 (Ibe.provePossession suite masterKey id url)) :=
  ⟨_, _, hdecode2 _, hdecode1 _, Ibe.verifyPossession_of_balanced hpairing masterKey id url⟩

theorem proves_describe (hsuite : suite.Lawful) (id : ObjectId) (name url : String)
    (masterKey : suite.Scalar) :
    Verification.Proves suite (describe id name url masterKey)
      (suite.encode1 (Ibe.provePossession suite masterKey id url)) :=
  proves_describe_of_balanced hsuite.bilinear.balanced hsuite.decode1_encode1
    hsuite.decode2_encode2 id name url masterKey

end LocalServers
end Quorum
