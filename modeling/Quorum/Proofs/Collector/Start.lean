import Quorum.Proofs.Collector.Sequence
import Quorum.Proofs.SealedObject.Validation
import Quorum.Proofs.ServerSet

/-!
# The start of a collection

Collecting starts for every valid object, whatever the set of servers is: services that are
not in the set are left out, and none may be left.  Everything that is proved of a
collection from its start uses `Collector.Started` alone.
-/

namespace Quorum
namespace Collector

variable {suite : PairingSuite} {collector : Collector suite}

/-- What holds of a collector with which collecting starts: it has no keys yet, and it
knows the public keys of those services of the object that are in the set. -/
structure Started (object : SealedObject) (servers : ServerSet suite)
    (collector : Collector suite) : Prop where
  identity_eq : collector.identity = object.identity
  threshold_eq : collector.threshold = object.threshold.toNat
  keys_eq : collector.keys = Table.empty
  state_eq : collector.state = .collecting
  get?_publicKeys_iff : ∀ id publicKey, collector.publicKeys.get? id = some publicKey ↔
    id ∈ object.services.map Service.server ∧ servers.publicKey? id = some publicKey

variable {object : SealedObject} {servers : ServerSet suite}

theorem exists_start_eq_ok (h : object.Valid) (servers : ServerSet suite) :
    ∃ collector, start object servers = .ok collector ∧ Started object servers collector := by
  refine ⟨_, Outcome.bind_eq_ok_iff.2 ⟨(), SealedObject.validate_eq_ok_iff.2 h, rfl⟩,
    rfl, rfl, rfl, rfl, fun id publicKey => ?_⟩
  have hmem (id : ObjectId) (publicKey : suite.G2) :
      (id, publicKey) ∈ (object.services.filterMap fun service =>
        (servers.find? service.server).map fun server => (service.server, server.publicKey)) ↔
      id ∈ object.services.map Service.server ∧ servers.publicKey? id = some publicKey := by
    simp only [List.mem_filterMap, Option.map_eq_some_iff, Prod.mk.injEq, List.mem_map,
      ServerSet.publicKey?]
    constructor
    · rintro ⟨service, hservice, server, hserver, rfl, rfl⟩
      exact ⟨⟨service, hservice, rfl⟩, server, hserver, rfl⟩
    · rintro ⟨⟨service, hservice, rfl⟩, server, hserver, rfl⟩
      exact ⟨service, hservice, server, hserver, rfl, rfl⟩
  refine (Table.get?_ofList_eq_some_iff ?_).trans (hmem id publicKey)
  -- A service may be listed more than once, but always with the same public key.
  intro id publicKey other hkey hother
  rw [hmem] at hkey hother
  exact Option.some.inj (hkey.2.symm.trans hother.2)

/-- Collecting starts for valid objects only. -/
theorem started_of_start (h : start object servers = .ok collector) :
    object.Valid ∧ Started object servers collector := by
  obtain ⟨⟨⟩, hvalidate, -⟩ := Outcome.bind_eq_ok_iff.1 h
  have hvalid := SealedObject.validate_eq_ok_iff.1 hvalidate
  obtain ⟨other, hother, hstarted⟩ := exists_start_eq_ok hvalid servers
  cases h.symm.trans hother
  exact ⟨hvalid, hstarted⟩

theorem Started.mem_keys_iff (h : Started object servers collector) {id : ObjectId} :
    id ∈ collector.publicKeys.keys ↔
      id ∈ object.services.map Service.server ∧ id ∈ servers.servers.map KeyServer.id := by
  simp only [Table.mem_keys_iff, h.get?_publicKeys_iff, exists_and_left,
    ServerSet.publicKey?_eq_some_iff]
  refine and_congr_right fun _ => ?_
  rw [List.mem_map]
  constructor
  · rintro ⟨publicKey, server, hserver, hid, -⟩
    exact ⟨server, hserver, hid⟩
  · rintro ⟨server, hserver, hid⟩
    exact ⟨server.publicKey, server, hserver, hid, rfl⟩

theorem Started.pending_eq (h : Started object servers collector) :
    collector.pending = collector.publicKeys.keys := by
  rw [pending, h.keys_eq]
  exact List.filter_eq_self.2 fun _ _ => rfl

theorem Started.size_lt (h : Started object servers collector) (hvalid : object.Valid) :
    collector.keys.size < collector.threshold := by
  have hthreshold : object.threshold.toNat ≠ 0 := fun hzero =>
    hvalid.threshold_ne_zero (UInt8.toNat_inj.1 hzero)
  rw [h.keys_eq, h.threshold_eq]
  exact Nat.pos_of_ne_zero hthreshold

theorem Started.consistent (h : Started object servers collector) (hvalid : object.Valid) :
    collector.Consistent where
  ready_iff := by
    have hsize := h.size_lt hvalid
    rw [h.state_eq]
    exact iff_of_false (fun hready => nomatch hready) (by omega)
  verified := by
    intro id key hget
    rw [h.keys_eq] at hget
    cases hget

/-- All keys that are kept verify under the public key of the server that they are kept for,
which is one of the services. -/
theorem Started.verified_submitAll (h : Started object servers collector) (hvalid : object.Valid)
    (submissions : List (ObjectId × Bytes 48)) {id : ObjectId} {key : suite.G1}
    (hget : (collector.submitAll submissions).keys.get? id = some key) :
    id ∈ object.services.map Service.server ∧ ∃ server ∈ servers.servers, server.id = id ∧
      Ibe.verifyKey suite key object.identity server.publicKey = .ok () := by
  obtain ⟨hidentity, -, hpublicKeys⟩ := frame_submitAll collector submissions
  obtain ⟨publicKey, hknown, hverify⟩ :=
    ((h.consistent hvalid).submitAll submissions).verified id key hget
  rw [hpublicKeys, h.get?_publicKeys_iff, ServerSet.publicKey?_eq_some_iff] at hknown
  rw [hidentity, h.identity_eq] at hverify
  obtain ⟨hservice, server, hserver, hid, rfl⟩ := hknown
  exact ⟨hservice, server, hserver, hid, hverify⟩

theorem Started.contributed?_eq (h : Started object servers collector)
    {answer : ObjectId × Answer} (hmem : answer.1 ∈ object.services.map Service.server) :
    collector.contributed? answer =
      contribution? suite object.identity servers.publicKey? answer := by
  obtain ⟨id, result⟩ := answer
  have hget : collector.publicKeys.get? id = servers.publicKey? id := by
    apply Option.ext
    intro publicKey
    rw [h.get?_publicKeys_iff, and_iff_right hmem]
  cases result with
  | error failure => rfl
  | ok encoded => simp only [contributed?, contribution?, h.identity_eq, hget]

end Collector
end Quorum
