import Quorum.Proofs.Collector.Start
import Quorum.Proofs.Sealing.Sufficiency

/-!
# Collectors that can be reached

A collector is reached from the start of a collection by any sequence of submissions, of keys
or of anything else, from known servers or from others, before there are enough keys or
after.  The servers that it knows are at all times divided into those that have contributed
and those that can still do so, and it is ready exactly if its keys are enough, which is when
they are enough for opening the object as well.

Which servers have contributed is decided by what has been submitted for each of them.  The
order in which it has been submitted is immaterial, and so is everything that was refused.
-/

namespace Quorum
namespace Collector

variable {suite : PairingSuite} {object : SealedObject} {servers : ServerSet suite}
  {collector : Collector suite}

theorem nodup_pending (collector : Collector suite) : collector.pending.Nodup :=
  collector.publicKeys.nodup_keys.filter _

theorem mem_pending_iff {id : ObjectId} :
    id ∈ collector.pending ↔ id ∈ collector.publicKeys.keys ∧ id ∉ collector.keys.keys := by
  rw [pending, List.mem_filter, ← Table.contains_iff_mem_keys collector.keys, Bool.not_eq_true,
    Bool.not_eq_true']

/-- Keys are only kept of known servers. -/
theorem Consistent.keys_subset (h : collector.Consistent) :
    collector.keys.keys ⊆ collector.publicKeys.keys := by
  intro id hid
  obtain ⟨key, hkey⟩ := Table.mem_keys_iff.1 hid
  obtain ⟨publicKey, hknown, -⟩ := h.verified id key hkey
  exact Table.mem_keys_iff.2 ⟨publicKey, hknown⟩

/-- The known servers have contributed or are pending, and none of them is both. -/
theorem Consistent.keys_append_pending_perm (h : collector.Consistent) :
    (collector.keys.keys ++ collector.pending).Perm collector.publicKeys.keys := by
  have hdisjoint : collector.keys.keys.Disjoint collector.pending :=
    fun id hkept hpending => (mem_pending_iff.1 hpending).2 hkept
  have hnodup : (collector.keys.keys ++ collector.pending).Nodup :=
    List.Nodup.append collector.keys.nodup_keys (nodup_pending collector) hdisjoint
  refine (List.perm_ext_iff_of_nodup hnodup collector.publicKeys.nodup_keys).2 fun id => ?_
  rw [List.mem_append, mem_pending_iff]
  constructor
  · rintro (hkept | ⟨hknown, -⟩)
    · exact h.keys_subset hkept
    · exact hknown
  · intro hknown
    by_cases hkept : id ∈ collector.keys.keys
    · exact .inl hkept
    · exact .inr ⟨hknown, hkept⟩

/-! ## From the start -/

theorem Started.known_submitAll_iff (h : Started object servers collector)
    (submissions : List (ObjectId × Bytes 48)) {id : ObjectId} :
    id ∈ (collector.submitAll submissions).publicKeys.keys ↔
      id ∈ object.services.map Service.server ∧ id ∈ servers.servers.map KeyServer.id := by
  rw [(frame_submitAll collector submissions).2.2, h.mem_keys_iff]

/-- Once a collector is ready, its keys are enough to open the object. -/
theorem Started.decrypt_ne_insufficientKeys (h : Started object servers collector)
    (hvalid : object.Valid) (submissions : List (ObjectId × Bytes 48))
    (hready : (collector.submitAll submissions).state = .ready) (required got : Nat) :
    Sealing.decrypt object (collector.submitAll submissions).keys ≠
      .error (.refused (.insufficientKeys required got)) := by
  have hservices : (collector.submitAll submissions).keys.keys ⊆
      object.services.map Service.server := by
    intro id hid
    obtain ⟨key, hget⟩ := Table.mem_keys_iff.1 hid
    exact (h.verified_submitAll hvalid submissions hget).1
  -- Every server with a key is listed at least once.
  have hsize := Table.size_le_countP hservices
  have henough := ((h.consistent hvalid).submitAll submissions).ready_iff.1 hready
  rw [(frame_submitAll collector submissions).2.1, h.threshold_eq] at henough
  rw [Ne, Sealing.decrypt_eq_insufficientKeys_iff hvalid]
  rintro ⟨rfl, rfl, hfew⟩
  omega

/-- Whatever has been submitted, a collector is ready exactly if it has as many keys as its
threshold says, and it stays so; each of its servers, which are the services in the set, has
either contributed or is pending; its keys verify under the public keys of their own
servers; and if it is ready, opening the object with its keys is not refused for want of
keys. -/
theorem invariant_submitAll (hstart : start object servers = .ok collector)
    (submissions : List (ObjectId × Bytes 48)) :
    let after := collector.submitAll submissions
    (after.state = .ready ↔ after.threshold ≤ after.collected) ∧
    (after.state = .ready → ∀ more, (after.submitAll more).state = .ready) ∧
    (after.keys.keys ++ after.pending).Nodup ∧
    (∀ id, id ∈ after.keys.keys ++ after.pending ↔
      id ∈ object.services.map Service.server ∧ id ∈ servers.servers.map KeyServer.id) ∧
    (∀ id key, after.keys.get? id = some key → ∃ server ∈ servers.servers, server.id = id ∧
      Ibe.verifyKey suite key object.identity server.publicKey = .ok ()) ∧
    (after.state = .ready → ∀ required got,
      Sealing.decrypt object after.keys ≠ .error (.refused (.insufficientKeys required got))) := by
  intro after
  obtain ⟨hvalid, hstarted⟩ := started_of_start hstart
  have hconsistent : after.Consistent := (hstarted.consistent hvalid).submitAll submissions
  have hperm := hconsistent.keys_append_pending_perm
  exact ⟨hconsistent.ready_iff, state_submitAll_of_ready,
    hperm.nodup_iff.2 after.publicKeys.nodup_keys,
    fun id => hperm.mem_iff.trans (hstarted.known_submitAll_iff submissions),
    fun id key hget => (hstarted.verified_submitAll hvalid submissions hget).2,
    hstarted.decrypt_ne_insufficientKeys hvalid submissions⟩

open PairingSuite in
/-- An object with a threshold of two for three servers, one of which it lists twice, and for a
fourth whose public key is not known. -/
def sampleObject : SealedObject where
  version := 0
  packageId := idOf 7
  innerId := [1, 2]
  services := [⟨idOf 2, 1⟩, ⟨idOf 3, 2⟩, ⟨idOf 5, 3⟩, ⟨idOf 5, 4⟩, ⟨idOf 8, 5⟩]
  threshold := 2
  encapsulation := Vector.replicate 96 0
  shares := List.replicate 5 (Vector.replicate 32 0)
  ciphertext := .plain

open PairingSuite in
/-- A key of another server, two keys of unknown servers, a key that verifies and is submitted
twice, something that is no key, and the key of the same server. -/
def sampleSubmissions : List (ObjectId × Bytes 48) :=
  let issued (id : ObjectId) : Bytes 48 :=
    discreteLog.encode1 (Ibe.extract discreteLog (masterKeyOf id) sampleObject.identity)
  [(idOf 3, issued (idOf 5)), (idOf 8, issued (idOf 8)), (idOf 9, issued (idOf 9)),
    (idOf 5, issued (idOf 5)), (idOf 5, issued (idOf 5)), (idOf 2, Vector.replicate 48 255),
    (idOf 2, issued (idOf 2))]

open PairingSuite in
theorem exists_start_sampleObject :
    ∃ collector, start sampleObject threeServers = .ok collector ∧
      let after := collector.submitAll sampleSubmissions
      after.keys.keys = [idOf 5, idOf 2] ∧ after.pending = [idOf 3] ∧ after.state = .ready := by
  obtain ⟨collector, hstart, -⟩ :=
    exists_start_eq_ok (SealedObject.validate_eq_ok_iff.1 (rfl : sampleObject.validate = .ok ()))
      threeServers
  have hafter : (start sampleObject threeServers).map (fun collector =>
      let after := collector.submitAll sampleSubmissions
      (after.keys.keys, after.pending, after.state)) =
        .ok ([idOf 5, idOf 2], [idOf 3], .ready) := by
    decide +kernel
  rw [hstart] at hafter
  exact ⟨collector, hstart, by simpa [Except.map] using hafter⟩

open PairingSuite in
theorem invariant_submitAll_two_of_three :
    ∃ collector, start sampleObject threeServers = .ok collector ∧
      let after := collector.submitAll sampleSubmissions
      after.keys.keys = [idOf 5, idOf 2] ∧ after.pending = [idOf 3] ∧ after.state = .ready ∧
        (∀ more, (after.submitAll more).state = .ready) ∧
          ∀ required got, Sealing.decrypt sampleObject after.keys ≠
            .error (.refused (.insufficientKeys required got)) := by
  obtain ⟨collector, hstart, hkeys, hpending, hready⟩ := exists_start_sampleObject
  obtain ⟨-, hstays, -, -, -, henough⟩ := invariant_submitAll hstart sampleSubmissions
  exact ⟨collector, hstart, hkeys, hpending, hready, hstays hready, henough hready⟩

/-! ## The order of submissions -/

/-- There is a key of a service exactly if one that verifies has been submitted for it. -/
theorem Started.mem_keys_submitAll_iff (h : Started object servers collector)
    {submissions : List (ObjectId × Bytes 48)} {id : ObjectId} :
    id ∈ (collector.submitAll submissions).keys.keys ↔
      id ∈ object.services.map Service.server ∧ ∃ server ∈ servers.servers, server.id = id ∧
        ∃ encoded key, (id, encoded) ∈ submissions ∧ suite.decode1? encoded = some key ∧
          Ibe.verifyKey suite key object.identity server.publicKey = .ok () := by
  have hnone : id ∉ collector.keys.keys := by
    rw [h.keys_eq]
    exact List.not_mem_nil
  simp only [Collector.mem_keys_submitAll_iff, or_iff_right hnone, contribution?_eq_some_iff,
    h.get?_publicKeys_iff, h.identity_eq, ServerSet.publicKey?_eq_some_iff, true_and]
  constructor
  · rintro ⟨encoded, hmem, key, hdecode, publicKey, ⟨hservice, server, hserver, hid, rfl⟩, hverify⟩
    exact ⟨hservice, server, hserver, hid, encoded, key, hmem, hdecode, hverify⟩
  · rintro ⟨hservice, server, hserver, hid, encoded, key, hmem, hdecode, hverify⟩
    exact ⟨encoded, hmem, key, hdecode, server.publicKey, ⟨hservice, server, hserver, hid, rfl⟩,
      hverify⟩

/-- Collectors with the same threshold and the same known servers that have keys of the same
servers agree in everything that can be asked of them. -/
theorem Consistent.agree {other : Collector suite} (h : collector.Consistent)
    (hother : other.Consistent) (hthreshold : collector.threshold = other.threshold)
    (hpublicKeys : collector.publicKeys = other.publicKeys)
    (hkeys : collector.keys.keys.Perm other.keys.keys) :
    collector.collected = other.collected ∧ collector.pending = other.pending ∧
      collector.state = other.state := by
  have hcollected : collector.keys.size = other.keys.size := by
    simpa [Table.keys, Table.size] using hkeys.length_eq
  have hcontains (id : ObjectId) : collector.keys.contains id = other.keys.contains id := by
    rw [Bool.eq_iff_iff, Table.contains_iff_mem_keys, Table.contains_iff_mem_keys, hkeys.mem_iff]
  have hready : collector.state = .ready ↔ other.state = .ready := by
    rw [h.ready_iff, hother.ready_iff, hthreshold, hcollected]
  refine ⟨hcollected, ?_, ?_⟩
  · simp only [pending, hpublicKeys, hcontains]
  · cases hstate : collector.state with
    | ready => exact (hready.1 hstate).symm
    | collecting =>
        cases hstate' : other.state with
        | ready => simp [hstate, hstate'] at hready
        | collecting => rfl

/-- After any sequence of submissions there are keys of exactly those known services for which
one of them verifies.  So the order does not matter, neither for these servers and their
number nor for the others and the state. -/
theorem submitAll_independent_of_order (hstart : start object servers = .ok collector)
    (submissions : List (ObjectId × Bytes 48)) :
    (∀ id, id ∈ (collector.submitAll submissions).keys.keys ↔
      id ∈ object.services.map Service.server ∧ ∃ server ∈ servers.servers, server.id = id ∧
        ∃ encoded key, (id, encoded) ∈ submissions ∧ suite.decode1? encoded = some key ∧
          Ibe.verifyKey suite key object.identity server.publicKey = .ok ()) ∧
    ∀ others, submissions.Perm others →
      (∀ id, id ∈ (collector.submitAll submissions).keys.keys ↔
        id ∈ (collector.submitAll others).keys.keys) ∧
      (collector.submitAll submissions).collected = (collector.submitAll others).collected ∧
      (collector.submitAll submissions).pending = (collector.submitAll others).pending ∧
      (collector.submitAll submissions).state = (collector.submitAll others).state := by
  obtain ⟨hvalid, hstarted⟩ := started_of_start hstart
  refine ⟨fun id => hstarted.mem_keys_submitAll_iff, fun others hperm => ?_⟩
  have hmem (id : ObjectId) : id ∈ (collector.submitAll submissions).keys.keys ↔
      id ∈ (collector.submitAll others).keys.keys := by
    simp only [hstarted.mem_keys_submitAll_iff, hperm.mem_iff]
  obtain ⟨-, hthreshold, hpublicKeys⟩ := frame_submitAll collector submissions
  obtain ⟨-, hthreshold', hpublicKeys'⟩ := frame_submitAll collector others
  have hconsistent := hstarted.consistent hvalid
  exact ⟨hmem, (hconsistent.submitAll submissions).agree (hconsistent.submitAll others)
    (hthreshold.trans hthreshold'.symm) (hpublicKeys.trans hpublicKeys'.symm)
    ((List.perm_ext_iff_of_nodup (collector.submitAll submissions).keys.nodup_keys
      (collector.submitAll others).keys.nodup_keys).2 hmem)⟩

open PairingSuite in
/-- In the reverse order the key that verifies is submitted for the last server before the one
that does not, and the server that is first now was last. -/
theorem submitAll_independent_of_order_reverse :
    ∃ collector, start sampleObject threeServers = .ok collector ∧
      sampleSubmissions.Perm sampleSubmissions.reverse ∧
      idOf 2 ∈ (collector.submitAll sampleSubmissions.reverse).keys.keys ∧
      idOf 3 ∉ (collector.submitAll sampleSubmissions.reverse).keys.keys ∧
      (collector.submitAll sampleSubmissions).pending =
        (collector.submitAll sampleSubmissions.reverse).pending ∧
      (collector.submitAll sampleSubmissions).state =
        (collector.submitAll sampleSubmissions.reverse).state := by
  obtain ⟨collector, hstart, hkept, -⟩ := exists_start_sampleObject
  have hperm := (List.reverse_perm sampleSubmissions).symm
  obtain ⟨hsame, -, hpending, hstate⟩ :=
    (submitAll_independent_of_order hstart sampleSubmissions).2 _ hperm
  refine ⟨collector, hstart, hperm, ?_, ?_, hpending, hstate⟩
  · rw [← hsame, hkept]
    decide
  · rw [← hsame, hkept]
    decide

end Collector
end Quorum
