import Quorum.Proofs.DiscreteLog
import Quorum.Proofs.Fetch.Quorum
import Quorum.Proofs.Sealing.Opening

/-!
# What has been fetched opens what was sealed

A collector takes a key only if it verifies under the public key of the server that it is
kept for, and a key that verifies takes off the masks for that public key.  So the keys
with which a fetch succeeds rebuild the key of the object, however they were made, and
whatever else the servers have answered.
-/

namespace Quorum

variable {suite : PairingSuite} {servers : ServerSet suite} {object : SealedObject}

/-- Keys of enough servers of a set, all of which verify for an object. -/
structure KeyRing.Suffices (ring : KeyRing suite) (servers : ServerSet suite)
    (object : SealedObject) : Prop where
  verified : ∀ server ∈ servers.servers, ∀ key, ring.get? server.id = some key →
    Ibe.verifyKey suite key object.identity server.publicKey = .ok ()
  quorum : object.threshold.toNat ≤ (servers.servers.map KeyServer.id).countP ring.contains

namespace Collector

variable {collector : Collector suite}

theorem result_eq_ok_iff {ring : KeyRing suite} :
    collector.result = .ok ring ↔ collector.state = .ready ∧ collector.keys = ring := by
  unfold result
  split
  · rename_i hready
    simp [hready]
  · rename_i hready
    simp [hready]

theorem Started.suffices_run (h : Started object servers collector) (hvalid : object.Valid)
    (answers : List (ObjectId × Answer)) (hready : (collector.run answers).1.state = .ready) :
    KeyRing.Suffices (collector.run answers).1.keys servers object := by
  obtain ⟨submissions, hrun⟩ := exists_run_eq_submitAll collector answers
  rw [hrun] at hready ⊢
  constructor
  · intro server hserver key hget
    obtain ⟨-, other, hother, hid, hverify⟩ := h.verified_submitAll hvalid submissions hget
    rwa [← List.inj_on_of_nodup_map servers.nodup_ids hother hserver hid]
  · -- All keys are from servers of the set and from different ones.
    have hsubset : (collector.submitAll submissions).keys.keys ⊆
        servers.servers.map KeyServer.id := by
      intro id hid
      obtain ⟨key, hget⟩ := Table.mem_keys_iff.1 hid
      obtain ⟨-, server, hserver, rfl, -⟩ := h.verified_submitAll hvalid submissions hget
      exact List.mem_map_of_mem hserver
    have henough := ((h.consistent hvalid).submitAll submissions).ready_iff.1 hready
    rw [(frame_submitAll collector submissions).2.1, h.threshold_eq] at henough
    exact henough.trans (Table.size_le_countP hsubset)

end Collector

namespace Fetch

variable {infos : List ServerInfo}

/-- Nothing is fetched unless the entries describe a set of servers. -/
theorem exists_ofInfos_of_keys {limits : FetchLimits}
    {complete : List Target → List (ObjectId × Answer)} {ring : KeyRing suite}
    (h : keys suite infos object limits complete = .ok ring) :
    ∃ servers, ServerSet.ofInfos suite infos = .ok servers := by
  cases hservers : ServerSet.ofInfos suite infos with
  | ok servers => exact ⟨servers, rfl⟩
  | error error =>
      have hplan : plan suite infos object = .error (.sealing error) := by
        rw [plan, hservers]
        rfl
      rw [keys_eq_error_of_plan hplan] at h
      cases h

/-- Whatever the targets answer, the keys with which a fetch succeeds suffice. -/
theorem suffices_of_keys_eq_ok (hservers : ServerSet.ofInfos suite infos = .ok servers)
    (hvalid : object.Valid) {limits : FetchLimits}
    {complete : List Target → List (ObjectId × Answer)} {ring : KeyRing suite}
    (hkeys : keys suite infos object limits complete = .ok ring) :
    ring.Suffices servers object := by
  obtain ⟨collector, targets, hplanned⟩ := exists_planned hservers hvalid
  have hplan := hplanned.plan_eq
  by_cases hfew : targets.length < object.threshold.toNat
  · rw [if_pos hfew] at hplan
    rw [keys_eq_error_of_plan hplan] at hkeys
    cases hkeys
  · rw [if_neg hfew] at hplan
    by_cases hlimits : limits.concurrency ≤ FetchLimits.maxConcurrency
    · rw [keys_eq_result_of_plan hplan hlimits, Outcome.mapError_eq_ok_iff,
        Collector.result_eq_ok_iff] at hkeys
      obtain ⟨hready, rfl⟩ := hkeys
      exact hplanned.started.suffices_run hvalid (complete targets) hready
    · rw [keys_eq_crash_of_plan hplan (Nat.not_le.1 hlimits)] at hkeys
      cases hkeys

end Fetch

namespace Sealing

theorem SealedFor.decrypt_of_suffices (hsuite : suite.Lawful) {threshold : UInt8}
    {payload : Payload} {rows : List Key} {r : suite.Scalar} {key : Key}
    (h : SealedFor servers threshold payload rows r object key) {ring : KeyRing suite}
    (hring : ring.Suffices servers object) :
    decrypt object ring = .ok (payload.contents key) := by
  refine h.decrypt_of_keyRing hsuite.decode2_encode2 (fun server hserver issued hget => ?_) ?_
  · exact Ibe.unmasks_of_verifyKey hsuite (hring.verified server hserver issued hget)
  · exact h.threshold_eq ▸ hring.quorum

/-- A fetch that succeeds gives keys with which the object is opened to what was sealed,
whatever the servers answer and in whatever order; on the virtual clock too, whatever the
client and the request are. -/
theorem decrypt_of_fetched (hsuite : suite.Lawful) {infos : List ServerInfo}
    (hservers : ServerSet.ofInfos suite infos = .ok servers) {packageId : ObjectId}
    {innerId : List UInt8} {threshold : UInt8} {payload : Payload} {random : RandomSource}
    {result : Sealed}
    (hencrypt : encrypt packageId innerId servers threshold payload random = .ok result) :
    (∀ limits complete ring,
      Fetch.keys suite infos result.object limits complete = .ok ring →
        decrypt result.object ring = .ok (payload.contents result.key)) ∧
    (∀ client request limits ring,
      (Fetch.timed suite client infos result.object request limits).1 = .ok ring →
        decrypt result.object ring = .ok (payload.contents result.key)) := by
  obtain ⟨-, -, rows, r, h⟩ := exists_sealedFor_of_encrypt hencrypt
  have hopen : ∀ limits complete ring,
      Fetch.keys suite infos result.object limits complete = .ok ring →
        decrypt result.object ring = .ok (payload.contents result.key) := by
    intro limits complete ring hkeys
    exact h.decrypt_of_suffices hsuite (Fetch.suffices_of_keys_eq_ok hservers h.valid hkeys)
  refine ⟨hopen, fun client request limits ring htimed => ?_⟩
  rw [Fetch.timed_fst] at htimed
  exact hopen limits _ ring htimed

open PairingSuite in
/-- A key is sealed for three servers, and two of their keys open the object again.  The
server that answers first gives the key that another one has extracted. -/
theorem decrypt_of_fetched_despite_faulty_server :
    let identity := fullIdentity (idOf 7) [1, 2]
    let issued := fun id => Ibe.extract discreteLog (masterKeyOf id) identity
    let answers : List (ObjectId × Answer) :=
      [(idOf 3, .ok (discreteLog.encode1 (issued (idOf 5)))),
        (idOf 5, .ok (discreteLog.encode1 (issued (idOf 5)))),
        (idOf 2, .ok (discreteLog.encode1 (issued (idOf 2))))]
    ∃ result ring,
      encrypt (idOf 7) [1, 2] threeServers 2 .keyOnly { byteAt := fun _ => 1 } = .ok result ∧
      Fetch.keys discreteLog threeInfos result.object {} (fun _ => answers) = .ok ring ∧
      decrypt result.object ring = .ok result.key.toList := by
  intro identity issued answers
  let random : RandomSource := { byteAt := fun _ => 1 }
  have hvalue : ∀ publicKey ∈ threeServers.publicKeys,
      discreteLog.compress? (discreteLog.pairing
        (discreteLog.mul1 onesScalar.val (Ibe.hashIdentity discreteLog identity)) publicKey) ≠
          none := by
    decide +kernel
  have hne : (2 : UInt8) ≠ 0 := by decide
  have hle : (2 : UInt8).toNat ≤ threeServers.size := by decide
  have hinfinity : discreteLog.infinity ∉ threeServers.publicKeys := by decide
  have hpayload : encryptPayload (random.next 32) .keyOnly (random.skip 32) =
      .ok (.plain, random.skip 32) := rfl
  have hones : ((random.skip 32).takeMany 32 1).2.byteAt = fun _ => 1 := rfl
  obtain ⟨result, hencrypt⟩ :=
    exists_encrypt_eq_ok hne hle hinfinity hpayload (drawScalar_of_ones hones) hvalue
  obtain ⟨hpackageId, hinnerId, rows, r, hsealed⟩ := exists_sealedFor_of_encrypt hencrypt
  have hidentity : result.object.identity = identity := by
    rw [SealedObject.identity, hpackageId, hinnerId]
  obtain ⟨collector, targets, hplanned⟩ :=
    Fetch.exists_planned ofInfos_threeInfos hsealed.valid
  have hids : (answers.map Prod.fst).Perm (threeServers.servers.map KeyServer.id) := by decide
  have hinfos : threeInfos.map ServerInfo.id = threeServers.servers.map KeyServer.id := rfl
  have hperm : (answers.map Prod.fst).Perm (targets.map Target.id) := by
    have hnodup := hids.nodup_iff.2 threeServers.nodup_ids
    refine hplanned.targetsOf.perm_ids hnodup fun id => ?_
    rw [hsealed.servers_eq, hinfos, and_self, hids.mem_iff]
  -- The honest answers are enough, so that of the first server does not matter.
  let contribution := contribution? discreteLog identity threeServers.publicKey?
  have hextract (id : ObjectId) (hid : id ∈ threeServers.servers.map KeyServer.id) :
      contribution (id, .ok (discreteLog.encode1 (issued id))) = some (id, issued id) :=
    contribution?_extract discreteLog_lawful (publicKey?_threeServers hid) identity
  have hhonest : answers.tail.filterMap contribution =
      [(idOf 5, issued (idOf 5)), (idOf 2, issued (idOf 2))] := by
    have hfirst := hextract (idOf 5) (by decide)
    have hsecond := hextract (idOf 2) (by decide)
    simp only [answers, List.tail_cons, List.filterMap_cons, List.filterMap_nil, hfirst, hsecond]
  have hquorum : result.object.threshold.toNat ≤ (answers.filterMap
      (contribution? discreteLog result.object.identity threeServers.publicKey?)).length := by
    have hsublist := ((List.tail_sublist answers).filterMap contribution).length_le
    rw [hhonest] at hsublist
    rw [hsealed.threshold_eq, hidentity]
    exact hsublist
  have hconcurrency : ({} : FetchLimits).concurrency ≤ FetchLimits.maxConcurrency := by decide
  have hkeys : Fetch.DecidedBy result.object threeServers targets answers
      (Fetch.keys discreteLog threeInfos result.object {} fun _ => answers) :=
    hplanned.decidedBy_keys hsealed.valid hconcurrency (fun _ => answers) hperm
  obtain ⟨ring, hring, -⟩ := hkeys.1 hquorum
  have hopen := (decrypt_of_fetched discreteLog_lawful ofInfos_threeInfos hencrypt).1 _ _ _ hring
  exact ⟨result, ring, hencrypt, hring, hopen⟩

end Sealing
end Quorum
