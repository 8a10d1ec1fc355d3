import Quorum.Proofs.Sealing.Refusal
import Quorum.Proofs.Verification.Steps

/-!
# Sealing for verified servers

A verified set consists of servers each of which has been found under the identifier asked for
and has answered with a proof for its registered key, its identifier and its address.

A proof shows that somebody holds the master key behind a public key.  It does not show that
the public key is fit for sealing: the neutral element of the second group is the public key
of the master key zero, and for it the neutral element of the first group is a proof that
anybody can give.  Sealing for a set with that public key is refused.
-/

namespace Quorum
namespace Verification

variable {σ : Type} {suite : PairingSuite}
  {resolve : ObjectId → StateM σ (Except RequestFailure ServerInfo)}
  {prove : String → StateM σ Answer} {ids : List ObjectId} {s s' : σ}

/-- A verified set has the servers asked for in their order, each resolved, asked and proved.
For a threshold that it allows, the only input that sealing refuses is the neutral element
among its public keys; that it is refused then, whatever the proof was. -/
theorem encrypt_verifiedSet_eq_invalidInput_iff {set : ServerSet suite}
    (h : (verifiedSet suite resolve prove ids).run.run s = (.ok set, s')) :
    set.servers.map KeyServer.id = ids ∧
    (∀ server ∈ set.servers, ∃ info before after,
      Verified suite resolve prove server.id before info after ∧
        suite.decode2? info.publicKey = some server.publicKey) ∧
    ∀ packageId innerId (threshold : UInt8) payload random fault,
      threshold ≠ 0 → threshold.toNat ≤ set.size →
        (Sealing.encrypt packageId innerId set threshold payload random =
            .error (.refused (.invalidInput fault)) ↔
          payload.Encryptable ∧ suite.infinity ∈ set.publicKeys ∧ fault = .infinitePublicKey) := by
  obtain ⟨infos, hverified, hset⟩ := run_verifiedSet_eq_ok_iff.1 h
  refine ⟨?_, ?_, fun _ _ _ _ _ _ hne hle => Sealing.encrypt_eq_invalidInput_iff_of_le hne hle⟩
  · rw [ServerSet.map_id_of_describes hset, hverified.map_id]
  · intro server hserver
    obtain ⟨info, hinfo, hid, hdecode⟩ := ServerSet.exists_describes_of_mem hset hserver
    obtain ⟨before, after, hasked⟩ := hverified.exists_verified_of_mem hinfo
    exact ⟨info, before, after, hid ▸ hasked, hdecode⟩

open PairingSuite in
/-- A directory and honest servers that always answer the same; two of the three servers that
have been verified are to be enough. -/
theorem encrypt_verifiedSet_two_of_three :
    let resolve : ObjectId → Except RequestFailure ServerInfo := fun id =>
      ((Directory.ofList threeInfos).resolve id).mapError .error
    let proofs : Table String (Bytes 48) := Table.ofList (threeInfos.map fun info =>
      (info.url, discreteLog.encode1
        (Ibe.provePossession discreteLog (masterKeyOf info.id) info.id info.url)))
    let prove : String → Answer := fun url =>
      match proofs.get? url with
      | some proof => .ok proof
      | none => .error .crash
    (verifiedSet discreteLog (fun id => (pure (resolve id) : StateM Unit _))
      (fun url => pure (prove url)) [idOf 2, idOf 3, idOf 5]).run.run () =
        (.ok threeServers, ()) ∧
      ∀ packageId innerId payload random fault,
        Sealing.encrypt packageId innerId threeServers 2 payload random ≠
          .error (.refused (.invalidInput fault)) := by
  intro resolve proofs prove
  have hproof : ∀ info ∈ threeInfos, proofs.get? info.url = some (discreteLog.encode1
      (Ibe.provePossession discreteLog (masterKeyOf info.id) info.id info.url)) := by
    intro info hinfo
    have hurls : (threeInfos.map ServerInfo.url).Nodup := by decide +kernel
    rw [Table.get?_ofList_eq_some_iff (Table.unambiguous_of_nodup (by rwa [List.map_map]))]
    exact List.mem_map.2 ⟨info, hinfo, rfl⟩
  have hproves : ∀ info ∈ threeInfos, Proves discreteLog info (discreteLog.encode1
      (Ibe.provePossession discreteLog (masterKeyOf info.id) info.id info.url)) := by
    intro info hinfo
    obtain ⟨server, hserver, rfl⟩ := List.mem_map.1 hinfo
    refine ⟨server.publicKey, _, discreteLog_lawful.decode2_encode2 _,
      discreteLog_lawful.decode1_encode1 _, ?_⟩
    rw [threeServers_publicKey server hserver]
    exact Ibe.verifyPossession_provePossession discreteLog_lawful _ _ _
  have hverified : List.Forall₂ (VerifiedAlways discreteLog resolve prove)
      (threeInfos.map ServerInfo.id) threeInfos := by
    rw [List.forall₂_map_left_iff, List.forall₂_same]
    intro info hinfo
    have hids : (threeInfos.map ServerInfo.id).Nodup := threeServers.nodup_ids
    have hresolve := Directory.resolve_ofList hids hinfo
    refine ⟨congrArg (Except.mapError RequestFailure.error) hresolve, rfl, _, ?_,
      hproves info hinfo⟩
    simp only [prove, hproof info hinfo]
  have hset := run_verifiedSet_eq_ok_iff.2 ⟨threeInfos,
    verifiedAll_pure_iff.2 ⟨hverified, (rfl : () = ())⟩,
    ServerSet.ofInfos_eq_ok_iff.1 ofInfos_threeInfos⟩
  have hinfinity : discreteLog.infinity ∉ threeServers.publicKeys := by decide
  refine ⟨hset, fun packageId innerId payload random fault hrefused => ?_⟩
  have hiff := (encrypt_verifiedSet_eq_invalidInput_iff hset).2.2 packageId innerId 2 payload
    random fault (by decide) (by decide)
  exact hinfinity (hiff.1 hrefused).2.1

open PairingSuite Bls in
/-- The neutral element as the public key of a server, which passes verification with a proof
that is the same for everybody.  Sealing for the verified set is refused. -/
theorem encrypt_verifiedSet_of_infinity :
    let info : ServerInfo :=
      { id := idOf 1, name := "", url := "u", publicKey := G2.encode Member.infinity }
    let client : Client := {
      provePossession := fun _ => .ok (G1.encode Member.infinity)
      requestKey := fun _ _ => { answer := .error .crash } }
    ∃ set, (Directory.ofList [info]).verifiedSet Bls.suite client [idOf 1] = .ok set ∧
      set.size = 1 ∧
      ∀ random, Sealing.encrypt (idOf 7) [1, 2] set 1 .keyOnly random =
        .error (.refused (.invalidInput .infinitePublicKey)) := by
  intro info client
  let set : ServerSet Bls.suite := {
    servers := [⟨idOf 1, Member.infinity⟩]
    size_pos := Nat.zero_lt_one
    size_le := by decide
    nodup_ids := List.nodup_singleton _ }
  have hproves : Proves Bls.suite info (G1.encode Member.infinity) :=
    ⟨Member.infinity, Member.infinity, decode2?_infinity, decode1?_infinity,
      verifyPossession_infinity _ _⟩
  have hset : (Directory.ofList [info]).verifiedSet Bls.suite client [idOf 1] = .ok set :=
    verifiedSet_eq_ok_iff.2 ⟨[info], .cons ⟨rfl, rfl, _, rfl, hproves⟩ .nil,
      .cons ⟨rfl, decode2?_infinity⟩ .nil⟩
  have hinfinity : Bls.suite.infinity ∈ set.publicKeys := List.mem_singleton_self _
  refine ⟨set, hset, rfl, fun random => ?_⟩
  exact (Sealing.encrypt_eq_invalidInput_iff_of_le (by decide) (by decide)).2
    ⟨fun _ h => (nomatch h), hinfinity, rfl⟩

end Verification
end Quorum
