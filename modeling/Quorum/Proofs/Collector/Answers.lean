import Quorum.Proofs.Collector.Reached

/-!
# What a collector answers

A submission is looked at in a fixed order: is it from a known service, is there a key of that
service already, is what has been sent the encoding of a key, and does the key verify.  The
first of these that is not as it should be decides the error, and then nothing is changed.

Otherwise one key is added, and the state tells whether there are enough now.  Everything else
that a collector holds is as it was.
-/

namespace Quorum
namespace Collector

variable {suite : PairingSuite} {collector : Collector suite} {id : ObjectId}
  {encoded : Bytes 48} {key : suite.G1} {publicKey : suite.G2}

/-! ## One submission -/

theorem submit_of_unknown (hunknown : collector.publicKeys.get? id = none) :
    collector.submit id encoded = (.error (.unknownServer id), collector) := by
  rw [submit, accept, hunknown]

theorem submit_of_kept (hknown : collector.publicKeys.get? id = some publicKey)
    (hkept : id ∈ collector.keys.keys) :
    collector.submit id encoded = (.error (.duplicateKey id), collector) := by
  have haccept : collector.accept id encoded = .error (.duplicateKey id) := by
    unfold accept
    rw [hknown]
    exact if_pos ((Table.contains_iff_mem_keys _ _).2 hkept)
  rw [submit, haccept]

/-- What a known service that has not contributed yet sends is decoded first. -/
theorem submit_of_no_key (hknown : collector.publicKeys.get? id = some publicKey)
    (hnew : id ∉ collector.keys.keys) (hdecode : suite.decode1? encoded = none) :
    collector.submit id encoded = (.error (.sealing .invalidG1Point), collector) := by
  have haccept : collector.accept id encoded = .error (.sealing .invalidG1Point) := by
    unfold accept
    rw [hknown, Ibe.decode1_eq_error_iff.2 ⟨hdecode, rfl⟩]
    exact if_neg (mt (Table.contains_iff_mem_keys _ _).1 hnew)
  rw [submit, haccept]

theorem submit_of_other_key (hknown : collector.publicKeys.get? id = some publicKey)
    (hnew : id ∉ collector.keys.keys) (hdecode : suite.decode1? encoded = some key)
    (hverify : Ibe.verifyKey suite key collector.identity publicKey ≠ .ok ()) :
    collector.submit id encoded = (.error (.invalidKey id), collector) := by
  have hlift : (liftM (Except.ok key : Except SealingError suite.G1) :
      Except ServiceError suite.G1) = .ok key := rfl
  have haccept : collector.accept id encoded = .error (.invalidKey id) := by
    unfold accept
    rw [hknown]
    refine (if_neg (mt (Table.contains_iff_mem_keys _ _).1 hnew)).trans ?_
    rw [Ibe.decode1_eq_ok_iff.2 hdecode, hlift, Outcome.ok_bind]
    cases hresult : Ibe.verifyKey suite key collector.identity publicKey with
    | ok accepted => exact absurd hresult hverify
    | error error => rfl
  rw [submit, haccept]

theorem submit_of_accepts (hdecode : suite.decode1? encoded = some key)
    (haccepts : collector.Accepts id key) : collector.submit id encoded =
      (.ok (collector.add id key).state, collector.add id key) := by
  rw [submit, accept_eq_ok_iff.2 ⟨key, hdecode, haccepts, rfl⟩]

/-! ## What an accepted key changes -/

/-- A collector has one more key than before, and differs in nothing else but in what follows
from that. -/
structure Extends (before after : Collector suite) (id : ObjectId) (key : suite.G1) : Prop where
  entries_eq : after.keys.entries = before.keys.entries ++ [(id, key)]
  identity_eq : after.identity = before.identity
  threshold_eq : after.threshold = before.threshold
  publicKeys_eq : after.publicKeys = before.publicKeys
  pending_eq : after.pending = before.pending.erase id
  ready_iff : after.state = .ready ↔ before.threshold ≤ before.collected + 1

theorem pending_add (collector : Collector suite) (id : ObjectId) (key : suite.G1) :
    (collector.add id key).pending = collector.pending.erase id := by
  have hcontains (other : ObjectId) : (!(collector.add id key).keys.contains other) =
      (other != id && !collector.keys.contains other) := by
    change (!((collector.keys.insert id key).get? other).isSome) = _
    rw [Table.get?_insert]
    by_cases heq : id = other
    · simp [heq]
    · simp [heq, Ne.symm heq, Table.contains]
  rw [(nodup_pending collector).erase_eq_filter, pending, pending, List.filter_filter]
  exact List.filter_congr fun other _ => hcontains other

theorem Consistent.extends_add (h : collector.Consistent) (haccepts : collector.Accepts id key) :
    Extends collector (collector.add id key) id key where
  entries_eq := entries_add haccepts
  identity_eq := rfl
  threshold_eq := rfl
  publicKeys_eq := rfl
  pending_eq := pending_add collector id key
  ready_iff := by
    rw [(h.add haccepts).ready_iff, size_add haccepts]
    rfl

/-! ## From the start -/

variable {object : SealedObject} {servers : ServerSet suite} {initial : Collector suite}

/-- A service of an object that is in a set of servers. -/
def Known (object : SealedObject) (servers : ServerSet suite) (id : ObjectId) : Prop :=
  id ∈ object.services.map Service.server ∧ id ∈ servers.servers.map KeyServer.id

/-- A key verifies for an object under the public key of a server in the set. -/
def Fits (object : SealedObject) (servers : ServerSet suite) (id : ObjectId)
    (key : suite.G1) : Prop :=
  ∃ server ∈ servers.servers, server.id = id ∧
    Ibe.verifyKey suite key object.identity server.publicKey = .ok ()

theorem Started.known_iff (h : Started object servers initial)
    (submissions : List (ObjectId × Bytes 48)) : Known object servers id ↔
      ∃ publicKey, (initial.submitAll submissions).publicKeys.get? id = some publicKey :=
  (h.known_submitAll_iff submissions).symm.trans Table.mem_keys_iff

theorem Started.fits_iff (h : Started object servers initial)
    (submissions : List (ObjectId × Bytes 48))
    (hknown : (initial.submitAll submissions).publicKeys.get? id = some publicKey) :
    Fits object servers id key ↔ Ibe.verifyKey suite key
      (initial.submitAll submissions).identity publicKey = .ok () := by
  obtain ⟨hidentity, -, hpublicKeys⟩ := frame_submitAll initial submissions
  rw [hpublicKeys, h.get?_publicKeys_iff] at hknown
  rw [hidentity, h.identity_eq]
  constructor
  · rintro ⟨server, hserver, hid, hverify⟩
    have hother := ServerSet.publicKey?_eq_some_iff.2 ⟨server, hserver, hid, rfl⟩
    obtain rfl := Option.some.inj (hknown.2.symm.trans hother)
    exact hverify
  · intro hverify
    obtain ⟨server, hserver, hid, rfl⟩ := ServerSet.publicKey?_eq_some_iff.1 hknown.2
    exact ⟨server, hserver, hid, hverify⟩

/-- The answer to a submission is decided by the first check that fails, whatever has been
submitted before, and nothing is changed then; a key that passes all of them is added. -/
theorem submit_outcome (hstart : start object servers = .ok initial)
    (submissions : List (ObjectId × Bytes 48)) (id : ObjectId) (encoded : Bytes 48) :
    let collector := initial.submitAll submissions
    let answer := (collector.submit id encoded).1
    let after := (collector.submit id encoded).2
    (answer = .error (.unknownServer id) ↔ ¬ Known object servers id) ∧
    (answer = .error (.duplicateKey id) ↔
      Known object servers id ∧ id ∈ collector.keys.keys) ∧
    (answer = .error (.sealing .invalidG1Point) ↔
      Known object servers id ∧ id ∉ collector.keys.keys ∧ suite.decode1? encoded = none) ∧
    (answer = .error (.invalidKey id) ↔
      Known object servers id ∧ id ∉ collector.keys.keys ∧
        ∃ key, suite.decode1? encoded = some key ∧ ¬ Fits object servers id key) ∧
    (answer = .ok after.state ↔
      Known object servers id ∧ id ∉ collector.keys.keys ∧
        ∃ key, suite.decode1? encoded = some key ∧ Fits object servers id key) ∧
    (∀ state, answer = .ok state →
      ∃ key, suite.decode1? encoded = some key ∧ Extends collector after id key) ∧
    (∀ error, answer = .error error → after = collector) := by
  intro collector answer after
  obtain ⟨hvalid, hstarted⟩ := started_of_start hstart
  have hconsistent : collector.Consistent := (hstarted.consistent hvalid).submitAll submissions
  have hknown : Known object servers id ↔ ∃ publicKey,
      collector.publicKeys.get? id = some publicKey := hstarted.known_iff submissions
  cases hpublicKey : collector.publicKeys.get? id with
  | none =>
      have hsubmit : collector.submit id encoded = _ := submit_of_unknown hpublicKey
      simp [answer, after, hsubmit, hknown, hpublicKey]
  | some publicKey =>
      by_cases hkept : id ∈ collector.keys.keys
      · have hsubmit : collector.submit id encoded = _ := submit_of_kept hpublicKey hkept
        simp [answer, after, hsubmit, hknown, hpublicKey, hkept]
      · cases hdecode : suite.decode1? encoded with
        | none =>
            have hsubmit := submit_of_no_key hpublicKey hkept hdecode
            simp [answer, after, hsubmit, hknown, hpublicKey, hkept]
        | some key =>
            have hfits : Fits object servers id key ↔
                Ibe.verifyKey suite key collector.identity publicKey = .ok () :=
              hstarted.fits_iff submissions hpublicKey
            by_cases hverify : Ibe.verifyKey suite key collector.identity publicKey = .ok ()
            · have haccepts : collector.Accepts id key := ⟨hkept, publicKey, hpublicKey, hverify⟩
              have hsubmit := submit_of_accepts hdecode haccepts
              have hextends := hconsistent.extends_add haccepts
              simp [answer, after, hsubmit, hknown, hpublicKey, hkept, hfits, hverify, hextends]
            · have hsubmit := submit_of_other_key hpublicKey hkept hdecode hverify
              simp [answer, after, hsubmit, hknown, hpublicKey, hkept, hfits, hverify]

open PairingSuite in
/-- The key of a server for the identity of the sample object, as it is sent. -/
def sampleKey (id : ObjectId) : Bytes 48 :=
  discreteLog.encode1 (Ibe.extract discreteLog (masterKeyOf id) sampleObject.identity)

open PairingSuite in
/-- The third of the three servers still has to contribute.  Its own key is accepted, and that of
another server is not; anything that the others send is refused before it is decoded. -/
theorem submit_outcome_of_third_server :
    ∃ collector, start sampleObject threeServers = .ok collector ∧
      let after := collector.submitAll sampleSubmissions
      (∀ encoded, (after.submit (idOf 8) encoded).1 = .error (.unknownServer (idOf 8))) ∧
      (∀ encoded, (after.submit (idOf 5) encoded).1 = .error (.duplicateKey (idOf 5))) ∧
      (after.submit (idOf 3) (Vector.replicate 48 255)).1 = .error (.sealing .invalidG1Point) ∧
      (after.submit (idOf 3) (sampleKey (idOf 5))).1 = .error (.invalidKey (idOf 3)) ∧
      (after.submit (idOf 3) (sampleKey (idOf 5))).2 = after ∧
      let last := after.submit (idOf 3) (sampleKey (idOf 3))
      last.1 = .ok last.2.state ∧ last.2.threshold = after.threshold ∧
        last.2.keys.keys = [idOf 5, idOf 2, idOf 3] := by
  obtain ⟨collector, hstart, hkeys, -, -⟩ := exists_start_sampleObject
  have hdecode (id : ObjectId) : discreteLog.decode1? (sampleKey id) = some _ :=
    discreteLog_lawful.decode1_encode1 _
  have hunknown : ¬ Known sampleObject threeServers (idOf 8) := by
    unfold Known
    decide
  have hknown : Known sampleObject threeServers (idOf 5) ∧
      Known sampleObject threeServers (idOf 3) := by
    unfold Known
    decide
  have hfits : Fits sampleObject threeServers (idOf 3)
      (Ibe.extract discreteLog (masterKeyOf (idOf 3)) sampleObject.identity) := by
    unfold Fits
    decide +kernel
  have hother : ¬ Fits sampleObject threeServers (idOf 3)
      (Ibe.extract discreteLog (masterKeyOf (idOf 5)) sampleObject.identity) := by
    unfold Fits
    decide +kernel
  have hkept : idOf 5 ∈ (collector.submitAll sampleSubmissions).keys.keys ∧
      idOf 3 ∉ (collector.submitAll sampleSubmissions).keys.keys := by
    rw [hkeys]
    decide
  have houtcome := submit_outcome hstart sampleSubmissions
  obtain ⟨-, -, hnoKey, -⟩ := houtcome (idOf 3) (Vector.replicate 48 255)
  obtain ⟨-, -, -, hinvalid, -, -, hsame⟩ := houtcome (idOf 3) (sampleKey (idOf 5))
  obtain ⟨-, -, -, -, haccepted, hextends, -⟩ := houtcome (idOf 3) (sampleKey (idOf 3))
  have hrefused := hinvalid.2 ⟨hknown.2, hkept.2, _, hdecode (idOf 5), hother⟩
  have hlast := haccepted.2 ⟨hknown.2, hkept.2, _, hdecode (idOf 3), hfits⟩
  obtain ⟨key, -, hadded⟩ := hextends _ hlast
  refine ⟨collector, hstart, fun encoded => ?_, fun encoded => ?_, ?_, hrefused,
    hsame _ hrefused, hlast, hadded.threshold_eq, ?_⟩
  · exact (houtcome (idOf 8) encoded).1.2 hunknown
  · exact (houtcome (idOf 5) encoded).2.1.2 ⟨hknown.1, hkept.1⟩
  · exact hnoKey.2 ⟨hknown.2, hkept.2, by decide +kernel⟩
  · rw [Table.keys, hadded.entries_eq, List.map_append]
    exact congrArg (· ++ [idOf 3]) hkeys

end Collector
end Quorum
