import Quorum.Proofs.DiscreteLog
import Quorum.Proofs.Sealing.Opening

/-!
# Whole rounds of sealing and opening

The servers of a set extract keys for the identity of an object that was sealed for
them.  Of the suite it is used that two factors can be exchanged between the
arguments of a pairing, which is why an extracted key takes the mask off, and that
the encapsulation can be decoded.

Nothing is asked of the random source, of the number of servers or of the data but
that sealing succeeds.
-/

namespace Quorum
namespace Sealing

variable {suite : PairingSuite} {servers : ServerSet suite} {threshold : UInt8}
  {payload : Payload}

/-- What has been sealed for a set of servers is opened by the keys that these extract
from their master keys: by any of them that are enough, also from the encoding of
the object, and by all of them in their order. -/
theorem decrypt_encrypt
    (hpairing : ∀ (x : suite.G1) (r s : suite.Scalar),
      suite.pairing (suite.mul1 s.val x) (suite.mul2 r.val suite.generator) =
        suite.pairing (suite.mul1 r.val x) (suite.mul2 s.val suite.generator))
    (hdecode : ∀ y, suite.decode2? (suite.encode2 y) = some y)
    {packageId : ObjectId} {innerId : List UInt8} {random : RandomSource} {result : Sealed}
    (masterKey : ObjectId → suite.Scalar)
    (hservers : ∀ server ∈ servers.servers,
      server.publicKey = Ibe.publicKey suite (masterKey server.id))
    (hencrypt : encrypt packageId innerId servers threshold payload random = .ok result) :
    (∀ keys : KeyRing suite,
      (∀ server ∈ servers.servers, ∀ key, keys.get? server.id = some key →
        key = Ibe.extract suite (masterKey server.id) result.object.identity) →
      threshold.toNat ≤ (servers.servers.map KeyServer.id).countP keys.contains →
        decrypt result.object keys = .ok (payload.contents result.key) ∧
          (innerId.length ≤ UInt32.size - 1 →
            (∀ bytes, payload = .data bytes → bytes.length ≤ UInt32.size - 1) →
              decryptBytes result.object.encode keys = .ok (payload.contents result.key))) ∧
      decryptAll result.object (servers.servers.map fun server =>
        Ibe.extract suite (masterKey server.id) result.object.identity) =
          .ok (payload.contents result.key) := by
  obtain ⟨-, hinnerId, rows, r, h⟩ := exists_sealedFor_of_encrypt hencrypt
  have hextract : ∀ server ∈ servers.servers,
      Ibe.Unmasks suite (Ibe.extract suite (masterKey server.id) result.object.identity)
        result.object.identity server.publicKey := by
    intro server hserver
    rw [hservers server hserver]
    exact Ibe.unmasks_extract hpairing _ _
  refine ⟨fun keys hkeys hquorum => ?_, h.decryptAll_of_issued hdecode
    (fun id => Ibe.extract suite (masterKey id) result.object.identity) hextract⟩
  have hopen := h.decrypt_of_keyRing hdecode
    (fun server hserver issued hissued => hkeys server hserver issued hissued ▸
      hextract server hserver) hquorum
  refine ⟨hopen, fun hlength hdata => ?_⟩
  have hfits := h.fits (hinnerId ▸ hlength) hdata
  have hdecoded := SealedObject.decode_encode h.valid hfits
  exact Outcome.bind_eq_ok_iff.2 ⟨_, lift_eq_ok_iff.2 hdecoded, hopen⟩

open PairingSuite in
/-- Three bytes sealed for three servers, of which the first and the last are asked for
their keys; the ring has a key of another server as well. -/
theorem decrypt_encrypt_two_of_three :
    let identity := fullIdentity (idOf 7) [1, 2]
    let issued := fun id => Ibe.extract discreteLog (masterKeyOf id) identity
    let keys : KeyRing discreteLog :=
      Table.ofList [(idOf 5, issued (idOf 5)), (idOf 9, issued (idOf 2)), (idOf 2, issued (idOf 2))]
    ∃ result,
      encrypt (idOf 7) [1, 2] threeServers 2 (.data [10, 20, 30]) { byteAt := fun _ => 1 } =
        .ok result ∧
      decrypt result.object keys = .ok [10, 20, 30] ∧
      decryptBytes result.object.encode keys = .ok [10, 20, 30] ∧
      decryptAll result.object (threeServers.servers.map fun server => issued server.id) =
        .ok [10, 20, 30] := by
  intro identity issued keys
  let random : RandomSource := { byteAt := fun _ => 1 }
  have hvalue : ∀ publicKey ∈ threeServers.publicKeys,
      discreteLog.compress? (discreteLog.pairing
        (discreteLog.mul1 onesScalar.val (Ibe.hashIdentity discreteLog identity)) publicKey) ≠
          none := by
    decide +kernel
  have hbytes : ([10, 20, 30] : List UInt8).length ≤ Aes256Gcm.maxPlaintext := by decide
  obtain ⟨ciphertext, hpayload⟩ :=
    exists_encryptPayload_eq_ok hbytes (random.next 32) (random.skip 32)
  have hne : (2 : UInt8) ≠ 0 := by decide
  have hle : (2 : UInt8).toNat ≤ threeServers.size := by decide
  have hinfinity : discreteLog.infinity ∉ threeServers.publicKeys := by decide
  have hones : (((random.skip 32).skip 12).takeMany 32 1).2.byteAt = fun _ => 1 := rfl
  obtain ⟨result, hencrypt⟩ :=
    exists_encrypt_eq_ok hne hle hinfinity hpayload (drawScalar_of_ones hones) hvalue
  obtain ⟨hpackageId, hinnerId, -⟩ := exists_sealedFor_of_encrypt hencrypt
  have hidentity : result.object.identity = identity := by
    rw [SealedObject.identity, hpackageId, hinnerId]
  obtain ⟨hring, hall⟩ := decrypt_encrypt
    (fun x r s => discreteLog_lawful.pairing_mul_mul x discreteLog.generator s.val r.val)
    discreteLog_lawful.decode2_encode2 masterKeyOf threeServers_publicKey hencrypt
  rw [hidentity] at hring hall
  have hget (id : ObjectId) : keys.get? id =
      if idOf 2 = id then some (issued (idOf 2))
      else if idOf 9 = id then some (issued (idOf 2))
      else if idOf 5 = id then some (issued (idOf 5)) else none := by
    simp only [keys, Table.ofList, List.foldl, Table.get?_insert]
    rfl
  have hkeys : ∀ server ∈ threeServers.servers, ∀ key, keys.get? server.id = some key →
      key = issued server.id := by
    intro server hserver key hkey
    obtain ⟨byte, hbyte, rfl⟩ := List.mem_map.1 hserver
    simp only [List.mem_cons, List.not_mem_nil, or_false] at hbyte
    rcases hbyte with rfl | rfl | rfl
    · simpa [hget, idOf_inj, eq_comm] using hkey
    · simp [hget, idOf_inj] at hkey
    · simpa [hget, idOf_inj, eq_comm] using hkey
  have hquorum : 2 ≤ (threeServers.servers.map KeyServer.id).countP keys.contains := by
    simp [threeServers, Table.contains, hget, idOf_inj]
  obtain ⟨hopen, hdecoded⟩ := hring keys hkeys hquorum
  have hdata : ∀ bytes, Payload.data [10, 20, 30] = .data bytes →
      bytes.length ≤ UInt32.size - 1 := by
    rintro bytes ⟨⟩
    decide
  exact ⟨result, hencrypt, hopen, hdecoded (by decide) hdata, hall⟩

open PairingSuite in
/-- Data that are short enough can be sealed for the three servers. -/
theorem exists_encrypt_threeServers {bytes : List UInt8}
    (hlength : bytes.length ≤ Aes256Gcm.maxPlaintext) :
    ∃ result, encrypt (idOf 7) [1, 2] threeServers 2 (.data bytes) { byteAt := fun _ => 1 } =
      .ok result := by
  let random : RandomSource := { byteAt := fun _ => 1 }
  have hvalue : ∀ publicKey ∈ threeServers.publicKeys, discreteLog.compress? (discreteLog.pairing
      (discreteLog.mul1 onesScalar.val
        (Ibe.hashIdentity discreteLog (fullIdentity (idOf 7) [1, 2]))) publicKey) ≠ none := by
    decide +kernel
  obtain ⟨ciphertext, hpayload⟩ :=
    exists_encryptPayload_eq_ok hlength (random.next 32) (random.skip 32)
  have hones : (((random.skip 32).skip 12).takeMany 32 1).2.byteAt = fun _ => 1 := rfl
  have hinfinity : discreteLog.infinity ∉ threeServers.publicKeys := by decide
  exact exists_encrypt_eq_ok (by decide) (by decide) hinfinity hpayload
    (drawScalar_of_ones hones) hvalue

end Sealing
end Quorum
