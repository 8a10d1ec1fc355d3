import Quorum.Proofs.RandomSource
import Quorum.Proofs.Sealing.Refusal
import Quorum.Proofs.Sealing.RoundTrip

/-!
# How a sealed object is laid out

Sealing succeeds exactly on input that it has no reason to refuse, unless it breaks off.  The
object then lists the servers of the set in their order with the indices from one on, and holds
for each of them its share of the key, masked with the pairing of one ephemeral element and its
public key.  The places of servers, public keys, shares and masked shares all agree.

The random source is read in a fixed order: the key, the nonce of data, the coefficients of the
sharing, and numbers until one of them is a scalar.  Data that are too long for the cipher are
left aside.
-/

namespace Quorum

/-- How many bytes of a random source go into the nonce of a payload. -/
def Payload.nonceSize : Payload → Nat
  | data _ => 12
  | keyOnly => 0

/-- A ciphertext is of the kind that is asked for, and as long. -/
inductive Payload.Suits : Payload → Ciphertext → Prop where
  | data {bytes blob : List UInt8} (nonce : Bytes 12) (mac : Bytes 16)
      (hlength : blob.length = bytes.length) :
      Suits (.data bytes) (.aes256Gcm nonce blob mac)
  | keyOnly : Suits .keyOnly .plain

namespace Ibe

variable {suite : PairingSuite}

/-- Masking breaks off if one of the pairing values has no compressed form. -/
theorem maskPayloads_eq_maskUndefined {r : suite.Scalar} {identity : List UInt8}
    {payloads : List Key} {publicKeys : List suite.G2} (hlength : payloads.length = publicKeys.length)
    {publicKey : suite.G2} (hmem : publicKey ∈ publicKeys)
    (hvalue : suite.compress? (suite.pairing
      (suite.mul1 r.val (hashIdentity suite identity)) publicKey) = none) :
    maskPayloads suite r identity payloads publicKeys = .error .maskUndefined := by
  cases hmasked : maskPayloads suite r identity payloads publicKeys with
  | error failure => rw [eq_maskUndefined_of_maskPayloads hmasked]
  | ok masked =>
      -- Then there would be a mask for every public key, as none is left without a payload.
      have hkeys : (payloads.zip publicKeys).map Prod.snd = publicKeys :=
        List.map_snd_zip hlength.ge
      rw [← hkeys] at hmem
      obtain ⟨item, hitem, rfl⟩ := List.mem_map.1 hmem
      obtain ⟨_, -, mask, hmask, -⟩ :=
        Outcome.exists_result_of_mem (maskPayloads_eq_ok_iff.1 hmasked) hitem
      rw [mask_eq_of_compress? hvalue] at hmask
      cases hmask

end Ibe

namespace Sealing

variable {suite : PairingSuite} {packageId : ObjectId} {innerId : List UInt8}
  {servers : ServerSet suite} {threshold : UInt8} {payload : Payload} {random : RandomSource}
  {result : Sealed}

theorem suits_of_holds {key : Key} {ciphertext : Ciphertext} (h : Holds key payload ciphertext) :
    payload.Suits ciphertext := by
  cases h with
  | data hencrypt => exact .data _ _ (Aes256Gcm.length_of_encrypt? hencrypt)
  | keyOnly => exact .keyOnly

/-- The random source from which the shares are made, after the key and the nonce. -/
def sharingSource (payload : Payload) (random : RandomSource) : RandomSource :=
  random.skip (32 + payload.nonceSize)

/-- The random source from which the ephemeral scalar is drawn, after the coefficients of the
sharing. -/
def scalarSource (threshold : UInt8) (payload : Payload) (random : RandomSource) : RandomSource :=
  (sharingSource payload random).skip (32 * (threshold.toNat - 1))

theorem encryptPayload_rest {key : Key} {ciphertext : Ciphertext} {rest : RandomSource}
    (h : encryptPayload key payload (random.skip 32) = .ok (ciphertext, rest)) :
    rest = sharingSource payload random := by
  cases payload with
  | keyOnly =>
      cases h
      rfl
  | data bytes =>
      obtain ⟨⟨⟨nonce, blob, mac⟩, after⟩, hdata, hresult⟩ := Outcome.bind_eq_ok_iff.1 h
      cases hresult
      simp only [encryptData, RandomSource.take] at hdata
      split at hdata
      · cases hdata
        exact random.skip_skip 32 12
      · cases hdata

/-- The place of a server in a sealed object: its identifier with the index of its share, and
the share under the mask which the ephemeral element gives with its public key. -/
structure SealedAt (object : SealedObject) (ephemeral : suite.G1) (i : Nat)
    (server : KeyServer suite) (share : Share) : Prop where
  service_eq : object.services[i]? = some ⟨server.id, share.index⟩
  unmasks : ∃ masked mask, object.shares[i]? = some masked ∧
    Ibe.mask suite (suite.pairing ephemeral server.publicKey) = .ok mask ∧
      Bytes.xor masked mask = share.payload

/-- The result of sealing is laid out as it was asked for. -/
structure LaidOut (packageId : ObjectId) (innerId : List UInt8) (servers : ServerSet suite)
    (threshold : UInt8) (payload : Payload) (random : RandomSource) (result : Sealed) : Prop where
  validate_eq : result.object.validate = .ok ()
  packageId_eq : result.object.packageId = packageId
  innerId_eq : result.object.innerId = innerId
  threshold_eq : result.object.threshold = threshold
  servers_eq : result.object.services.map Service.server = servers.servers.map KeyServer.id
  indices_eq : (result.object.services.map fun service => service.index.toNat) =
    List.range' 1 servers.size
  shares_length : result.object.shares.length = servers.size
  suits : payload.Suits result.object.ciphertext
  holds : Holds result.key payload result.object.ciphertext
  key_eq : result.key = random.next 32
  /-- One sharing of the key and one ephemeral scalar are behind all places. -/
  places : ∃ shares r,
    Sharing.split result.key (UInt8.ofNat servers.size) threshold (sharingSource payload random) =
      .ok (shares, scalarSource threshold payload random) ∧
    Ibe.drawScalar suite (scalarSource threshold payload random) = .ok (r, result.random) ∧
    result.object.encapsulation = suite.encode2 (suite.mul2 r.val suite.generator) ∧
    ∀ i server, servers.get? i = some server → ∃ share, shares[i]? = some share ∧
      SealedAt result.object
        (suite.mul1 r.val (Ibe.hashIdentity suite (fullIdentity packageId innerId))) i server share

theorem sealedAt_sealedObject {shares : List Share} {r : suite.Scalar} {masked : List Key}
    {ciphertext : Ciphertext}
    (hmasked : Ibe.maskPayloads suite r (fullIdentity packageId innerId)
      (shares.map Share.payload) servers.publicKeys = .ok masked)
    {i : Nat} {server : KeyServer suite} (hserver : servers.get? i = some server) {share : Share}
    (hshare : shares[i]? = some share) :
    SealedAt (sealedObject packageId innerId servers threshold shares r masked ciphertext)
      (suite.mul1 r.val (Ibe.hashIdentity suite (fullIdentity packageId innerId))) i server
        share := by
  rw [ServerSet.get?] at hserver
  have hitem : ((shares.map Share.payload).zip servers.publicKeys)[i]? =
      some (share.payload, server.publicKey) := by
    rw [List.getElem?_zip_eq_some, ServerSet.publicKeys, List.getElem?_map, List.getElem?_map,
      hserver, hshare]
    exact ⟨rfl, rfl⟩
  obtain ⟨_, hresult, mask, hmask, rfl⟩ :=
    Outcome.exists_result_at (Ibe.maskPayloads_eq_ok_iff.1 hmasked) hitem
  have hplace : (servers.servers.zip shares)[i]? = some (server, share) :=
    List.getElem?_zip_eq_some.2 ⟨hserver, hshare⟩
  exact {
    service_eq := by
      rw [services_sealedObject, List.getElem?_map, hplace]
      rfl
    unmasks := ⟨_, mask, hresult, hmask, Bytes.xor_xor_cancel _ _⟩ }

theorem indices_sealedObject {key : Key} {rows : List Key} {r : suite.Scalar} {masked : List Key}
    {ciphertext : Ciphertext} :
    ((sealedObject packageId innerId servers threshold
      (Sharing.deal key rows (UInt8.ofNat servers.size)) r masked ciphertext).services.map
        fun service => service.index.toNat) = List.range' 1 servers.size := by
  calc
    _ = ((sealedObject packageId innerId servers threshold
          (Sharing.deal key rows (UInt8.ofNat servers.size)) r masked ciphertext).services.map
            Service.index).map UInt8.toNat := List.map_map.symm
    _ = ((Sharing.deal key rows (UInt8.ofNat servers.size)).map Share.index).map UInt8.toNat := by
      rw [map_index_sealedObject (length_deal key rows servers)]
    _ = (Sharing.deal key rows (UInt8.ofNat servers.size)).map
          fun share => share.index.toNat := List.map_map
    _ = List.range' 1 servers.size := by rw [Sharing.map_index_deal, toNat_size]

theorem takeMany_sharingSource :
    ((sharingSource payload random).takeMany 32 (threshold.toNat - 1)).2 =
      scalarSource threshold payload random :=
  RandomSource.takeMany_snd _ _ _

theorem laidOut_of_encrypt
    (h : encrypt packageId innerId servers threshold payload random = .ok result) :
    LaidOut packageId innerId servers threshold payload random result := by
  obtain ⟨hne, hle, -, ciphertext, middle, rows, r, masked, rest, hpayload, hrows, hdraw, hmasked,
    rfl⟩ := encrypt_eq_ok_iff.1 h
  -- How much has been read so far does not depend on what was read.
  obtain rfl := encryptPayload_rest hpayload
  rw [takeMany_sharingSource] at hdraw
  have hholds := holds_of_encryptPayload hpayload
  have hlength := length_deal (random.next 32) rows servers
  have hmaskedLength := length_masked hlength hmasked
  exact {
    validate_eq := SealedObject.validate_eq_ok_iff.2
      (valid_sealedObject hne hle hmaskedLength hholds)
    packageId_eq := rfl
    innerId_eq := rfl
    threshold_eq := rfl
    servers_eq := map_server_sealedObject hlength
    indices_eq := indices_sealedObject
    shares_length := hmaskedLength
    suits := suits_of_holds hholds
    holds := hholds
    key_eq := rfl
    places := by
      refine ⟨Sharing.deal (random.next 32) rows (UInt8.ofNat servers.size), r, ?_, hdraw, rfl, ?_⟩
      · rw [Sharing.split_eq_ok _ _ hne (le_size_iff.2 hle), ← hrows, takeMany_sharingSource]
      · intro i server hserver
        have hi : i < servers.size := (List.getElem?_eq_some_iff.1 hserver).1
        have hshare := List.getElem?_eq_getElem (hi.trans_eq hlength.symm)
        exact ⟨_, hshare, sealedAt_sealedObject hmasked hserver hshare⟩ }

/-! ## Input that can be sealed -/

/-- The shares that sealing makes of its key. -/
def dealtShares (servers : ServerSet suite) (threshold : UInt8) (payload : Payload)
    (random : RandomSource) : List Share :=
  Sharing.deal (random.next 32)
    ((sharingSource payload random).takeMany 32 (threshold.toNat - 1)).1
    (UInt8.ofNat servers.size)

theorem length_dealtShares :
    ((dealtShares servers threshold payload random).map Share.payload).length =
      servers.publicKeys.length :=
  length_map_payload_deal _ _ _

/-- What is left of sealing when there is no reason to refuse the input. -/
theorem encrypt_eq_bind (hne : threshold ≠ 0) (hle : threshold.toNat ≤ servers.size)
    (hinfinity : suite.infinity ∉ servers.publicKeys) {ciphertext : Ciphertext}
    {middle : RandomSource}
    (hpayload : encryptPayload (random.next 32) payload (random.skip 32) =
      .ok (ciphertext, middle)) :
    encrypt packageId innerId servers threshold payload random =
      Ibe.drawScalar suite (scalarSource threshold payload random) >>= fun drawn =>
        Ibe.maskPayloads suite drawn.1 (fullIdentity packageId innerId)
          ((dealtShares servers threshold payload random).map Share.payload)
          servers.publicKeys >>= fun masked =>
            .ok ⟨sealedObject packageId innerId servers threshold
              (dealtShares servers threshold payload random) drawn.1 masked ciphertext,
              random.next 32, drawn.2⟩ := by
  obtain rfl := encryptPayload_rest hpayload
  have hrange : ¬ (threshold = 0 ∨ servers.size < threshold.toNat) :=
    not_or.2 ⟨hne, Nat.not_lt.2 hle⟩
  -- All checks are passed on the way: what is left are the steps that can break off.
  rw [encrypt, if_neg hrange]
  simp only [RandomSource.take]
  rw [lift_eq_ok_iff.2 hpayload, Outcome.ok_bind,
    lift_eq_ok_iff.2 (Sharing.split_eq_ok _ _ hne (le_size_iff.2 hle)), Outcome.ok_bind,
    takeMany_sharingSource, ← dealtShares, Ibe.encrypt, if_neg (not_not.2 length_dealtShares),
    if_neg hinfinity]
  simp only [bind_assoc, pure_bind]
  rfl

/-- Sealing breaks off where there is no reason to refuse the input: one of the public keys has no
mask for the identity with the scalar that is drawn, or no attempt to draw a scalar succeeds. -/
inductive BreaksOff (servers : ServerSet suite) (identity : List UInt8) (source : RandomSource) :
    Failure → Prop where
  | maskUndefined {r : suite.Scalar} {rest : RandomSource}
      (hdraw : Ibe.drawScalar suite source = .ok (r, rest))
      {publicKey : suite.G2} (hmem : publicKey ∈ servers.publicKeys)
      (hvalue : suite.compress? (suite.pairing
        (suite.mul1 r.val (Ibe.hashIdentity suite identity)) publicKey) = none) :
      BreaksOff servers identity source .maskUndefined
  | randomnessExhausted
      (hcandidates : ∀ attempt < Ibe.drawLimit, suite.order ≤ source.candidate attempt) :
      BreaksOff servers identity source .randomnessExhausted

/-- Input that there is no reason to refuse is sealed, unless sealing breaks off. -/
theorem encrypt_cases (hne : threshold ≠ 0) (hle : threshold.toNat ≤ servers.size)
    (hinfinity : suite.infinity ∉ servers.publicKeys) (hdata : payload.Encryptable) :
    (∃ result, encrypt packageId innerId servers threshold payload random = .ok result) ∨
    ∃ failure, encrypt packageId innerId servers threshold payload random = .error failure ∧
      BreaksOff servers (fullIdentity packageId innerId) (scalarSource threshold payload random)
        failure := by
  rcases encryptPayload_cases (random.next 32) payload (random.skip 32) with
    ⟨-, ciphertext, middle, hpayload⟩ | ⟨hlong, -⟩
  swap
  · exact absurd hdata hlong
  rw [encrypt_eq_bind hne hle hinfinity hpayload]
  cases hdraw : Ibe.drawScalar suite (scalarSource threshold payload random) with
  | error failure =>
      obtain ⟨rfl, hcandidates⟩ := Ibe.drawScalar_eq_error_iff.1 hdraw
      exact .inr ⟨_, rfl, .randomnessExhausted hcandidates⟩
  | ok drawn =>
      obtain ⟨r, rest⟩ := drawn
      by_cases hvalue : ∀ publicKey ∈ servers.publicKeys, suite.compress? (suite.pairing
          (suite.mul1 r.val (Ibe.hashIdentity suite (fullIdentity packageId innerId)))
            publicKey) ≠ none
      · obtain ⟨masked, hmasked⟩ := Ibe.exists_maskPayloads_eq_ok hvalue
          ((dealtShares servers threshold payload random).map Share.payload)
        rw [Outcome.ok_bind, hmasked]
        exact .inl ⟨_, rfl⟩
      · push Not at hvalue
        obtain ⟨publicKey, hmem, hnone⟩ := hvalue
        rw [Outcome.ok_bind, Ibe.maskPayloads_eq_maskUndefined length_dealtShares hmem hnone]
        exact .inr ⟨_, rfl, .maskUndefined hdraw hmem hnone⟩

/-- Sealing refuses its input exactly if the threshold is zero or larger than the number of
servers, or if a public key is the neutral element.  Otherwise it gives an object that is laid
out as was asked for, unless it breaks off. -/
theorem encrypt_laidOut (packageId : ObjectId) (innerId : List UInt8) (servers : ServerSet suite)
    (threshold : UInt8) {payload : Payload} (hdata : payload.Encryptable)
    (random : RandomSource) :
    ((∃ fault, encrypt packageId innerId servers threshold payload random =
        .error (.refused (.invalidInput fault))) ↔
      threshold = 0 ∨ servers.size < threshold.toNat ∨ suite.infinity ∈ servers.publicKeys) ∧
    (¬ (threshold = 0 ∨ servers.size < threshold.toNat ∨ suite.infinity ∈ servers.publicKeys) →
      (∃ result, encrypt packageId innerId servers threshold payload random = .ok result ∧
        LaidOut packageId innerId servers threshold payload random result) ∨
      ∃ failure, encrypt packageId innerId servers threshold payload random = .error failure ∧
        BreaksOff servers (fullIdentity packageId innerId)
          (scalarSource threshold payload random) failure) := by
  constructor
  · simp only [encrypt_eq_invalidInput_iff]
    constructor
    · rintro ⟨fault, ⟨hzero | hlt, -⟩ | ⟨-, -, -, hinfinity, -⟩⟩
      · exact .inl hzero
      · exact .inr (.inl hlt)
      · exact .inr (.inr hinfinity)
    · intro hbad
      -- Public keys are looked at only after the threshold.
      by_cases hrange : threshold = 0 ∨ servers.size < threshold.toNat
      · exact ⟨_, .inl ⟨hrange, rfl⟩⟩
      · obtain ⟨hne, hle⟩ := not_or.1 hrange
        have hinfinity := (or_assoc.2 hbad).resolve_left hrange
        exact ⟨_, .inr ⟨hne, Nat.not_lt.1 hle, hdata, hinfinity, rfl⟩⟩
  · intro hgood
    obtain ⟨hne, hgood⟩ := not_or.1 hgood
    obtain ⟨hle, hinfinity⟩ := not_or.1 hgood
    rcases encrypt_cases hne (Nat.not_lt.1 hle) hinfinity hdata with ⟨result, hresult⟩ | hbroken
    · exact .inl ⟨result, hresult, laidOut_of_encrypt hresult⟩
    · exact .inr hbroken

open PairingSuite in
/-- Three bytes that are sealed for three servers, any two of which release them. -/
theorem encrypt_laidOut_two_of_three :
    (Payload.data [10, 20, 30]).Encryptable ∧
    ∃ result, encrypt (idOf 7) [1, 2] threeServers 2 (.data [10, 20, 30])
        { byteAt := fun _ => 1 } = .ok result ∧
      LaidOut (idOf 7) [1, 2] threeServers 2 (.data [10, 20, 30]) { byteAt := fun _ => 1 }
        result := by
  have hdata : (Payload.data [10, 20, 30]).Encryptable := by
    rintro _ ⟨⟩
    decide
  have hgood : ¬ ((2 : UInt8) = 0 ∨ threeServers.size < (2 : UInt8).toNat ∨
      discreteLog.infinity ∈ threeServers.publicKeys) := by
    decide
  refine ⟨hdata, ?_⟩
  rcases (encrypt_laidOut (idOf 7) [1, 2] threeServers 2 hdata { byteAt := fun _ => 1 }).2 hgood
    with hlaidOut | ⟨failure, hbroken, -⟩
  · exact hlaidOut
  · obtain ⟨result, hresult⟩ := exists_encrypt_threeServers (hdata [10, 20, 30] rfl)
    rw [hresult] at hbroken
    cases hbroken

end Sealing
end Quorum
