import Quorum.Proofs.Ibe.Masking
import Quorum.Proofs.SealedObject.Codec
import Quorum.Proofs.Sharing.Reconstruction
import Quorum.Sealing

/-!
# What sealing leaves behind

`Sealing.encrypt` succeeds exactly if each of its steps does, and the object is
then made of their results.  From this, the places of an object are described: a
service and the masked share at the same place belong to one server and to one
share of the key, which is masked for that server.

An object that has been sealed is valid, whatever was sealed.
-/

namespace Quorum

/-- What opening an object gives: the data, or the key if there are none. -/
def Payload.contents (payload : Payload) (key : Key) : List UInt8 :=
  match payload with
  | data bytes => bytes
  | keyOnly => key.toList

theorem Aes256Gcm.length_of_encrypt? {key : Key} {nonce : Bytes 12} {bytes blob : List UInt8}
    {mac : Bytes 16} (hencrypt : encrypt? key nonce bytes = some (blob, mac)) :
    blob.length = bytes.length := by
  rw [encrypt?] at hencrypt
  split at hencrypt
  · cases hencrypt
    exact mask_length _ _ _
  · cases hencrypt

namespace Sealing

variable {suite : PairingSuite}

theorem lift_eq_ok_iff {α : Type} {x : Except SealingError α} {a : α} :
    (liftM x : Except Failure α) = .ok a ↔ x = .ok a :=
  Outcome.mapError_eq_ok_iff

/-- A ciphertext holds a payload under a key. -/
inductive Holds (key : Key) : Payload → Ciphertext → Prop where
  | data {bytes : List UInt8} {nonce : Bytes 12} {blob : List UInt8} {mac : Bytes 16}
      (hencrypt : Aes256Gcm.encrypt? key nonce bytes = some (blob, mac)) :
      Holds key (.data bytes) (.aes256Gcm nonce blob mac)
  | keyOnly : Holds key .keyOnly .plain

theorem holds_of_encryptPayload {key : Key} {payload : Payload} {random rest : RandomSource}
    {ciphertext : Ciphertext} (h : encryptPayload key payload random = .ok (ciphertext, rest)) :
    Holds key payload ciphertext := by
  cases payload with
  | keyOnly =>
      cases h
      exact .keyOnly
  | data bytes =>
      obtain ⟨⟨⟨nonce, blob, mac⟩, after⟩, hdata, hresult⟩ := Outcome.bind_eq_ok_iff.1 h
      cases hresult
      simp only [encryptData] at hdata
      split at hdata
      · rename_i hencrypt
        cases hdata
        exact .data hencrypt
      · cases hdata

theorem exists_encryptPayload_eq_ok {bytes : List UInt8}
    (hlength : bytes.length ≤ Aes256Gcm.maxPlaintext) (key : Key) (random : RandomSource) :
    ∃ ciphertext, encryptPayload key (.data bytes) random = .ok (ciphertext, random.skip 12) := by
  simp [encryptPayload, encryptData, RandomSource.take, Aes256Gcm.encrypt?, hlength]

/-- The object that is made of shares of its key, of an ephemeral scalar, and of what
these give. -/
def sealedObject (packageId : ObjectId) (innerId : List UInt8) (servers : ServerSet suite)
    (threshold : UInt8) (shares : List Share) (r : suite.Scalar) (masked : List Key)
    (ciphertext : Ciphertext) : SealedObject where
  version := SealedObject.currentVersion
  packageId := packageId
  innerId := innerId
  services := List.zipWith (fun server share => ⟨server.id, share.index⟩) servers.servers shares
  threshold := threshold
  encapsulation := suite.encode2 (suite.mul2 r.val suite.generator)
  shares := masked
  ciphertext := ciphertext

variable {packageId : ObjectId} {innerId : List UInt8} {servers : ServerSet suite}
  {threshold : UInt8} {payload : Payload} {random : RandomSource} {result : Sealed}

theorem toNat_size (servers : ServerSet suite) :
    (UInt8.ofNat servers.size).toNat = servers.size := by
  have hsize := servers.size_le
  exact UInt8.toNat_ofNat_of_lt' (show servers.size < 256 by rw [ServerSet.size]; omega)

theorem le_size_iff : threshold ≤ UInt8.ofNat servers.size ↔ threshold.toNat ≤ servers.size := by
  rw [UInt8.le_iff_toNat_le, toNat_size]

theorem length_deal (key : Key) (rows : List Key) (servers : ServerSet suite) :
    (Sharing.deal key rows (UInt8.ofNat servers.size)).length = servers.size := by
  rw [Sharing.deal, List.length_map, List.length_range, toNat_size]

/-- There is a share for every public key. -/
theorem length_map_payload_deal (key : Key) (rows : List Key) (servers : ServerSet suite) :
    ((Sharing.deal key rows (UInt8.ofNat servers.size)).map Share.payload).length =
      servers.publicKeys.length := by
  rw [List.length_map, length_deal, ServerSet.publicKeys, List.length_map, ServerSet.size]

theorem encrypt_eq_ok_iff :
    encrypt packageId innerId servers threshold payload random = .ok result ↔
      threshold ≠ 0 ∧ threshold.toNat ≤ servers.size ∧ suite.infinity ∉ servers.publicKeys ∧
        ∃ ciphertext middle rows r masked rest,
          encryptPayload (random.next 32) payload (random.skip 32) = .ok (ciphertext, middle) ∧
          rows = (middle.takeMany 32 (threshold.toNat - 1)).1 ∧
          Ibe.drawScalar suite (middle.takeMany 32 (threshold.toNat - 1)).2 = .ok (r, rest) ∧
          Ibe.maskPayloads suite r (fullIdentity packageId innerId)
            ((Sharing.deal (random.next 32) rows (UInt8.ofNat servers.size)).map Share.payload)
            servers.publicKeys = .ok masked ∧
          result = ⟨sealedObject packageId innerId servers threshold
            (Sharing.deal (random.next 32) rows (UInt8.ofNat servers.size)) r masked ciphertext,
            random.next 32, rest⟩ := by
  simp only [encrypt, Outcome.throw_eq_error, Outcome.error_bind, Outcome.guard_eq_ok_iff,
    Outcome.bind_eq_ok_iff, Outcome.pure_eq_ok, Except.ok.injEq, Prod.exists,
    Ibe.encrypt_eq_ok_iff, lift_eq_ok_iff, RandomSource.take, not_or, Nat.not_lt]
  constructor
  · rintro ⟨⟨hne, hle⟩, ciphertext, middle, hpayload, shares, after, hsplit, _, masked, rest,
      ⟨-, hinfinity, r, hr, hmasked, rfl⟩, rfl⟩
    rw [Sharing.split_eq_ok _ _ hne (le_size_iff.2 hle)] at hsplit
    cases hsplit
    exact ⟨hne, hle, hinfinity, ciphertext, middle, _, r, masked, rest, hpayload, rfl, hr, hmasked,
      rfl⟩
  · rintro ⟨hne, hle, hinfinity, ciphertext, middle, _, r, masked, rest, hpayload, rfl, hr, hmasked,
      rfl⟩
    exact ⟨⟨hne, hle⟩, ciphertext, middle, hpayload, _, _,
      Sharing.split_eq_ok _ _ hne (le_size_iff.2 hle), _, masked, rest,
      ⟨length_map_payload_deal _ _ _, hinfinity, r, hr, hmasked, rfl⟩, rfl⟩

/-- Sealing succeeds if data can be encrypted, a scalar is drawn and no mask is
undefined. -/
theorem exists_encrypt_eq_ok (hne : threshold ≠ 0) (hle : threshold.toNat ≤ servers.size)
    (hinfinity : suite.infinity ∉ servers.publicKeys) {ciphertext : Ciphertext}
    {middle rest : RandomSource} {r : suite.Scalar}
    (hpayload : encryptPayload (random.next 32) payload (random.skip 32) =
      .ok (ciphertext, middle))
    (hdraw : Ibe.drawScalar suite (middle.takeMany 32 (threshold.toNat - 1)).2 = .ok (r, rest))
    (hvalue : ∀ publicKey ∈ servers.publicKeys, suite.compress? (suite.pairing
      (suite.mul1 r.val (Ibe.hashIdentity suite (fullIdentity packageId innerId))) publicKey) ≠
        none) :
    ∃ result, encrypt packageId innerId servers threshold payload random = .ok result := by
  obtain ⟨masked, hmasked⟩ := Ibe.exists_maskPayloads_eq_ok hvalue _
  exact ⟨_, encrypt_eq_ok_iff.2 ⟨hne, hle, hinfinity, ciphertext, middle, _, r, masked, rest,
    hpayload, rfl, hdraw, hmasked, rfl⟩⟩

/-! ## The places of an object -/

variable {shares : List Share} {r : suite.Scalar} {masked : List Key} {ciphertext : Ciphertext}

theorem services_sealedObject :
    (sealedObject packageId innerId servers threshold shares r masked ciphertext).services =
      (servers.servers.zip shares).map fun place => ⟨place.1.id, place.2.index⟩ := by
  rw [List.map_zip_eq_zipWith]
  rfl

theorem map_server_sealedObject (hlength : shares.length = servers.size) :
    (sealedObject packageId innerId servers threshold shares r masked ciphertext).services.map
      Service.server = servers.servers.map KeyServer.id := by
  have hfst : (servers.servers.zip shares).map Prod.fst = servers.servers :=
    List.map_fst_zip hlength.ge
  rw [services_sealedObject, List.map_map]
  calc
    _ = ((servers.servers.zip shares).map Prod.fst).map KeyServer.id := List.map_map.symm
    _ = servers.servers.map KeyServer.id := by rw [hfst]

theorem map_index_sealedObject (hlength : shares.length = servers.size) :
    (sealedObject packageId innerId servers threshold shares r masked ciphertext).services.map
      Service.index = shares.map Share.index := by
  have hsnd : (servers.servers.zip shares).map Prod.snd = shares :=
    List.map_snd_zip hlength.le
  rw [services_sealedObject, List.map_map]
  calc
    _ = ((servers.servers.zip shares).map Prod.snd).map Share.index := List.map_map.symm
    _ = shares.map Share.index := by rw [hsnd]

theorem length_masked (hlength : shares.length = servers.size)
    (hmasked : Ibe.maskPayloads suite r (fullIdentity packageId innerId)
      (shares.map Share.payload) servers.publicKeys = .ok masked) :
    masked.length = servers.size := by
  rw [← (Ibe.maskPayloads_eq_ok_iff.1 hmasked).length_eq]
  simp [ServerSet.publicKeys, hlength, ServerSet.size]

/-- A service and the masked share at the same place belong to one server and to one
share. -/
theorem exists_of_mem_zip_sealedObject
    (hmasked : Ibe.maskPayloads suite r (fullIdentity packageId innerId)
      (shares.map Share.payload) servers.publicKeys = .ok masked)
    {service : Service} {m : Key}
    (hmem : (service, m) ∈ (sealedObject packageId innerId servers threshold shares r masked
      ciphertext).services.zip masked) :
    ∃ server ∈ servers.servers, ∃ share ∈ shares, service = ⟨server.id, share.index⟩ ∧
      Ibe.Masks suite r (fullIdentity packageId innerId) share.payload server.publicKey m := by
  -- Payloads and public keys are zipped the other way round than servers and shares.
  have hplaces : (shares.map Share.payload).zip servers.publicKeys =
      (servers.servers.zip shares).map fun place => (place.2.payload, place.1.publicKey) := by
    rw [ServerSet.publicKeys, List.zip_map, ← List.zip_swap, List.map_map]
    rfl
  rw [Ibe.maskPayloads_eq_ok_iff, hplaces, List.forall₂_map_left_iff] at hmasked
  rw [services_sealedObject, List.zip_map_left] at hmem
  obtain ⟨⟨⟨server, share⟩, m'⟩, hzip, heq⟩ := List.mem_map.1 hmem
  cases heq
  have hplace := List.of_mem_zip (List.of_mem_zip hzip).1
  exact ⟨server, hplace.1, share, hplace.2, rfl, List.forall₂_zip hmasked hzip⟩

/-- Indices from one on, a masked share for every server and a threshold up to their
number make a valid object. -/
theorem valid_sealedObject {key : Key} {rows : List Key} (hne : threshold ≠ 0)
    (hle : threshold.toNat ≤ servers.size) (hmasked : masked.length = servers.size)
    (hholds : Holds key payload ciphertext) :
    (sealedObject packageId innerId servers threshold
      (Sharing.deal key rows (UInt8.ofNat servers.size)) r masked ciphertext).Valid := by
  have hdeal := length_deal key rows servers
  have hservices : (sealedObject packageId innerId servers threshold
      (Sharing.deal key rows (UInt8.ofNat servers.size)) r masked ciphertext).services.length =
        servers.size := by
    rw [services_sealedObject, List.length_map, List.length_zip, hdeal, ServerSet.size,
      Nat.min_self]
  have hpos := servers.size_pos
  exact {
    version_eq := rfl
    services_ne_zero := by
      rw [hservices, ServerSet.size]
      omega
    services_le := hservices.le.trans servers.size_le
    shares_length := hmasked.trans hservices.symm
    threshold_ne_zero := hne
    threshold_le := hle.trans hservices.ge
    index_ne_zero := by
      rw [map_index_sealedObject hdeal, List.forall_mem_map]
      exact fun share hshare => (Sharing.mem_deal_iff.1 hshare).1
    nodup_indices := by
      rw [map_index_sealedObject hdeal]
      exact Sharing.nodup_index_deal _ _ _
    unknown_tag := by
      rintro tag bytes rfl
      cases hholds }

/-- What holds of an object that has been sealed for a set of servers, where `rows` are
the coefficients with which its key was split and `r` is the ephemeral scalar. -/
structure SealedFor (servers : ServerSet suite) (threshold : UInt8) (payload : Payload)
    (rows : List Key) (r : suite.Scalar) (object : SealedObject) (key : Key) : Prop where
  valid : object.Valid
  threshold_eq : object.threshold = threshold
  length_rows : rows.length < threshold.toNat
  encapsulation_eq : object.encapsulation = suite.encode2 (suite.mul2 r.val suite.generator)
  holds : Holds key payload object.ciphertext
  servers_eq : object.services.map Service.server = servers.servers.map KeyServer.id
  /-- A service and the masked share at the same place belong to one server and to one
  share of the key. -/
  exists_of_mem_zip : ∀ service masked, (service, masked) ∈ object.services.zip object.shares →
    ∃ server ∈ servers.servers,
      ∃ share ∈ Sharing.deal key rows (UInt8.ofNat servers.size),
        service = ⟨server.id, share.index⟩ ∧
          Ibe.Masks suite r object.identity share.payload server.publicKey masked

theorem exists_sealedFor_of_encrypt
    (h : encrypt packageId innerId servers threshold payload random = .ok result) :
    result.object.packageId = packageId ∧ result.object.innerId = innerId ∧
      ∃ rows r, SealedFor servers threshold payload rows r result.object result.key := by
  obtain ⟨hne, hle, -, ciphertext, middle, rows, r, masked, rest, hpayload, hrows, -, hmasked,
    rfl⟩ := encrypt_eq_ok_iff.1 h
  have hholds := holds_of_encryptPayload hpayload
  have hlength := length_deal (random.next 32) rows servers
  have hthreshold : threshold.toNat ≠ 0 := fun hzero => hne (UInt8.toNat_inj.1 hzero)
  refine ⟨rfl, rfl, rows, r, ?_⟩
  exact {
    valid := valid_sealedObject hne hle (length_masked hlength hmasked) hholds
    threshold_eq := rfl
    length_rows := by
      rw [hrows, RandomSource.takeMany_length]
      omega
    encapsulation_eq := rfl
    holds := hholds
    servers_eq := map_server_sealedObject hlength
    exists_of_mem_zip := fun _ _ hmem => exists_of_mem_zip_sealedObject hmasked hmem }

end Sealing
end Quorum
