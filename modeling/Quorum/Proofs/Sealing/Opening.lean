import Quorum.Proofs.Ibe.Verification
import Quorum.Proofs.Sealing.Encryption

/-!
# Opening what has been sealed

Each key that takes the mask off a place of a sealed object uncovers the share of
that place.  Places of an object have distinct indices, so as many keys as the
threshold says uncover enough shares for the key of the object to be rebuilt, and
its payload is what was sealed.

It is immaterial here how the keys were obtained, and which places they are for if
there are enough of them.
-/

namespace Quorum
namespace Sealing

variable {suite : PairingSuite}

/-- A single share is not combined, but if it is enough, combining it would give the
same. -/
theorem rebuildKey_eq_combine {threshold : UInt8} {shares : List Share}
    (hne : ∀ share ∈ shares, share.index ≠ 0) (hthreshold : threshold ≠ 0)
    (hle : threshold.toNat ≤ shares.length) :
    rebuildKey threshold shares = Sharing.combine shares threshold := by
  rcases shares with _ | ⟨only, _ | ⟨second, rest⟩⟩
  · rfl
  · have hpos : threshold.toNat ≠ 0 := fun hzero => hthreshold (UInt8.toNat_inj.1 hzero)
    have hone : threshold = 1 := by
      apply UInt8.toNat_inj.1
      simp only [List.length_cons, List.length_nil] at hle
      exact Nat.le_antisymm hle (Nat.one_le_iff_ne_zero.2 hpos)
    rw [hone, Sharing.combine_singleton (hne only (by simp)), rebuildKey]
  · rfl

variable {object : SealedObject} {selected : List (Opening suite)} {encapsulation : suite.G2}

/-- Unmasking keeps the indices of the places. -/
theorem map_index_of_decrypt {shares : List Share}
    (h : (selected.mapM fun opening =>
      Ibe.decrypt suite encapsulation opening.key opening.masked opening.service.index) =
        .ok shares) :
    shares.map Share.index = (selected.map Opening.service).map Service.index := by
  have hindices : List.Forall₂ (· = ·) (selected.map fun opening => opening.service.index)
      (shares.map Share.index) := by
    rw [List.forall₂_map_left_iff, List.forall₂_map_right_iff]
    refine (Outcome.mapM_eq_ok_iff.1 h).imp fun opening share hshare => ?_
    obtain ⟨mask, -, hresult⟩ := Outcome.bind_eq_ok_iff.1 hshare
    cases hresult
    rfl
  rw [List.forall₂_eq_eq_eq] at hindices
  rw [← hindices, List.map_map]
  rfl

/-- Shares of different places of a valid object are consistent, and no two of them have the
same index. -/
theorem consistent_of_decrypt (hvalid : object.Valid)
    (hplaces : (selected.map Opening.service).Sublist object.services) {shares : List Share}
    (h : (selected.mapM fun opening =>
      Ibe.decrypt suite encapsulation opening.key opening.masked opening.service.index) =
        .ok shares) :
    Sharing.Consistent shares ∧ Sharing.indexCount shares = selected.length := by
  have hindices := map_index_of_decrypt h
  have hsublist := hplaces.map Service.index
  have hne : ∀ index ∈ shares.map Share.index, index ≠ 0 :=
    fun index hindex => hvalid.index_ne_zero index (hsublist.subset (hindices ▸ hindex))
  have hnodup : (shares.map Share.index).Nodup :=
    hindices ▸ hsublist.nodup hvalid.nodup_indices
  refine ⟨Sharing.consistent_of_nodup hne hnodup, ?_⟩
  rw [Sharing.indexCount_of_nodup hnodup, ← List.length_map Share.index, hindices,
    List.length_map, List.length_map]

open Polynomial in
/-- Enough places whose shares lie on polynomials of degrees below the threshold give the
values at zero. -/
theorem recoverKey_eq_values (hvalid : object.Valid)
    (hdecode : suite.decode2? object.encapsulation = some encapsulation)
    {p : Fin 32 → GF256[X]} (hdegree : ∀ j, (p j).degree < object.threshold.toNat)
    (hplaces : (selected.map Opening.service).Sublist object.services)
    (hlength : object.threshold.toNat ≤ selected.length)
    (hselected : ∀ opening ∈ selected, ∃ share, Ibe.decrypt suite encapsulation opening.key
      opening.masked opening.service.index = .ok share ∧
        ∀ j : Fin 32, (p j).eval ⟨share.index⟩ = ⟨share.payload.get j⟩) :
    recoverKey object selected = .ok (Vector.ofFn fun j => ((p j).eval 0).byte) := by
  obtain ⟨shares, hshares⟩ := Outcome.exists_mapM_eq_ok
    fun opening hopening => (hselected opening hopening).imp fun _ => And.left
  have heval : ∀ share ∈ shares, ∀ j : Fin 32,
      (p j).eval ⟨share.index⟩ = ⟨share.payload.get j⟩ := by
    intro share hshare
    obtain ⟨opening, hopening, hunmasked⟩ :=
      Outcome.exists_item_of_mem (Outcome.mapM_eq_ok_iff.1 hshares) hshare
    obtain ⟨share', hunmasked', hvalues⟩ := hselected opening hopening
    rw [hunmasked] at hunmasked'
    cases hunmasked'
    exact hvalues
  obtain ⟨hconsistent, hcount⟩ := consistent_of_decrypt hvalid hplaces hshares
  have henough : object.threshold.toNat ≤ Sharing.indexCount shares := hlength.trans hcount.ge
  have hrebuild : rebuildKey object.threshold shares =
      .ok (Vector.ofFn fun j => ((p j).eval 0).byte) := by
    rw [rebuildKey_eq_combine hconsistent.index_ne_zero hvalid.threshold_ne_zero
      (henough.trans Sharing.indexCount_le_length)]
    exact Sharing.combine_eq_ok hconsistent hvalid.threshold_ne_zero henough
      (fun j => (hdegree j).trans_le (by exact_mod_cast henough)) heval
  exact Outcome.bind_eq_ok_iff.2 ⟨_, lift_eq_ok_iff.2 (Ibe.decode2_eq_ok_iff.2 hdecode),
    Outcome.bind_eq_ok_iff.2 ⟨_, hshares, lift_eq_ok_iff.2 hrebuild⟩⟩

variable {servers : ServerSet suite} {threshold : UInt8} {payload : Payload} {rows : List Key}
  {r : suite.Scalar} {key : Key}

/-- A place of a sealed object with a key that takes its mask off. -/
def Fitting (servers : ServerSet suite) (object : SealedObject) (opening : Opening suite) : Prop :=
  (opening.service, opening.masked) ∈ object.services.zip object.shares ∧
    ∀ server ∈ servers.servers, server.id = opening.service.server →
      Ibe.Unmasks suite opening.key object.identity server.publicKey

/-- A key that takes the mask off a place uncovers the share of that place. -/
theorem SealedFor.decrypt_eq_ok (h : SealedFor servers threshold payload rows r object key)
    {opening : Opening suite} (hopening : Fitting servers object opening) :
    Ibe.decrypt suite (suite.mul2 r.val suite.generator) opening.key opening.masked
      opening.service.index = .ok (Sharing.shareAt key rows opening.service.index) := by
  obtain ⟨hmem, hkey⟩ := hopening
  obtain ⟨server, hserver, share, hshare, hservice, hmasked⟩ := h.exists_of_mem_zip _ _ hmem
  have hindex : opening.service.index = share.index := by rw [hservice]
  have hunmasks := hkey server hserver (by rw [hservice])
  have heq := (Sharing.mem_deal_iff.1 hshare).2.2
  rw [hindex, heq]
  exact Ibe.decrypt_eq_ok_of_masks hmasked hunmasks share.index

theorem decryptData_of_encrypt? {nonce : Bytes 12} {bytes blob : List UInt8} {mac : Bytes 16}
    (hencrypt : Aes256Gcm.encrypt? key nonce bytes = some (blob, mac)) :
    decryptData key nonce blob mac = .ok bytes := by
  rw [decryptData, Aes256Gcm.decrypt?_of_encrypt? hencrypt]

/-- Keys for as many places of a sealed object as the threshold says give its key. -/
theorem SealedFor.recoverKey_eq_ok (h : SealedFor servers threshold payload rows r object key)
    (hdecode : ∀ y, suite.decode2? (suite.encode2 y) = some y) {selected : List (Opening suite)}
    (hselected : ∀ opening ∈ selected, Fitting servers object opening)
    (hplaces : (selected.map Opening.service).Sublist object.services)
    (hlength : threshold.toNat ≤ selected.length) : recoverKey object selected = .ok key := by
  have hencapsulation : suite.decode2? object.encapsulation =
      some (suite.mul2 r.val suite.generator) := by
    rw [h.encapsulation_eq, hdecode]
  have hdegree (j : Fin 32) :
      (Sharing.bytePolynomial key rows j).degree < object.threshold.toNat := by
    have hrows : rows.length + 1 ≤ object.threshold.toNat := h.threshold_eq ▸ h.length_rows
    exact (Sharing.degree_bytePolynomial_lt key rows j).trans_le (by exact_mod_cast hrows)
  rw [recoverKey_eq_values h.valid hencapsulation hdegree hplaces (h.threshold_eq ▸ hlength),
    Sharing.ofFn_eval_zero_bytePolynomial]
  intro opening hopening
  exact ⟨_, h.decrypt_eq_ok (hselected opening hopening),
    fun j => Sharing.eval_bytePolynomial key rows _ j⟩

/-- The key of a sealed object opens its payload. -/
theorem openWith_of_holds (hholds : Holds key payload object.ciphertext)
    {selected : List (Opening suite)} (hrecover : recoverKey object selected = .ok key) :
    openWith object selected = .ok (payload.contents key) := by
  cases hciphertext : object.ciphertext with
  | aes256Gcm nonce blob mac =>
      rw [hciphertext] at hholds
      cases hholds with
      | data hencrypt =>
          simp only [openWith, hciphertext]
          exact Outcome.bind_eq_ok_iff.2 ⟨key, hrecover,
            lift_eq_ok_iff.2 (decryptData_of_encrypt? hencrypt)⟩
  | plain =>
      rw [hciphertext] at hholds
      cases hholds
      simp only [openWith, hciphertext]
      exact Outcome.bind_eq_ok_iff.2 ⟨key, hrecover, rfl⟩
  | unknown tag bytes =>
      rw [hciphertext] at hholds
      cases hholds

/-! ## Keys in a ring -/

theorem mem_available_iff {keys : KeyRing suite} {opening : Opening suite} :
    opening ∈ available object keys ↔
      (opening.service, opening.masked) ∈ object.services.zip object.shares ∧
        keys.get? opening.service.server = some opening.key := by
  simp only [available, List.mem_filterMap, Option.map_eq_some_iff, Prod.exists]
  constructor
  · rintro ⟨service, masked, hmem, key, hkey, rfl⟩
    exact ⟨hmem, hkey⟩
  · rintro ⟨hmem, hkey⟩
    exact ⟨opening.service, opening.masked, hmem, opening.key, hkey, rfl⟩

/-- The places for which a key is at hand are among those of the object. -/
theorem map_service_available_sublist (h : object.Valid) (keys : KeyRing suite) :
    ((available object keys).map Opening.service).Sublist object.services := by
  rw [← h.map_fst_zip, available]
  induction object.services.zip object.shares with
  | nil => exact List.Sublist.slnil
  | cons place rest ih =>
      obtain ⟨service, masked⟩ := place
      cases hkey : keys.get? service.server with
      | none =>
          simp only [List.filterMap_cons, hkey, Option.map_none]
          exact ih.cons service
      | some key =>
          simp only [List.filterMap_cons, hkey, Option.map_some, List.map_cons]
          exact ih.cons_cons service

theorem length_available (h : object.Valid) (keys : KeyRing suite) :
    (available object keys).length =
      (object.services.map Service.server).countP keys.contains := by
  calc
    _ = (object.services.zip object.shares).countP fun place =>
          keys.contains place.1.server := by
      rw [available, List.length_filterMap_eq_countP]
      apply List.countP_congr
      simp [Table.contains]
    _ = ((object.services.zip object.shares).map Prod.fst).countP fun service =>
          keys.contains service.server := by
      rw [List.countP_map]
      rfl
    _ = object.services.countP fun service => keys.contains service.server := by
      rw [h.map_fst_zip]
    _ = (object.services.map Service.server).countP keys.contains := by
      rw [List.countP_map]
      rfl

theorem lift_validate_eq_ok_iff {u : Unit} :
    (liftM object.validate : Except Failure Unit) = .ok u ↔ object.Valid :=
  lift_eq_ok_iff.trans SealedObject.validate_eq_ok_iff

/-- The places with which a ring opens a valid object. -/
theorem map_service_take_available_sublist (hvalid : object.Valid) (keys : KeyRing suite) :
    (((available object keys).take object.threshold.toNat).map Opening.service).Sublist
      object.services :=
  ((List.take_sublist _ _).map _).trans (map_service_available_sublist hvalid keys)

theorem decrypt_eq_openWith (hvalid : object.Valid) {keys : KeyRing suite}
    (henough : object.threshold.toNat ≤ (available object keys).length) :
    decrypt object keys =
      openWith object ((available object keys).take object.threshold.toNat) := by
  have hvalidate : (liftM object.validate : Except Failure Unit) = .ok () :=
    lift_validate_eq_ok_iff.2 hvalid
  rw [decrypt, hvalidate, Outcome.ok_bind, if_neg (Nat.not_lt.2 henough)]

/-- Nothing is opened but valid objects with keys for enough of their services. -/
theorem le_available_of_decrypt {keys : KeyRing suite} {bytes : List UInt8}
    (h : decrypt object keys = .ok bytes) :
    object.Valid ∧ object.threshold.toNat ≤ (available object keys).length := by
  obtain ⟨_, hvalidate, hopen⟩ := Outcome.bind_eq_ok_iff.1 h
  simp only [Outcome.throw_eq_error, Outcome.error_bind, Outcome.guard_eq_ok_iff,
    Nat.not_lt] at hopen
  exact ⟨lift_validate_eq_ok_iff.1 hvalidate, hopen.1⟩

/-- A ring that fits a sealed object and has keys for enough of its servers opens it,
whatever keys it has for others. -/
theorem SealedFor.decrypt_of_keyRing (h : SealedFor servers threshold payload rows r object key)
    (hdecode : ∀ y, suite.decode2? (suite.encode2 y) = some y) {keys : KeyRing suite}
    (hkeys : ∀ server ∈ servers.servers, ∀ issued, keys.get? server.id = some issued →
      Ibe.Unmasks suite issued object.identity server.publicKey)
    (hquorum : threshold.toNat ≤ (servers.servers.map KeyServer.id).countP keys.contains) :
    decrypt object keys = .ok (payload.contents key) := by
  have henough : object.threshold.toNat ≤ (available object keys).length := by
    rw [h.threshold_eq, length_available h.valid, h.servers_eq]
    exact hquorum
  have hselected : ∀ opening ∈ (available object keys).take object.threshold.toNat,
      Fitting servers object opening := by
    intro opening hopening
    obtain ⟨hplace, hkey⟩ := mem_available_iff.1 (List.mem_of_mem_take hopening)
    exact ⟨hplace, fun server hserver hid => hkeys server hserver _ (hid ▸ hkey)⟩
  have hplaces := map_service_take_available_sublist h.valid keys
  have hlength : threshold.toNat ≤
      ((available object keys).take object.threshold.toNat).length := by
    rw [List.length_take_of_le henough, h.threshold_eq]
  rw [decrypt_eq_openWith h.valid henough]
  exact openWith_of_holds h.holds (h.recoverKey_eq_ok hdecode hselected hplaces hlength)

/-! ## One key for every service -/

section

variable {keys : List suite.G1}

/-- The services of an object with a key for each of them, in their order. -/
def openings (object : SealedObject) (keys : List suite.G1) : List (Opening suite) :=
  List.zipWith (fun (service, masked) key => ⟨service, masked, key⟩)
    (object.services.zip object.shares) keys

theorem openings_eq_map : openings object keys =
    ((object.services.zip object.shares).zip keys).map fun place =>
      ⟨place.1.1, place.1.2, place.2⟩ := by
  rw [openings, ← List.map_uncurry_zip_eq_zipWith]
  rfl

theorem mem_openings_iff {opening : Opening suite} :
    opening ∈ openings object keys ↔
      ((opening.service, opening.masked), opening.key) ∈
        (object.services.zip object.shares).zip keys := by
  rw [openings_eq_map, List.mem_map]
  constructor
  · rintro ⟨⟨⟨service, masked⟩, key⟩, hmem, rfl⟩
    exact hmem
  · intro hmem
    exact ⟨_, hmem, rfl⟩

theorem map_service_openings (hvalid : object.Valid)
    (hlength : keys.length = object.services.length) :
    (openings object keys).map Opening.service = object.services := by
  have hplaces := hvalid.length_zip.trans hlength.symm
  calc
    (openings object keys).map Opening.service
    _ = (((object.services.zip object.shares).zip keys).map Prod.fst).map Prod.fst := by
      rw [openings_eq_map, List.map_map, List.map_map]
      rfl
    _ = object.services := by
      rw [List.map_fst_zip hplaces.le, hvalid.map_fst_zip]

theorem map_key_openings (hvalid : object.Valid)
    (hlength : keys.length = object.services.length) :
    (openings object keys).map Opening.key = keys := by
  have hplaces := hvalid.length_zip.trans hlength.symm
  calc
    (openings object keys).map Opening.key
    _ = ((object.services.zip object.shares).zip keys).map Prod.snd := by
      rw [openings_eq_map, List.map_map]
      rfl
    _ = keys := List.map_snd_zip hplaces.ge

theorem valid_of_decryptAll {bytes : List UInt8} (h : decryptAll object keys = .ok bytes) :
    object.Valid := by
  obtain ⟨_, hvalidate, -⟩ := Outcome.bind_eq_ok_iff.1 h
  exact lift_validate_eq_ok_iff.1 hvalidate

theorem decryptAll_eq_openWith (hvalid : object.Valid)
    (hlength : keys.length = object.services.length) :
    decryptAll object keys = openWith object (openings object keys) := by
  have hvalidate : (liftM object.validate : Except Failure Unit) = .ok () :=
    lift_validate_eq_ok_iff.2 hvalid
  rw [decryptAll, hvalidate, Outcome.ok_bind, if_neg (not_not.2 hlength)]
  rfl

end

theorem openings_issued (h : object.Valid) (issued : ObjectId → suite.G1) :
    openings object ((object.services.map Service.server).map issued) =
      (object.services.zip object.shares).map fun place =>
        ⟨place.1, place.2, issued place.1.server⟩ := by
  unfold openings
  nth_rewrite 2 [← h.map_fst_zip]
  rw [List.map_map, List.map_map, List.zipWith_map_right, List.zipWith_self]
  rfl

/-- Keys for all servers, in their order, open a sealed object. -/
theorem SealedFor.decryptAll_of_issued (h : SealedFor servers threshold payload rows r object key)
    (hdecode : ∀ y, suite.decode2? (suite.encode2 y) = some y) (issued : ObjectId → suite.G1)
    (hkeys : ∀ server ∈ servers.servers,
      Ibe.Unmasks suite (issued server.id) object.identity server.publicKey) :
    decryptAll object (servers.servers.map fun server => issued server.id) =
      .ok (payload.contents key) := by
  have hissued : (servers.servers.map fun server => issued server.id) =
      (object.services.map Service.server).map issued := by
    rw [h.servers_eq, List.map_map]
    rfl
  have hcount : ((object.services.map Service.server).map issued).length =
      object.services.length := by
    rw [List.length_map, List.length_map]
  have hservices := map_service_openings h.valid hcount
  have hplaces : ((openings object ((object.services.map Service.server).map issued)).map
      Opening.service).Sublist object.services := by
    rw [hservices]
  have hselected : ∀ opening ∈ openings object ((object.services.map Service.server).map issued),
      Fitting servers object opening := by
    rw [openings_issued h.valid, List.forall_mem_map]
    exact fun place hplace => ⟨hplace, fun server hserver hid => hid ▸ hkeys server hserver⟩
  have hlength : threshold.toNat ≤
      (openings object ((object.services.map Service.server).map issued)).length := by
    rw [← h.threshold_eq, ← List.length_map Opening.service, hservices]
    exact h.valid.threshold_le
  rw [hissued, decryptAll_eq_openWith h.valid hcount]
  exact openWith_of_holds h.holds
    (h.recoverKey_eq_ok hdecode hselected hplaces hlength)

/-! ## Encodings of sealed objects -/

/-- What has been sealed can be encoded if it is short enough. -/
theorem SealedFor.fits (h : SealedFor servers threshold payload rows r object key)
    (hinnerId : object.innerId.length ≤ UInt32.size - 1)
    (hdata : ∀ bytes, payload = .data bytes → bytes.length ≤ UInt32.size - 1) : object.Fits := by
  refine ⟨hinnerId, fun nonce blob mac hciphertext => ?_⟩
  have hholds := h.holds
  rw [hciphertext] at hholds
  cases hholds with
  | data hencrypt => exact (Aes256Gcm.length_of_encrypt? hencrypt).trans_le (hdata _ rfl)

end Sealing
end Quorum
