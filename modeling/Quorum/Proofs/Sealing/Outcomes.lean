import Quorum.Proofs.Sealing.Sufficiency

/-!
# The outcomes of opening an object

Opening looks first at whether the object is valid, then at whether there are enough keys,
then at the kind of the payload, and then at the encapsulation.  The first of these that is not
as it should be decides the error.  After that nothing can be refused but data that do not
decrypt, and nothing breaks off opening but a mask that does not exist.

In particular no error of secret sharing or of key derivation is ever seen from outside.  Such
errors are about shares, and the shares that opening combines have distinct indices, none of
which is zero, and are as many as the threshold says.

Services, masked shares and keys are matched by their positions.  All positions that are looked
up are positions of both lists, and no more of them are taken than there are.
-/

namespace Quorum

/-- Errors of secret sharing and of key derivation, which are steps of opening. -/
inductive SealingError.Internal : SealingError → Prop where
  | invalidParameters (threshold shares : Nat) : Internal (.invalidParameters threshold shares)
  | insufficientShares (required got : Nat) : Internal (.insufficientShares required got)
  | corruptShare (fault : ShareFault) : Internal (.corruptShare fault)
  | keyDerivationFailed : Internal .keyDerivationFailed

namespace Sealing

variable {suite : PairingSuite} {object : SealedObject} {selected : List (Opening suite)}

/-! ## Opening with selected places -/

/-- How opening an object with selected places ends.  The conditions exclude each other: one
that is looked at later comes with the failure of those before. -/
inductive Opens (object : SealedObject) (selected : List (Opening suite)) :
    Except Failure (List UInt8) → Prop where
  | unknownKind {tag : UInt32} {bytes : List UInt8}
      (hciphertext : object.ciphertext = .unknown tag bytes) :
      Opens object selected (.error (.refused (.unsupportedScheme .ciphertext tag.toNat)))
  | invalidEncapsulation (hciphertext : ∀ tag bytes, object.ciphertext ≠ .unknown tag bytes)
      (hdecode : suite.decode2? object.encapsulation = none) :
      Opens object selected (.error (.refused .invalidG2Point))
  | maskUndefined (hciphertext : ∀ tag bytes, object.ciphertext ≠ .unknown tag bytes)
      (hmasks : ¬ MasksDefined object (selected.map Opening.key)) :
      Opens object selected (.error .maskUndefined)
  | keyOnly (hciphertext : object.ciphertext = .plain)
      (hdecode : suite.decode2? object.encapsulation ≠ none)
      (hmasks : MasksDefined object (selected.map Opening.key))
      {key : Key} (hkey : recoverKey object selected = .ok key) :
      Opens object selected (.ok key.toList)
  | data {nonce : Bytes 12} {blob : List UInt8} {mac : Bytes 16}
      (hciphertext : object.ciphertext = .aes256Gcm nonce blob mac)
      (hdecode : suite.decode2? object.encapsulation ≠ none)
      (hmasks : MasksDefined object (selected.map Opening.key))
      {key : Key} (hkey : recoverKey object selected = .ok key)
      {bytes : List UInt8} (hbytes : Aes256Gcm.decrypt? key nonce blob mac = some bytes) :
      Opens object selected (.ok bytes)
  | decryptionFailed {nonce : Bytes 12} {blob : List UInt8} {mac : Bytes 16}
      (hciphertext : object.ciphertext = .aes256Gcm nonce blob mac)
      (hdecode : suite.decode2? object.encapsulation ≠ none)
      (hmasks : MasksDefined object (selected.map Opening.key))
      {key : Key} (hkey : recoverKey object selected = .ok key)
      (hbytes : Aes256Gcm.decrypt? key nonce blob mac = none) :
      Opens object selected (.error (.refused .decryptionFailed))

/-- A step with errors of its own only refuses. -/
theorem exists_refused_of_lift {α : Type} {x : Except SealingError α} {failure : Failure}
    (h : (liftM x : Except Failure α) = .error failure) : ∃ error, failure = .refused error := by
  rcases Settled.lift x with ⟨a, hok⟩ | ⟨error, hrefused⟩
  · rw [hok] at h
    cases h
  · exact ⟨error, Except.error.inj (h.symm.trans hrefused)⟩

/-- The rebuilding of a key breaks off only at a mask. -/
theorem recoverKey_ne_randomnessExhausted :
    recoverKey object selected ≠ .error .randomnessExhausted := by
  intro h
  rcases Outcome.bind_eq_error_iff.1 h with hdecode | ⟨encapsulation, -, h⟩
  · obtain ⟨error, ⟨⟩⟩ := exists_refused_of_lift hdecode
  rcases Outcome.bind_eq_error_iff.1 h with hmasks | ⟨shares, -, hrebuild⟩
  · obtain ⟨opening, -, hopening⟩ := Outcome.exists_of_mapM_eq_error hmasks
    rcases Ibe.decrypt_cases encapsulation opening.key opening.masked opening.service.index with
      ⟨-, share, hshare⟩ | ⟨-, hbroken⟩
    · rw [hshare] at hopening
      cases hopening
    · rw [hbroken] at hopening
      cases hopening
  · obtain ⟨error, ⟨⟩⟩ := exists_refused_of_lift hrebuild

/-- With enough places of a valid object its key is rebuilt, unless its encapsulation is no
encoding or one of the masks does not exist. -/
theorem recoverKey_cases (hvalid : object.Valid)
    (hplaces : (selected.map Opening.service).Sublist object.services)
    (hlength : object.threshold.toNat ≤ selected.length) :
    (suite.decode2? object.encapsulation = none ∧
      recoverKey object selected = .error (.refused .invalidG2Point)) ∨
    (¬ MasksDefined object (selected.map Opening.key) ∧
      recoverKey object selected = .error .maskUndefined) ∨
    (suite.decode2? object.encapsulation ≠ none ∧
      MasksDefined object (selected.map Opening.key) ∧
        ∃ key, recoverKey object selected = .ok key) := by
  by_cases hmasks : MasksDefined object (selected.map Opening.key)
  · rcases settled_recoverKey_iff.2 hmasks with ⟨key, hkey⟩ | ⟨error, hrefused⟩
    · refine .inr (.inr ⟨fun hnone => ?_, hmasks, key, hkey⟩)
      rw [recoverKey, Ibe.decode2, hnone] at hkey
      cases hkey
    · obtain ⟨hnone, rfl⟩ := decode2?_eq_none_of_recoverKey hvalid hplaces hlength hrefused
      exact .inl ⟨hnone, hrefused⟩
  · -- Where a mask is missing there is neither a key nor a refusal.
    have hunsettled := mt settled_recoverKey_iff.1 hmasks
    refine .inr (.inl ⟨hmasks, ?_⟩)
    cases hresult : recoverKey object selected with
    | ok key => exact absurd (hresult ▸ Settled.ok key) hunsettled
    | error failure =>
        cases failure with
        | refused error => exact absurd (hresult ▸ Settled.refused error) hunsettled
        | maskUndefined => rfl
        | randomnessExhausted => exact absurd hresult recoverKey_ne_randomnessExhausted

/-- What is done with the key of an object decides how opening ends once the key is there. -/
theorem opens_of_recoverKey (hvalid : object.Valid)
    (hplaces : (selected.map Opening.service).Sublist object.services)
    (hlength : object.threshold.toNat ≤ selected.length)
    (hknown : ∀ tag bytes, object.ciphertext ≠ .unknown tag bytes)
    {finish : Key → Except Failure (List UInt8)}
    (hfinish : suite.decode2? object.encapsulation ≠ none →
      MasksDefined object (selected.map Opening.key) →
        ∀ key, recoverKey object selected = .ok key → Opens object selected (finish key)) :
    Opens object selected (recoverKey object selected >>= finish) := by
  rcases recoverKey_cases hvalid hplaces hlength with
    ⟨hdecode, hkey⟩ | ⟨hmasks, hkey⟩ | ⟨hdecode, hmasks, key, hkey⟩
  · rw [hkey]
    exact .invalidEncapsulation hknown hdecode
  · rw [hkey]
    exact .maskUndefined hknown hmasks
  · rw [hkey]
    exact hfinish hdecode hmasks key hkey

theorem opens_openWith (hvalid : object.Valid)
    (hplaces : (selected.map Opening.service).Sublist object.services)
    (hlength : object.threshold.toNat ≤ selected.length) :
    Opens object selected (openWith object selected) := by
  cases hciphertext : object.ciphertext with
  | unknown tag bytes =>
      simp only [openWith, hciphertext]
      exact .unknownKind hciphertext
  | plain =>
      simp only [openWith, hciphertext]
      refine opens_of_recoverKey hvalid hplaces hlength (by simp [hciphertext]) ?_
      intro hdecode hmasks key hkey
      exact .keyOnly hciphertext hdecode hmasks hkey
  | aes256Gcm nonce blob mac =>
      simp only [openWith, hciphertext]
      refine opens_of_recoverKey hvalid hplaces hlength (by simp [hciphertext]) ?_
      intro hdecode hmasks key hkey
      rw [decryptData]
      cases hbytes : Aes256Gcm.decrypt? key nonce blob mac with
      | none => exact .decryptionFailed hciphertext hdecode hmasks hkey hbytes
      | some bytes => exact .data hciphertext hdecode hmasks hkey hbytes

/-! ## What comes before -/

/-- How opening an object ends, where `few` says that there are not enough keys: `got` keys
although `required` are asked for. -/
inductive Ends (object : SealedObject) (few : Prop) (required got : Nat)
    (selected : List (Opening suite)) : Except Failure (List UInt8) → Prop where
  | invalid {error : SealingError} (hvalidate : object.validate = .error error) :
      Ends object few required got selected (.error (.refused error))
  | fewKeys (hvalidate : object.validate = .ok ()) (hfew : few) :
      Ends object few required got selected
        (.error (.refused (.insufficientKeys required got)))
  | enoughKeys (hvalidate : object.validate = .ok ()) (henough : ¬ few)
      {result : Except Failure (List UInt8)} (hopens : Opens object selected result) :
      Ends object few required got selected result

/-- Errors of secret sharing and of key derivation stay inside. -/
theorem Ends.not_internal {few : Prop} {required got : Nat} {result : Except Failure (List UInt8)}
    (h : Ends object few required got selected result) :
    ∀ error, result = .error (.refused error) → ¬ error.Internal := by
  rintro error rfl
  cases h with
  | invalid hvalidate =>
      rcases SealedObject.validate_eq_error hvalidate with ⟨-, rfl⟩ | ⟨-, malformation, rfl⟩
      · rintro ⟨⟩
      · rintro ⟨⟩
  | fewKeys => rintro ⟨⟩
  | enoughKeys hvalidate henough hopens =>
      cases hopens with
      | unknownKind => rintro ⟨⟩
      | invalidEncapsulation => rintro ⟨⟩
      | decryptionFailed => rintro ⟨⟩

theorem ends_decrypt (object : SealedObject) (keys : KeyRing suite) :
    Ends object
      ((object.services.map Service.server).countP keys.contains < object.threshold.toNat)
      object.threshold.toNat ((object.services.map Service.server).countP keys.contains)
      ((available object keys).take object.threshold.toNat) (decrypt object keys) := by
  cases hvalidate : object.validate with
  | error error =>
      rw [decrypt, hvalidate]
      exact .invalid hvalidate
  | ok u =>
      have hvalid : object.Valid := SealedObject.validate_eq_ok_iff.1 hvalidate
      have hcount := length_available hvalid keys
      by_cases hfew : (available object keys).length < object.threshold.toNat
      · rw [decrypt_eq_error_of_few hvalid hfew, hcount]
        exact .fewKeys hvalidate (hcount ▸ hfew)
      · have henough := Nat.not_lt.1 hfew
        rw [decrypt_eq_openWith hvalid henough]
        exact .enoughKeys hvalidate (hcount ▸ hfew)
          (opens_openWith hvalid (map_service_take_available_sublist hvalid keys)
            (List.length_take_of_le henough).ge)

theorem ends_decryptAll (object : SealedObject) (keys : List suite.G1) :
    Ends object (keys.length ≠ object.services.length) object.services.length keys.length
      (openings object keys) (decryptAll object keys) := by
  cases hvalidate : object.validate with
  | error error =>
      rw [decryptAll, hvalidate]
      exact .invalid hvalidate
  | ok u =>
      have hvalid : object.Valid := SealedObject.validate_eq_ok_iff.1 hvalidate
      by_cases hlength : keys.length = object.services.length
      · have hservices := map_service_openings hvalid hlength
        have henough : object.threshold.toNat ≤ (openings object keys).length := by
          rw [← List.length_map Opening.service, hservices]
          exact hvalid.threshold_le
        rw [decryptAll_eq_openWith hvalid hlength]
        exact .enoughKeys hvalidate (not_not.2 hlength)
          (opens_openWith hvalid (by rw [hservices]) henough)
      · rw [decryptAll, hvalidate]
        change Ends _ _ _ _ _ (if keys.length ≠ object.services.length then
          .error (.refused (.insufficientKeys object.services.length keys.length)) else _)
        rw [if_pos hlength]
        exact .fewKeys hvalidate hlength

/-! ## Positions -/

/-- The positions of the services for which a ring has a key, with these keys. -/
def places (object : SealedObject) (keys : KeyRing suite) : List (Nat × suite.G1) :=
  object.services.zipIdx.filterMap fun (service, position) =>
    (keys.get? service.server).map fun key => (position, key)

/-- The positions of keys in a list, with these keys. -/
def allPlaces (keys : List suite.G1) : List (Nat × suite.G1) :=
  keys.zipIdx.map Prod.swap

/-- A position is one of a service and of a masked share, which are opened with the key that
comes with it. -/
structure FoundAt (object : SealedObject) (place : Nat × suite.G1) (opening : Opening suite) :
    Prop where
  service_eq : object.services[place.1]? = some opening.service
  masked_eq : object.shares[place.1]? = some opening.masked
  key_eq : place.2 = opening.key

theorem foundAt_of_mem_zipIdx {service : Service} {masked : Key} {position : Nat}
    (h : ((service, masked), position) ∈ (object.services.zip object.shares).zipIdx)
    (key : suite.G1) : FoundAt object (position, key) ⟨service, masked, key⟩ := by
  obtain ⟨hservice, hmasked⟩ := List.getElem?_zip_eq_some.1 (List.mk_mem_zipIdx_iff_getElem?.1 h)
  exact ⟨hservice, hmasked, rfl⟩

/-- All positions of services are positions of masked shares as well, in a valid object. -/
theorem forall₂_places (hvalid : object.Valid) (keys : KeyRing suite) :
    List.Forall₂ (FoundAt object) (places object keys) (available object keys) := by
  -- Both lists are read off one numbering of the services with their masked shares.
  let numbered := (object.services.zip object.shares).zipIdx
  have hplaces : places object keys = numbered.filterMap fun place =>
      (keys.get? place.1.1.server).map fun key => (place.2, key) := by
    rw [places, ← hvalid.map_fst_zip, List.zipIdx_map, List.filterMap_map]
    rfl
  have havailable : available object keys = numbered.filterMap fun place =>
      (keys.get? place.1.1.server).map fun key => ⟨place.1.1, place.1.2, key⟩ := by
    rw [available, ← List.zipIdx_map_fst 0 (object.services.zip object.shares),
      List.filterMap_map]
    rfl
  rw [hplaces, havailable]
  refine List.rel_filterMap (R := fun first second => first = second ∧ first ∈ numbered) ?_
    (List.forall₂_same.2 fun place hplace => ⟨rfl, hplace⟩)
  rintro ⟨⟨service, masked⟩, position⟩ _ ⟨rfl, hplace⟩
  cases hkey : keys.get? service.server with
  | none =>
      simp only [hkey, Option.map_none]
      exact .none
  | some key =>
      simp only [hkey, Option.map_some]
      exact .some (foundAt_of_mem_zipIdx hplace key)

/-- As many keys as services have the positions of the services. -/
theorem forall₂_allPlaces (hvalid : object.Valid) {keys : List suite.G1}
    (hlength : keys.length = object.services.length) :
    List.Forall₂ (FoundAt object) (allPlaces keys) (openings object keys) := by
  let numbered := ((object.services.zip object.shares).zip keys).zipIdx
  have hplaces : allPlaces keys = numbered.map fun place => (place.2, place.1.2) := by
    have hkeys : ((object.services.zip object.shares).zip keys).map Prod.snd = keys :=
      List.map_snd_zip (hlength.trans hvalid.length_zip.symm).le
    nth_rewrite 1 [allPlaces, ← hkeys]
    rw [List.zipIdx_map, List.map_map]
    rfl
  have hopenings : openings object keys = numbered.map fun place =>
      ⟨place.1.1.1, place.1.1.2, place.1.2⟩ := by
    rw [openings_eq_map, ← List.zipIdx_map_fst 0 ((object.services.zip object.shares).zip keys),
      List.map_map]
    rfl
  rw [hplaces, hopenings, List.forall₂_map_left_iff, List.forall₂_map_right_iff,
    List.forall₂_same]
  rintro ⟨⟨⟨service, masked⟩, key⟩, position⟩ hplace
  have hzip := (List.getElem?_zip_eq_some.1 (List.mk_mem_zipIdx_iff_getElem?.1 hplace)).1
  exact foundAt_of_mem_zipIdx (List.mk_mem_zipIdx_iff_getElem?.2 hzip) key

/-- Opening an object ends in one of the documented ways, whichever object it is.  With the keys
of a ring, services with a key are counted and the threshold is required; with keys for all
services, as many keys as services.  The first that fails of these decides the error: the object
is valid, there are enough keys, the kind of the payload is known, the encapsulation is an
encoding.  After that a payload which is nothing but the key is opened, and data are opened or
do not decrypt, where all masks exist.  No error of secret sharing or key derivation gets out.

Every position that is looked up is one of both lists, and if there are enough keys then there
are as many of them as the threshold says. -/
theorem decrypt_classification (object : SealedObject) :
    (∀ keys : KeyRing suite,
      Ends object
        ((object.services.map Service.server).countP keys.contains < object.threshold.toNat)
        object.threshold.toNat ((object.services.map Service.server).countP keys.contains)
        ((available object keys).take object.threshold.toNat) (decrypt object keys) ∧
      (∀ error, decrypt object keys = .error (.refused error) → ¬ error.Internal) ∧
      (object.validate = .ok () →
        List.Forall₂ (FoundAt object) (places object keys) (available object keys) ∧
          (places object keys).length =
            (object.services.map Service.server).countP keys.contains)) ∧
    (∀ keys : List suite.G1,
      Ends object (keys.length ≠ object.services.length) object.services.length keys.length
        (openings object keys) (decryptAll object keys) ∧
      (∀ error, decryptAll object keys = .error (.refused error) → ¬ error.Internal) ∧
      (object.validate = .ok () → keys.length = object.services.length →
        List.Forall₂ (FoundAt object) (allPlaces keys) (openings object keys))) := by
  constructor
  · intro keys
    refine ⟨ends_decrypt object keys, (ends_decrypt object keys).not_internal, fun hvalidate => ?_⟩
    have hvalid := SealedObject.validate_eq_ok_iff.1 hvalidate
    have hfound := forall₂_places hvalid keys
    exact ⟨hfound, hfound.length_eq.trans (length_available hvalid keys)⟩
  · intro keys
    exact ⟨ends_decryptAll object keys, (ends_decryptAll object keys).not_internal,
      fun hvalidate => forall₂_allPlaces (SealedObject.validate_eq_ok_iff.1 hvalidate)⟩

end Sealing
end Quorum
