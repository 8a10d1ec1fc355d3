import Quorum.Proofs.Sealing.Endings

/-!
# How many keys opening needs

Once a ring has keys for enough services of a valid object, it is never refused for want of
keys or shares: the places of an object have distinct indices, none of which is zero, so the
shares of as many places as the threshold says combine, whatever they are.  What is left to
be refused is an unknown kind of payload, an encapsulation that is no encoding, and data
that do not decrypt.

Services are counted, not servers.  An object may list a server more than once, and then its
key counts as often as it is listed.  Only if no server is listed twice are the services with
a key as many as the servers with one.
-/

namespace Quorum

namespace Sealing

variable {suite : PairingSuite} {object : SealedObject} {selected : List (Opening suite)}
  {error : SealingError}

/-- Consistent shares of enough indices rebuild a key. -/
theorem exists_rebuildKey_eq_ok {threshold : UInt8} {shares : List Share}
    (h : Sharing.Consistent shares) (hthreshold : threshold ≠ 0)
    (hle : threshold.toNat ≤ Sharing.indexCount shares) :
    ∃ key, rebuildKey threshold shares = .ok key := by
  rw [rebuildKey_eq_combine h.index_ne_zero hthreshold
    (hle.trans Sharing.indexCount_le_length)]
  exact Sharing.exists_combine_eq_ok h hthreshold hle

/-- With keys for enough places of a valid object, the rebuilding of its key is refused only
for an encapsulation that is no encoding. -/
theorem decode2?_eq_none_of_recoverKey (hvalid : object.Valid)
    (hplaces : (selected.map Opening.service).Sublist object.services)
    (hlength : object.threshold.toNat ≤ selected.length)
    (h : recoverKey object selected = .error (.refused error)) :
    suite.decode2? object.encapsulation = none ∧ error = .invalidG2Point := by
  cases hdecode : suite.decode2? object.encapsulation with
  | none =>
      rw [recoverKey, Ibe.decode2, hdecode] at h
      cases h
      exact ⟨rfl, rfl⟩
  | some encapsulation =>
      exfalso
      rw [recoverKey, lift_eq_ok_iff.2 (Ibe.decode2_eq_ok_iff.2 hdecode), Outcome.ok_bind] at h
      cases hshares : selected.mapM fun opening =>
          Ibe.decrypt suite encapsulation opening.key opening.masked opening.service.index with
      | error failure =>
          rw [hshares, Outcome.error_bind] at h
          cases h
          obtain ⟨opening, -, hrefused⟩ := Outcome.exists_of_mapM_eq_error hshares
          exact Ibe.decrypt_ne_refused _ _ _ _ error hrefused
      | ok shares =>
          obtain ⟨hconsistent, hcount⟩ := consistent_of_decrypt hvalid hplaces hshares
          obtain ⟨key, hkey⟩ := exists_rebuildKey_eq_ok hconsistent hvalid.threshold_ne_zero
            (hlength.trans hcount.ge)
          rw [hshares, Outcome.ok_bind, hkey] at h
          cases h

/-- What opening can refuse when there are keys for enough places of a valid object. -/
theorem refusal_of_openWith (hvalid : object.Valid)
    (hplaces : (selected.map Opening.service).Sublist object.services)
    (hlength : object.threshold.toNat ≤ selected.length)
    (h : openWith object selected = .error (.refused error)) :
    (∃ tag bytes, object.ciphertext = .unknown tag bytes ∧
      error = .unsupportedScheme .ciphertext tag.toNat) ∨
    (suite.decode2? object.encapsulation = none ∧ error = .invalidG2Point) ∨
    (∃ nonce blob mac, object.ciphertext = .aes256Gcm nonce blob mac ∧
      error = .decryptionFailed) := by
  have hrecover : ∀ failure, recoverKey object selected = .error failure →
      failure = .refused error →
        suite.decode2? object.encapsulation = none ∧ error = .invalidG2Point := by
    rintro failure hfailure rfl
    exact decode2?_eq_none_of_recoverKey hvalid hplaces hlength hfailure
  cases hciphertext : object.ciphertext with
  | unknown tag bytes =>
      simp only [openWith, hciphertext] at h
      cases h
      exact .inl ⟨tag, bytes, rfl, rfl⟩
  | plain =>
      simp only [openWith, hciphertext] at h
      cases hkey : recoverKey object selected with
      | error failure =>
          rw [hkey, Outcome.error_bind] at h
          exact .inr (.inl (hrecover failure hkey (Except.error.inj h)))
      | ok key =>
          rw [hkey] at h
          cases h
  | aes256Gcm nonce blob mac =>
      simp only [openWith, hciphertext] at h
      cases hkey : recoverKey object selected with
      | error failure =>
          rw [hkey, Outcome.error_bind] at h
          exact .inr (.inl (hrecover failure hkey (Except.error.inj h)))
      | ok key =>
          rw [hkey, Outcome.ok_bind, decryptData] at h
          split at h
          · cases h
          · cases h
            exact .inr (.inr ⟨nonce, blob, mac, rfl, rfl⟩)

/-- Keys for which there are masks open a valid object that holds nothing but its key, if they
are for enough of its places. -/
theorem exists_openWith_eq_ok_of_plain (hvalid : object.Valid)
    (hciphertext : object.ciphertext = .plain)
    (hplaces : (selected.map Opening.service).Sublist object.services)
    (hlength : object.threshold.toNat ≤ selected.length)
    (hdecode : suite.decode2? object.encapsulation ≠ none)
    (hmasks : MasksDefined object (selected.map Opening.key)) :
    ∃ contents, openWith object selected = .ok contents := by
  rcases settled_openWith_iff.2 fun _ => hmasks with hopened | ⟨error, hrefused⟩
  · exact hopened
  · rcases refusal_of_openWith hvalid hplaces hlength hrefused with
      ⟨_, _, hunknown, -⟩ | ⟨hnone, -⟩ | ⟨_, _, _, haes, -⟩
    · rw [hciphertext] at hunknown
      cases hunknown
    · exact absurd hnone hdecode
    · rw [hciphertext] at haes
      cases haes

/-! ## Counting keys -/

variable {keys : KeyRing suite}

theorem decrypt_eq_error_of_few (hvalid : object.Valid)
    (hfew : (available object keys).length < object.threshold.toNat) :
    decrypt object keys = .error (.refused (.insufficientKeys object.threshold.toNat
      (available object keys).length)) := by
  have hvalidate : (liftM object.validate : Except Failure Unit) = .ok () :=
    lift_validate_eq_ok_iff.2 hvalid
  rw [decrypt, hvalidate, Outcome.ok_bind, if_pos hfew]
  rfl

/-- Opening a valid object is refused for want of keys exactly if the ring has keys for fewer
of its services than the threshold says. -/
theorem decrypt_eq_insufficientKeys_iff (hvalid : object.Valid) {required got : Nat} :
    decrypt object keys = .error (.refused (.insufficientKeys required got)) ↔
      required = object.threshold.toNat ∧
        got = (object.services.map Service.server).countP keys.contains ∧ got < required := by
  rw [← length_available hvalid]
  by_cases hfew : (available object keys).length < object.threshold.toNat
  · rw [decrypt_eq_error_of_few hvalid hfew]
    constructor
    · intro h
      cases h
      exact ⟨rfl, rfl, hfew⟩
    · rintro ⟨rfl, rfl, -⟩
      rfl
  · refine iff_of_false (fun h => ?_) (by rintro ⟨rfl, rfl, hlt⟩; exact hfew hlt)
    have henough := Nat.not_lt.1 hfew
    rw [decrypt_eq_openWith hvalid henough] at h
    rcases refusal_of_openWith hvalid (map_service_take_available_sublist hvalid keys)
      (List.length_take_of_le henough).ge h with ⟨_, _, -, heq⟩ | ⟨-, heq⟩ | ⟨_, _, _, -, heq⟩
    · cases heq
    · cases heq
    · cases heq

theorem exists_decrypt_eq_ok_of_plain (hvalid : object.Valid)
    (hciphertext : object.ciphertext = .plain)
    (henough : object.threshold.toNat ≤ (available object keys).length)
    (hdecode : suite.decode2? object.encapsulation ≠ none)
    (hmasks : MasksDefined object (usedKeys object keys)) :
    ∃ contents, decrypt object keys = .ok contents := by
  rw [decrypt_eq_openWith hvalid henough]
  exact exists_openWith_eq_ok_of_plain hvalid hciphertext
    (map_service_take_available_sublist hvalid keys) (List.length_take_of_le henough).ge hdecode
    hmasks

/-- The servers of an object from which a ring has a key. -/
def serversHeld (object : SealedObject) (keys : KeyRing suite) : Finset ObjectId :=
  (object.services.map Service.server).toFinset.filter fun id => keys.contains id

/-- If no server is listed twice, as many services as servers have a key. -/
theorem countP_contains_eq_card (hnodup : (object.services.map Service.server).Nodup)
    (keys : KeyRing suite) :
    (object.services.map Service.server).countP keys.contains = (serversHeld object keys).card := by
  rw [serversHeld, ← List.toFinset_filter, List.toFinset_card_of_nodup (hnodup.filter _),
    List.countP_eq_length_filter]

theorem decryptBytes_eq_decrypt {bytes : List UInt8}
    (hobject : SealedObject.decode bytes = .ok object) (keys : KeyRing suite) :
    decryptBytes bytes keys = decrypt object keys := by
  rw [decryptBytes, lift_eq_ok_iff.2 hobject, Outcome.ok_bind]

/-- Opening what has been decoded is refused for want of keys exactly if the ring has keys for
fewer services than the threshold says, where each service is counted.  So an object that
lists no server twice is never opened with keys of fewer servers. -/
theorem decryptBytes_of_few_servers {bytes : List UInt8}
    (hobject : SealedObject.decode bytes = .ok object) (keys : KeyRing suite) :
    (∀ required got,
      decryptBytes bytes keys = .error (.refused (.insufficientKeys required got)) ↔
        required = object.threshold.toNat ∧
          got = (object.services.map Service.server).countP keys.contains ∧ got < required) ∧
    ((object.services.map Service.server).Nodup →
      (serversHeld object keys).card < object.threshold.toNat →
        decryptBytes bytes keys = .error (.refused (.insufficientKeys object.threshold.toNat
          (serversHeld object keys).card))) := by
  have hvalid : object.Valid := (SealedObject.decode_eq_ok_iff.1 hobject).2.1
  rw [decryptBytes_eq_decrypt hobject]
  refine ⟨fun required got => decrypt_eq_insufficientKeys_iff hvalid, fun hnodup hfew => ?_⟩
  rw [decrypt_eq_insufficientKeys_iff hvalid, countP_contains_eq_card hnodup]
  exact ⟨rfl, rfl, hfew⟩

open PairingSuite in
/-- The key of one of three servers, two of which are needed, and a key of a server that the
object does not list. -/
theorem decryptBytes_of_few_servers_one_of_three :
    let object : SealedObject := {
      version := 0
      packageId := idOf 7
      innerId := [1, 2]
      services := [⟨idOf 1, 1⟩, ⟨idOf 2, 2⟩, ⟨idOf 3, 3⟩]
      threshold := 2
      encapsulation := Bls.suite.encode2 Bls.suite.generator
      shares := [Vector.replicate 32 0, Vector.replicate 32 1, Vector.replicate 32 2]
      ciphertext := .plain }
    let key := Ibe.extract Bls.suite ⟨1, by decide⟩ object.identity
    let keys : KeyRing Bls.suite := Table.ofList [(idOf 2, key), (idOf 9, key)]
    SealedObject.decode object.encode = .ok object ∧
      (object.services.map Service.server).Nodup ∧ (serversHeld object keys).card = 1 ∧
        decryptBytes object.encode keys = .error (.refused (.insufficientKeys 2 1)) := by
  intro object key keys
  have hvalidate : object.validate = .ok () := rfl
  have hfits : object.Fits := ⟨by decide, fun _ _ _ h => nomatch h⟩
  have hdecode : SealedObject.decode object.encode = .ok object :=
    SealedObject.decode_encode (SealedObject.validate_eq_ok_iff.1 hvalidate) hfits
  have hnodup : (object.services.map Service.server).Nodup := by decide
  have hheld : (serversHeld object keys).card = 1 := rfl
  have hfew : (serversHeld object keys).card < object.threshold.toNat := by
    rw [hheld]
    decide
  have hopen := (decryptBytes_of_few_servers hdecode keys).2 hnodup hfew
  rw [hheld] at hopen
  exact ⟨hdecode, hnodup, hheld, hopen⟩

open PairingSuite in
/-- An object that lists one server twice, with a threshold of two, is not refused for want of
keys although there is no key but that of this server.  With known logarithms, where its masks
can be computed, it is opened. -/
theorem decryptBytes_of_server_listed_twice :
    let identity := fullIdentity (idOf 7) [1, 2]
    let object (encapsulation : Bytes 96) : SealedObject := {
      version := 0
      packageId := idOf 7
      innerId := [1, 2]
      services := [⟨idOf 1, 1⟩, ⟨idOf 1, 2⟩]
      threshold := 2
      encapsulation
      shares := [Vector.replicate 32 0, Vector.replicate 32 1]
      ciphertext := .plain }
    let listed := object (Bls.suite.encode2 Bls.suite.generator)
    let ring : KeyRing Bls.suite :=
      Table.ofList [(idOf 1, Ibe.extract Bls.suite ⟨1, by decide⟩ identity)]
    let listedLog := object (discreteLog.encode2 discreteLog.generator)
    let ringLog : KeyRing discreteLog :=
      Table.ofList [(idOf 1, Ibe.extract discreteLog ⟨1, by decide⟩ identity)]
    SealedObject.decode listed.encode = .ok listed ∧
      (serversHeld listed ring).card < listed.threshold.toNat ∧
      (∀ required got,
        decryptBytes listed.encode ring ≠ .error (.refused (.insufficientKeys required got))) ∧
      ∃ contents, decryptBytes listedLog.encode ringLog = .ok contents := by
  intro identity object listed ring listedLog ringLog
  have hvalid (encapsulation : Bytes 96) : (object encapsulation).Valid :=
    SealedObject.validate_eq_ok_iff.1 rfl
  have hdecode (encapsulation : Bytes 96) :
      SealedObject.decode (object encapsulation).encode = .ok (object encapsulation) := by
    have hinnerId : ([1, 2] : List UInt8).length ≤ UInt32.size - 1 := by decide
    exact SealedObject.decode_encode (hvalid encapsulation) ⟨hinnerId, fun _ _ _ h => nomatch h⟩
  refine ⟨hdecode _, ?_, fun required got hopen => ?_, ?_⟩
  · have hheld : (serversHeld listed ring).card = 1 := rfl
    rw [hheld]
    decide
  · have hcount : (listed.services.map Service.server).countP ring.contains = 2 := rfl
    rw [decryptBytes_eq_decrypt (hdecode _), decrypt_eq_insufficientKeys_iff (hvalid _)] at hopen
    obtain ⟨rfl, rfl, hlt⟩ := hopen
    rw [hcount] at hlt
    exact absurd hlt (by decide)
  · have hused : usedKeys listedLog ringLog =
        List.replicate 2 (Ibe.extract discreteLog ⟨1, by decide⟩ identity) := rfl
    have hvalue : discreteLog.compress? (discreteLog.pairing
        (Ibe.extract discreteLog ⟨1, by decide⟩ identity) discreteLog.generator) ≠ none := by
      decide +kernel
    have hencapsulation := discreteLog_lawful.decode2_encode2 discreteLog.generator
    rw [decryptBytes_eq_decrypt (hdecode _)]
    refine exists_decrypt_eq_ok_of_plain (hvalid _) rfl (by decide) ?_ fun y hy key hkey => ?_
    · rw [hencapsulation]
      simp
    · obtain rfl := Option.some.inj (hencapsulation.symm.trans hy)
      rw [hused, List.mem_replicate] at hkey
      rw [hkey.2]
      exact hvalue

end Sealing
end Quorum
