import Quorum.Proofs.DiscreteLog
import Quorum.Proofs.Sealing.Sufficiency

/-!
# Opening with all keys and with some of them

With a key for every service all shares are used, with a ring only the first ones for which
it has keys, as many as the threshold says.  Where the shares that the keys uncover lie on
polynomials of degrees below the threshold, any of them that are enough rebuild the same key,
and from there on both ways of opening are the same.

It does not matter who made the object, at which indices its shares are, and of what kind its
payload is.  Nor does the key have to fit the payload: what cannot be decrypted is refused
both ways.
-/

namespace Quorum
namespace Sealing

open Polynomial

variable {suite : PairingSuite} {object : SealedObject} {encapsulation : suite.G2}
  {keys : List suite.G1} {selected : List (Opening suite)}

/-- A ring that has no other keys for the services uses places that are among all of them. -/
theorem available_subset_openings (hvalid : object.Valid)
    (hlength : keys.length = object.services.length) {ring : KeyRing suite}
    (hring : ∀ opening ∈ openings object keys, ∀ key,
      ring.get? opening.service.server = some key → key = opening.key) :
    available object ring ⊆ openings object keys := by
  intro opening hopening
  obtain ⟨hplace, hkey⟩ := mem_available_iff.1 hopening
  have hplaces := hvalid.length_zip.trans hlength.symm
  rw [← List.map_fst_zip hplaces.le] at hplace
  obtain ⟨⟨_, key⟩, hmem, rfl⟩ := List.mem_map.1 hplace
  have hlisted : (⟨opening.service, opening.masked, key⟩ : Opening suite) ∈
      openings object keys := mem_openings_iff.2 hmem
  obtain rfl := hring _ hlisted _ hkey
  exact hlisted

theorem openWith_congr {others : List (Opening suite)}
    (h : recoverKey object selected = recoverKey object others) :
    openWith object selected = openWith object others := by
  unfold openWith
  rw [h]

/-- Where the keys for all services uncover shares on polynomials of degrees below the
threshold, opening with all of them ends as opening with a ring does that has enough of them,
whatever keys the ring has for others. -/
theorem decryptAll_eq_decrypt (hvalid : object.validate = .ok ())
    (hdecode : suite.decode2? object.encapsulation = some encapsulation)
    (hlength : keys.length = object.services.length) {shares : List Share}
    (hshares : (openings object keys).mapM (fun opening => Ibe.decrypt suite encapsulation
      opening.key opening.masked opening.service.index) = .ok shares)
    {p : Fin 32 → GF256[X]} (hdegree : ∀ j, (p j).degree < object.threshold.toNat)
    (heval : ∀ share ∈ shares, ∀ j : Fin 32, (p j).eval ⟨share.index⟩ = ⟨share.payload.get j⟩)
    {ring : KeyRing suite}
    (hring : ∀ opening ∈ openings object keys, ∀ key,
      ring.get? opening.service.server = some key → key = opening.key)
    (hquorum : object.threshold.toNat ≤
      (object.services.map Service.server).countP ring.contains) :
    decryptAll object keys = decrypt object ring := by
  replace hvalid : object.Valid := SealedObject.validate_eq_ok_iff.1 hvalid
  have huncovered : ∀ opening ∈ openings object keys, ∃ share, Ibe.decrypt suite encapsulation
      opening.key opening.masked opening.service.index = .ok share ∧
        ∀ j : Fin 32, (p j).eval ⟨share.index⟩ = ⟨share.payload.get j⟩ := by
    intro opening hopening
    obtain ⟨share, hshare, hunmasked⟩ :=
      Outcome.exists_result_of_mem (Outcome.mapM_eq_ok_iff.1 hshares) hopening
    exact ⟨share, hunmasked, heval share hshare⟩
  have hservices := map_service_openings hvalid hlength
  have hall : object.threshold.toNat ≤ (openings object keys).length := by
    rw [← List.length_map Opening.service, hservices]
    exact hvalid.threshold_le
  have henough : object.threshold.toNat ≤ (available object ring).length := by
    rwa [length_available hvalid]
  have hsubset := available_subset_openings hvalid hlength hring
  rw [decryptAll_eq_openWith hvalid hlength, decrypt_eq_openWith hvalid henough]
  apply openWith_congr
  -- Both selections have enough places, so both rebuild the values of the polynomials at zero.
  rw [recoverKey_eq_values hvalid hdecode hdegree (hservices ▸ .refl _) hall huncovered]
  rw [recoverKey_eq_values hvalid hdecode hdegree
    (map_service_take_available_sublist hvalid ring) (List.length_take_of_le henough).ge
    fun opening hopening => huncovered opening (hsubset (List.mem_of_mem_take hopening))]

/-! ## Shares at other places than sealing gives them -/

section Scattered

open PairingSuite

/-- Servers with the places of their shares; two shares are needed. -/
def scattered : List (UInt8 × UInt8) := [(2, 7), (3, 3), (5, 200)]

/-- The key that a server issues for the object below. -/
def scatteredKey (server : UInt8) : discreteLog.G1 :=
  Ibe.extract discreteLog (masterKeyOf (idOf server)) (fullIdentity (idOf 7) [1, 2])

/-- The polynomials of the bytes are all the same, of degree one. -/
def scatteredRows : List Key := [Vector.replicate 32 9]

/-- The share at a place. -/
def scatteredShare (place : UInt8) : Share :=
  Sharing.shareAt (Vector.replicate 32 40) scatteredRows place

/-- The object whose shares are hidden by the masks of the servers. -/
def scatteredObject (mask : UInt8 × UInt8 → Key) : SealedObject where
  version := 0
  packageId := idOf 7
  innerId := [1, 2]
  services := scattered.map fun place => ⟨idOf place.1, place.2⟩
  threshold := 2
  encapsulation := discreteLog.encode2 discreteLog.generator
  shares := scattered.map fun place => Bytes.xor (scatteredShare place.2).payload (mask place)
  ciphertext := .plain

/-- A ring without a key for the second service, and with one for a server that the object does
not list. -/
def scatteredRing : KeyRing discreteLog :=
  Table.ofList [(idOf 5, scatteredKey 5), (idOf 9, scatteredKey 3), (idOf 2, scatteredKey 2)]

theorem openings_scatteredObject (mask : UInt8 × UInt8 → Key) :
    openings (scatteredObject mask) (scattered.map fun place => scatteredKey place.1) =
      scattered.map fun place => ⟨⟨idOf place.1, place.2⟩,
        Bytes.xor (scatteredShare place.2).payload (mask place), scatteredKey place.1⟩ := rfl

/-- Each of the keys has a mask; what it is does not matter. -/
theorem exists_masks_scattered : ∃ mask : UInt8 × UInt8 → Key, ∀ place ∈ scattered,
    Ibe.mask discreteLog (discreteLog.pairing (scatteredKey place.1) discreteLog.generator) =
      .ok (mask place) := by
  have hvalue : ∀ place ∈ scattered, discreteLog.compress?
      (discreteLog.pairing (scatteredKey place.1) discreteLog.generator) ≠ none := by
    intro place hplace
    simp only [scattered, List.mem_cons, List.not_mem_nil, or_false] at hplace
    rcases hplace with rfl | rfl | rfl <;> decide +kernel
  choose! mask hmask using fun place hplace => Ibe.exists_mask_eq_ok (hvalue place hplace)
  exact ⟨mask, hmask⟩

/-- The keys uncover the shares. -/
theorem decrypt_openings_scatteredObject {mask : UInt8 × UInt8 → Key}
    (hmask : ∀ place ∈ scattered, Ibe.mask discreteLog
      (discreteLog.pairing (scatteredKey place.1) discreteLog.generator) = .ok (mask place)) :
    (openings (scatteredObject mask) (scattered.map fun place => scatteredKey place.1)).mapM
      (fun opening => Ibe.decrypt discreteLog discreteLog.generator opening.key opening.masked
        opening.service.index) = .ok (scattered.map fun place => scatteredShare place.2) := by
  rw [openings_scatteredObject, Outcome.mapM_eq_ok_iff, List.forall₂_map_left_iff,
    List.forall₂_map_right_iff, List.forall₂_same]
  intro place hplace
  rw [Ibe.decrypt, hmask place hplace, Outcome.ok_bind, Bytes.xor_xor_cancel]
  rfl

theorem get?_scatteredRing (id : ObjectId) : scatteredRing.get? id =
    if idOf 2 = id then some (scatteredKey 2)
    else if idOf 9 = id then some (scatteredKey 3)
    else if idOf 5 = id then some (scatteredKey 5) else none := by
  simp only [scatteredRing, Table.ofList, List.foldl, Table.get?_insert]
  rfl

theorem scatteredKey_of_get? : ∀ place ∈ scattered, ∀ key,
    scatteredRing.get? (idOf place.1) = some key → key = scatteredKey place.1 := by
  intro place hplace key hkey
  simp only [scattered, List.mem_cons, List.not_mem_nil, or_false] at hplace
  rcases hplace with rfl | rfl | rfl
  · simpa [get?_scatteredRing, idOf_inj, eq_comm] using hkey
  · simp [get?_scatteredRing, idOf_inj] at hkey
  · simpa [get?_scatteredRing, idOf_inj, eq_comm] using hkey

/-- Opening with the keys of all three servers and with the ring are the same. -/
theorem decryptAll_eq_decrypt_two_of_three : ∃ mask : UInt8 × UInt8 → Key,
    decryptAll (scatteredObject mask) (scattered.map fun place => scatteredKey place.1) =
      decrypt (scatteredObject mask) scatteredRing := by
  obtain ⟨mask, hmask⟩ := exists_masks_scattered
  have hvalid : (scatteredObject mask).validate = .ok () := rfl
  have hdecode : discreteLog.decode2? (scatteredObject mask).encapsulation =
      some discreteLog.generator := discreteLog_lawful.decode2_encode2 discreteLog.generator
  have hlength : (scattered.map fun place => scatteredKey place.1).length =
      (scatteredObject mask).services.length := rfl
  have hdegree (j : Fin 32) : (Sharing.bytePolynomial (Vector.replicate 32 40) scatteredRows
      j).degree < (scatteredObject mask).threshold.toNat :=
    Sharing.degree_bytePolynomial_lt _ scatteredRows j
  have heval : ∀ share ∈ scattered.map fun place => scatteredShare place.2, ∀ j : Fin 32,
      (Sharing.bytePolynomial (Vector.replicate 32 40) scatteredRows j).eval ⟨share.index⟩ =
        ⟨share.payload.get j⟩ := by
    rw [List.forall_mem_map]
    exact fun place _ j => Sharing.eval_bytePolynomial _ scatteredRows place.2 j
  have hring : ∀ opening ∈ openings (scatteredObject mask)
      (scattered.map fun place => scatteredKey place.1), ∀ key,
        scatteredRing.get? opening.service.server = some key → key = opening.key := by
    rw [openings_scatteredObject, List.forall_mem_map]
    exact scatteredKey_of_get?
  have hquorum : (scatteredObject mask).threshold.toNat ≤
      ((scatteredObject mask).services.map Service.server).countP scatteredRing.contains := by
    simp [scatteredObject, scattered, Table.contains, get?_scatteredRing, idOf_inj]
  exact ⟨mask, decryptAll_eq_decrypt hvalid hdecode hlength
    (decrypt_openings_scatteredObject hmask) hdegree heval hring hquorum⟩

end Scattered

end Sealing
end Quorum
