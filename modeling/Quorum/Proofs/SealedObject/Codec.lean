import Quorum.Proofs.SealedObject.Validation
import Quorum.Proofs.Wire.Sequence
import Quorum.SealedObject.Codec

/-!
# Encodings of sealed objects

`SealedObject.read` accepts exactly the encodings of the objects that are
representable, that is, whose lengths fit into 32 bits and whose parts can be told
from their tags.  Validation implies the latter, so for a valid object only two
lengths are left to consider: those of the inner identifier and of the encrypted
data.

An object with a longer part can be encoded, but the length is then clipped and
decoding does not give the object back.
-/

namespace Quorum

open Wire

theorem Service.run_read_eq_ok_iff {service : Service} {input rest : List UInt8} :
    Service.read.run input = .ok (service, rest) ↔ input = service.encode ++ rest := by
  simp only [Service.read, run_bind_eq_ok_iff, run_fixed_eq_ok_iff, run_byte_eq_ok_iff,
    run_pure_eq_ok_iff]
  constructor
  · rintro ⟨server, middle, rfl, index, after, rfl, rfl, rfl⟩
    simp [Service.encode]
  · rintro rfl
    exact ⟨service.server.bytes, service.index :: rest, by simp [Service.encode],
      service.index, rest, rfl, rfl, rfl⟩

theorem Service.encode_length (service : Service) : service.encode.length = 33 := by
  simp [Service.encode]

namespace Ciphertext

/-- The payload can be told from its tag and its encoding. -/
def Representable : Ciphertext → Prop
  | aes256Gcm _ blob _ => blob.length < UInt32.size
  | plain => True
  | unknown tag _ => ¬ (tag = 0 ∨ tag = 1)

/-- A payload that is the last part of the input. -/
theorem run_readBody_eq_ok_iff {tag : UInt32} {ciphertext : Ciphertext} {input : List UInt8} :
    (readBody tag).run input = .ok (ciphertext, []) ↔
      ciphertext.tag = tag ∧ ciphertext.Representable ∧ input = ciphertext.encodeBody := by
  unfold readBody
  by_cases hzero : tag = 0
  · subst hzero
    simp only [if_true, run_bind_eq_ok_iff, run_fixed_eq_ok_iff, run_sized_eq_ok_iff,
      run_pure_eq_ok_iff]
    constructor
    · rintro ⟨nonce, middle, rfl, blob, after, ⟨hblob, rfl⟩, mac, rest, rfl, rfl, rfl⟩
      exact ⟨rfl, hblob, by simp [encodeBody]⟩
    · rintro ⟨htag, hrepresentable, rfl⟩
      cases ciphertext with
      | aes256Gcm nonce blob mac =>
          exact ⟨nonce, withSize blob ++ mac.toList, by simp [encodeBody], blob, mac.toList,
            ⟨hrepresentable, rfl⟩, mac, [], by simp, rfl, rfl⟩
      | plain => exact absurd htag (by decide)
      | unknown tag bytes => exact absurd (Or.inl htag) hrepresentable
  · rw [if_neg hzero]
    by_cases hone : tag = 1
    · subst hone
      rw [if_pos rfl, run_pure_eq_ok_iff]
      constructor
      · rintro ⟨rfl, rfl⟩
        exact ⟨rfl, trivial, rfl⟩
      · rintro ⟨htag, hrepresentable, rfl⟩
        cases ciphertext with
        | aes256Gcm nonce blob mac => exact absurd htag (show ¬ (0 : UInt32) = 1 by decide)
        | plain => exact ⟨rfl, rfl⟩
        | unknown tag bytes => exact absurd (Or.inr htag) hrepresentable
    · rw [if_neg hone]
      simp only [run_bind_eq_ok_iff, run_remainder_eq_ok_iff, run_pure_eq_ok_iff]
      constructor
      · rintro ⟨bytes, rest, ⟨rfl, rfl⟩, rfl, -⟩
        exact ⟨rfl, not_or.2 ⟨hzero, hone⟩, rfl⟩
      · rintro ⟨rfl, -, rfl⟩
        cases ciphertext with
        | aes256Gcm nonce blob mac => exact absurd rfl hzero
        | plain => exact absurd rfl hone
        | unknown tag bytes => exact ⟨bytes, [], ⟨rfl, rfl⟩, rfl, rfl⟩

end Ciphertext

namespace SealedObject

/-- The object can be told from its encoding, whether it is valid or not. -/
structure Representable (object : SealedObject) : Prop where
  version_eq : object.version = currentVersion
  innerId_lt : object.innerId.length < UInt32.size
  services_lt : object.services.length < UInt32.size
  shares_lt : object.shares.length < UInt32.size
  ciphertext : object.ciphertext.Representable

/-- Exactly the encodings of representable objects are read, and nothing is
left. -/
theorem run_read_eq_ok_iff {object : SealedObject} {input rest : List UInt8} :
    read.run input = .ok (object, rest) ↔
      object.Representable ∧ input = object.encode ∧ rest = [] := by
  simp only [read, run_bind_eq_ok_iff, run_check_eq_ok_iff, run_byte_eq_ok_iff,
    run_fixed_eq_ok_iff, run_sized_eq_ok_iff, run_count_eq_ok_iff, run_readUleb128_eq_ok_iff,
    run_finish_eq_ok_iff, run_pure_eq_ok_iff, not_not,
    run_elements_eq_ok_iff fun _ _ _ => Service.run_read_eq_ok_iff,
    run_elements_eq_ok_iff fun _ _ _ => run_fixed_eq_ok_iff]
  constructor
  · rintro ⟨version, _, rfl, hversion, packageId, _, rfl, innerId, _, ⟨hinnerId, rfl⟩,
      _, _, ⟨hservices, -, rfl⟩, services, _, ⟨rfl, rfl⟩, threshold, _, rfl, scheme, _, rfl, rfl,
      encapsulation, _, rfl, _, _, ⟨hshares, -, rfl⟩, shares, _, ⟨rfl, rfl⟩, tag, _, rfl,
      ciphertext, body, hbody, _, _, ⟨rfl, rfl⟩, rfl, rfl⟩
    obtain ⟨rfl, hciphertext, rfl⟩ := Ciphertext.run_readBody_eq_ok_iff.1 hbody
    refine ⟨⟨hversion, hinnerId, hservices, hshares, hciphertext⟩, ?_, rfl⟩
    simp [encode, size_eq hservices, size_eq hshares]
  · rintro ⟨h, rfl, rfl⟩
    -- Every part of the input is found by comparing it with the encoding; what is left to
    -- show is that the rest has room for the services and for the shares.
    have hbody := Ciphertext.run_readBody_eq_ok_iff.2 ⟨rfl, h.ciphertext, rfl⟩
    simp only [encode, size_eq h.services_lt, size_eq h.shares_lt, List.cons_append,
      List.append_assoc]
    refine ⟨_, _, rfl, h.version_eq, _, _, rfl, _, _, ⟨h.innerId_lt, rfl⟩,
      _, _, ⟨h.services_lt, ?_, rfl⟩, _, _, ⟨rfl, rfl⟩, _, _, rfl, 0, _, rfl, rfl,
      _, _, rfl, _, _, ⟨h.shares_lt, ?_, rfl⟩, _, _, ⟨rfl, rfl⟩, _, _, rfl,
      _, _, hbody, (), [], ⟨rfl, rfl⟩, rfl, rfl⟩
    · exact length_mul_le_flatMap_append Service.encode_length _ _
    · exact length_mul_le_flatMap_append (fun _ => Vector.length_toList) _ _

/-- What decoding accepts are the encodings of representable and valid objects. -/
theorem decode_eq_ok_iff {object : SealedObject} {bytes : List UInt8} :
    decode bytes = .ok object ↔
      object.Representable ∧ object.Valid ∧ bytes = object.encode := by
  simp only [decode, Outcome.bind_eq_ok_iff, Prod.exists, run_read_eq_ok_iff,
    Outcome.pure_eq_ok, Except.ok.injEq]
  constructor
  · rintro ⟨read, _, ⟨hread, rfl, rfl⟩, _, hvalid, rfl⟩
    exact ⟨hread, validate_eq_ok_iff.1 hvalid, rfl⟩
  · rintro ⟨hread, hvalid, rfl⟩
    exact ⟨object, [], ⟨hread, rfl, rfl⟩, (), validate_eq_ok_iff.2 hvalid, rfl⟩

/-- The parts of any length are short enough for their lengths to be written. -/
structure Fits (object : SealedObject) : Prop where
  innerId_le : object.innerId.length ≤ UInt32.size - 1
  blob_le : ∀ nonce blob mac, object.ciphertext = .aes256Gcm nonce blob mac →
    blob.length ≤ UInt32.size - 1

theorem Valid.representable_iff {object : SealedObject} (h : object.Valid) :
    object.Representable ↔ object.Fits := by
  have hsize : maxServices < UInt32.size := by decide
  have hservices : object.services.length < UInt32.size := lt_of_le_of_lt h.services_le hsize
  have hciphertext : object.ciphertext.Representable ↔
      ∀ nonce blob mac, object.ciphertext = .aes256Gcm nonce blob mac →
        blob.length ≤ UInt32.size - 1 := by
    cases hkind : object.ciphertext with
    | aes256Gcm nonce blob mac =>
        simp only [Ciphertext.Representable, Ciphertext.aes256Gcm.injEq]
        constructor
        · rintro hblob _ _ _ ⟨rfl, rfl, rfl⟩
          exact Nat.le_sub_one_of_lt hblob
        · intro hblob
          have hle := hblob nonce blob mac ⟨rfl, rfl, rfl⟩
          omega
    | plain => exact iff_of_true trivial (by simp)
    | unknown tag bytes => exact iff_of_true (h.unknown_tag tag bytes hkind) (by simp)
  constructor
  · intro hrepresentable
    exact ⟨Nat.le_sub_one_of_lt hrepresentable.innerId_lt,
      hciphertext.1 hrepresentable.ciphertext⟩
  · rintro ⟨hinnerId, hblob⟩
    exact ⟨h.version_eq, by omega, hservices, h.shares_length ▸ hservices, hciphertext.2 hblob⟩

theorem decode_encode {object : SealedObject} (h : object.Valid) (hfits : object.Fits) :
    decode object.encode = .ok object :=
  decode_eq_ok_iff.2 ⟨h.representable_iff.2 hfits, h, rfl⟩

/-- Decoding undoes the encoding of a valid object exactly if its parts fit. -/
theorem decode_encode_eq_ok_iff {object : SealedObject} (hvalid : object.validate = .ok ()) :
    decode object.encode = .ok object ↔ object.Fits := by
  have h := validate_eq_ok_iff.1 hvalid
  constructor
  · intro hdecode
    exact h.representable_iff.1 (decode_eq_ok_iff.1 hdecode).1
  · exact decode_encode h

/-- An object with a payload of unknown kind, whose tag takes two digits. -/
theorem decode_encode_eq_ok_of_unknown :
    let object : SealedObject := {
      version := 0
      packageId := ⟨Vector.replicate 32 7⟩
      innerId := [1, 2, 3]
      services := [⟨⟨Vector.replicate 32 1⟩, 200⟩, ⟨⟨Vector.replicate 32 1⟩, 4⟩]
      threshold := 2
      encapsulation := Vector.replicate 96 0
      shares := [Vector.replicate 32 5, Vector.replicate 32 6]
      ciphertext := .unknown 300 [8, 9] }
    object.validate = .ok () ∧ decode object.encode = .ok object := by
  intro object
  have hvalid : object.validate = .ok () := rfl
  have hfits : object.Fits := ⟨by decide, by simp [object]⟩
  exact ⟨hvalid, (decode_encode_eq_ok_iff hvalid).2 hfits⟩

/-- The encoding is canonical.  A byte string is decoded to an object exactly if the
object is valid, its parts fit and the byte string is its encoding, so that encoding it
again gives back every byte, and no other byte string is decoded to it. -/
theorem encode_canonical {object : SealedObject} {bytes : List UInt8} :
    (decode bytes = .ok object ↔
      object.validate = .ok () ∧ object.Fits ∧ object.encode = bytes) ∧
      ∀ other, decode bytes = .ok object → decode other = .ok object → other = bytes := by
  have hdecode (input : List UInt8) : decode input = .ok object ↔
      object.validate = .ok () ∧ object.Fits ∧ object.encode = input := by
    rw [decode_eq_ok_iff]
    constructor
    · rintro ⟨hrepresentable, hvalid, rfl⟩
      exact ⟨validate_eq_ok_iff.2 hvalid, hvalid.representable_iff.1 hrepresentable, rfl⟩
    · rintro ⟨hvalidate, hfits, rfl⟩
      have hvalid := validate_eq_ok_iff.1 hvalidate
      exact ⟨hvalid.representable_iff.2 hfits, hvalid, rfl⟩
  refine ⟨hdecode bytes, fun other hbytes hother => ?_⟩
  obtain ⟨-, -, hencode⟩ := (hdecode bytes).1 hbytes
  obtain ⟨-, -, hencode'⟩ := (hdecode other).1 hother
  exact hencode'.symm.trans hencode

end SealedObject
end Quorum
