import Quorum.Proofs.SealedObject.Codec
import Quorum.Proofs.Wire.Faults

/-!
# What is said about faulty encodings

Decoding tells a newer format from a corrupt one.  It reports a version that is not the
current one, and a masking of another kind after parts that are all there; whatever else is
wrong, in the parts or between them, is a malformed object.

The version is looked at before anything else, and the kind of masking before the invariants
of the object and before what follows it.
-/

namespace Quorum

open Wire

theorem Service.onlyMalformed_read : OnlyMalformed Service.read :=
  .bind (onlyMalformed_fixed _ _) fun _ => .bind (onlyMalformed_byte _) fun _ => .pure _

theorem Ciphertext.onlyMalformed_readBody (tag : UInt32) : OnlyMalformed (readBody tag) := by
  unfold readBody
  split
  · exact .bind (onlyMalformed_fixed _ _) fun _ => .bind (onlyMalformed_sized _) fun _ =>
      .bind (onlyMalformed_fixed _ _) fun _ => .pure _
  · split
    · exact .pure _
    · exact .bind onlyMalformed_remainder fun _ => .pure _

namespace SealedObject

variable {bytes : List UInt8} {error : SealingError}

/-- The encoding of the parts that come before the kind of masking. -/
def encodeFront (packageId : ObjectId) (innerId : List UInt8) (services : List Service)
    (threshold : UInt8) : List UInt8 :=
  currentVersion :: packageId.bytes.toList ++ withSize innerId ++
    size services.length ++ services.flatMap Service.encode ++ [threshold]

/-- The input begins with the parts up to the threshold, whatever their values are, and with
a number for another kind of masking than the one that is known. -/
def MaskedOtherwise (bytes : List UInt8) (kind : UInt32) : Prop :=
  kind ≠ 0 ∧ ∃ packageId innerId services threshold rest,
    innerId.length < UInt32.size ∧ services.length < UInt32.size ∧
      bytes = encodeFront packageId innerId services threshold ++ uleb128 kind.toNat ++ rest

/-- Apart from malformed input, reading reports another version or another masking. -/
theorem run_read_eq_error_iff (herror : ∀ malformation, error ≠ .malformedObject malformation) :
    read.run bytes = .error error ↔
      (∃ version rest, bytes = version :: rest ∧ version ≠ currentVersion ∧
        .unsupportedVersion version.toNat = error) ∨
      ∃ kind, MaskedOtherwise bytes kind ∧ .unsupportedScheme .ibe kind.toNat = error := by
  simp only [read, run_check_eq_error_iff, (onlyMalformed_byte _).run_bind_eq_error_iff herror,
    (onlyMalformed_fixed _ _).run_bind_eq_error_iff herror,
    (onlyMalformed_sized _).run_bind_eq_error_iff herror,
    (onlyMalformed_count _ _).run_bind_eq_error_iff herror,
    (onlyMalformed_elements Service.onlyMalformed_read _).run_bind_eq_error_iff herror,
    (onlyMalformed_elements (onlyMalformed_fixed _ _) _).run_bind_eq_error_iff herror,
    (onlyMalformed_readUleb128 _).run_bind_eq_error_iff herror,
    (Ciphertext.onlyMalformed_readBody _).run_bind_eq_error_iff herror,
    onlyMalformed_finish.run_bind_eq_error_iff herror, run_pure_ne_error, and_false,
    exists_false, or_false, not_not, run_byte_eq_ok_iff, run_fixed_eq_ok_iff,
    run_sized_eq_ok_iff, run_count_eq_ok_iff, run_readUleb128_eq_ok_iff,
    run_elements_eq_ok_iff fun _ _ _ => Service.run_read_eq_ok_iff]
  constructor
  · rintro ⟨version, rest, rfl, ⟨hversion, rfl⟩ | ⟨rfl, h⟩⟩
    · exact .inl ⟨version, rest, rfl, hversion, rfl⟩
    · obtain ⟨packageId, _, rfl, innerId, _, ⟨hinnerId, rfl⟩, _, _, ⟨hservices, -, rfl⟩,
        services, _, ⟨rfl, rfl⟩, threshold, _, rfl, kind, rest, rfl, hkind, rfl⟩ := h
      refine .inr ⟨kind, ⟨hkind, ⟨packageId⟩, innerId, services, threshold, rest, hinnerId,
        hservices, ?_⟩, rfl⟩
      simp [encodeFront, size_eq hservices]
  · rintro (⟨version, rest, rfl, hversion, rfl⟩ | ⟨kind, ⟨hkind, packageId, innerId, services,
      threshold, rest, hinnerId, hservices, rfl⟩, rfl⟩)
    · exact ⟨version, rest, rfl, .inl ⟨hversion, rfl⟩⟩
    · simp only [encodeFront, size_eq hservices, List.cons_append, List.append_assoc]
      refine ⟨_, _, rfl, .inr ⟨rfl, _, _, rfl, _, _, ⟨hinnerId, rfl⟩, _, _,
        ⟨hservices, ?_, rfl⟩, _, _, ⟨rfl, rfl⟩, _, _, rfl, kind, _, rfl, hkind, rfl⟩⟩
      exact length_mul_le_flatMap_append Service.encode_length _ _

/-- An object that has been read has the current version, so validation adds nothing but
malformed objects. -/
theorem decode_eq_error_iff (herror : ∀ malformation, error ≠ .malformedObject malformation) :
    decode bytes = .error error ↔ read.run bytes = .error error := by
  rw [decode, Outcome.bind_eq_error_iff]
  refine or_iff_left ?_
  rintro ⟨⟨object, rest⟩, hread, hvalidate⟩
  have hversion := (run_read_eq_ok_iff.1 hread).1.version_eq
  rcases Outcome.bind_eq_error_iff.1 hvalidate with h | ⟨_, -, h⟩
  · rcases validate_eq_error h with ⟨hne, -⟩ | ⟨-, malformation, rfl⟩
    · exact hne hversion
    · exact herror malformation rfl
  · cases h

/-- Decoding ends with an object or with an error of one of three kinds.  It reports a version
exactly if the first byte is another one than the current, a kind of masking exactly if the
parts before it can be read and it is not the known one, and everything else as malformed. -/
theorem decode_classification (bytes : List UInt8) :
    (∀ version, decode bytes = .error (.unsupportedVersion version) ↔
      ∃ first rest, bytes = first :: rest ∧ first ≠ currentVersion ∧ version = first.toNat) ∧
    (∀ place tag, decode bytes = .error (.unsupportedScheme place tag) ↔
      place = .ibe ∧ ∃ kind, MaskedOtherwise bytes kind ∧ tag = kind.toNat) ∧
    ((∃ object, decode bytes = .ok object) ∨
      (∃ version, decode bytes = .error (.unsupportedVersion version)) ∨
      (∃ tag, decode bytes = .error (.unsupportedScheme .ibe tag)) ∨
      ∃ malformation, decode bytes = .error (.malformedObject malformation)) := by
  refine ⟨fun version => ?_, fun place tag => ?_, ?_⟩
  · have herror : ∀ malformation,
        SealingError.unsupportedVersion version ≠ .malformedObject malformation := nofun
    rw [decode_eq_error_iff herror, run_read_eq_error_iff herror]
    constructor
    · rintro (⟨first, rest, rfl, hne, heq⟩ | ⟨_, -, heq⟩)
      · cases heq
        exact ⟨first, rest, rfl, hne, rfl⟩
      · cases heq
    · rintro ⟨first, rest, rfl, hne, rfl⟩
      exact .inl ⟨first, rest, rfl, hne, rfl⟩
  · have herror : ∀ malformation,
        SealingError.unsupportedScheme place tag ≠ .malformedObject malformation := nofun
    rw [decode_eq_error_iff herror, run_read_eq_error_iff herror]
    constructor
    · rintro (⟨_, _, -, -, heq⟩ | ⟨kind, hkind, heq⟩)
      · cases heq
      · cases heq
        exact ⟨rfl, kind, hkind, rfl⟩
    · rintro ⟨rfl, kind, hkind, rfl⟩
      exact .inr ⟨kind, hkind, rfl⟩
  · cases hdecode : decode bytes with
    | ok object => exact .inl ⟨object, rfl⟩
    | error error =>
        right
        by_cases hmalformed : ∃ malformation, error = .malformedObject malformation
        · obtain ⟨malformation, rfl⟩ := hmalformed
          exact .inr (.inr ⟨malformation, rfl⟩)
        · have herror : ∀ malformation, error ≠ .malformedObject malformation :=
            not_exists.1 hmalformed
          rw [decode_eq_error_iff herror, run_read_eq_error_iff herror] at hdecode
          rcases hdecode with ⟨version, _, -, -, rfl⟩ | ⟨kind, -, rfl⟩
          · exact .inl ⟨_, rfl⟩
          · exact .inr (.inl ⟨_, rfl⟩)

end SealedObject
end Quorum
