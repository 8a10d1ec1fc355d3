import Quorum.Proofs.SealedObject.Codec
import Quorum.Proofs.Wire.Prompt

/-!
# Where an encoding ends

Whoever reads the encoding of an object knows where it ends, if the payload is of a known
kind: no part of it is the encoding of another object, and neither are longer inputs that
begin with it.  Both are refused as malformed, the first since the input ends early,
the second with the number of bytes that are left over.

A payload of unknown kind extends to the end of the input whatever its length is, so none of
this holds of such an object.
-/

namespace Quorum

open Wire

theorem Service.prompt_read (input : List UInt8) : Prompt Service.read input :=
  .bind (prompt_fixed _ _ _) fun _ _ _ =>
    .bind (prompt_byte _ _) fun _ _ _ => .pure _ _

namespace Ciphertext

/-- A payload of a known kind says by itself where it ends. -/
theorem prompt_readBody {tag : UInt32} (htag : tag = 0 ∨ tag = 1) (input : List UInt8) :
    Prompt (readBody tag) input := by
  rcases htag with rfl | rfl
  · exact .bind (prompt_fixed _ _ _) fun _ _ _ =>
      .bind (prompt_sized _ _) fun _ _ _ =>
        .bind (prompt_fixed _ _ _) fun _ _ _ => .pure _ _
  · exact .pure _ _

theorem exists_eq_unknown_of_readBody {tag : UInt32} (htag : ¬ (tag = 0 ∨ tag = 1))
    {ciphertext : Ciphertext} {input rest : List UInt8}
    (h : (readBody tag).run input = .ok (ciphertext, rest)) :
    ∃ bytes, ciphertext = .unknown tag bytes := by
  obtain ⟨hzero, hone⟩ := not_or.1 htag
  rw [readBody, if_neg hzero, if_neg hone] at h
  obtain ⟨bytes, _, -, hresult⟩ := run_bind_eq_ok_iff.1 h
  exact ⟨bytes, (run_pure_eq_ok_iff.1 hresult).1⟩

end Ciphertext

namespace SealedObject

theorem exact_read :
    Exact read fun object => ∀ tag bytes, object.ciphertext ≠ .unknown tag bytes := by
  refine .bind (prompt_byte _) fun version => .check (fun _ => ?_) _ _
  refine .bind (prompt_fixed _ _) fun packageId => .bind (prompt_sized _) fun innerId =>
    .bind (prompt_count _ _) fun serviceCount =>
      .bind (prompt_elements Service.prompt_read _) fun services =>
        .bind (prompt_byte _) fun threshold =>
          .bind (prompt_readUleb128 _) fun scheme => .check (fun _ => ?_) _ _
  refine .bind (prompt_fixed _ _) fun encapsulation => .bind (prompt_count _ _) fun shareCount =>
    .bind (prompt_elements (prompt_fixed _ _) _) fun shares =>
      .bind (prompt_readUleb128 _) fun tag => ?_
  by_cases htag : tag = 0 ∨ tag = 1
  · exact .bind (Ciphertext.prompt_readBody htag) fun ciphertext => .finish _
  · -- The payload goes on to the end, so nothing is claimed of the object.
    refine .of_not fun input object rest hrun hknown => ?_
    obtain ⟨ciphertext, _, hciphertext, hrest⟩ := run_bind_eq_ok_iff.1 hrun
    obtain ⟨_, _, -, hresult⟩ := run_bind_eq_ok_iff.1 hrest
    obtain ⟨rfl, -⟩ := run_pure_eq_ok_iff.1 hresult
    obtain ⟨bytes, hunknown⟩ := Ciphertext.exists_eq_unknown_of_readBody htag hciphertext
    exact hknown tag bytes hunknown

theorem decode_of_run_read_eq_error {input : List UInt8} {error : SealingError}
    (h : read.run input = .error error) : decode input = .error error := by
  rw [decode, h]
  rfl

/-- Of the encoding of a valid object with a payload of known kind, every proper part from the
front ends early, and what follows it is refused as left over. -/
theorem decode_cut_and_continued {object : SealedObject} (hvalid : object.validate = .ok ())
    (hfits : object.Fits) (hknown : ∀ tag bytes, object.ciphertext ≠ .unknown tag bytes) :
    (∀ start, start <+: object.encode → start ≠ object.encode →
      ∃ field, decode start = .error (.malformedObject (.truncated field))) ∧
    ∀ more, more ≠ [] →
      decode (object.encode ++ more) = .error (.malformedObject (.trailing more.length)) := by
  have hrepresentable := (validate_eq_ok_iff.1 hvalid).representable_iff.2 hfits
  have hread : read.run object.encode = .ok (object, []) :=
    run_read_eq_ok_iff.2 ⟨hrepresentable, rfl, rfl⟩
  constructor
  · rintro start ⟨more, hmore⟩ hne
    have hproper : more ≠ [] := by
      rintro rfl
      exact hne (by rw [← hmore, List.append_nil])
    rw [← hmore] at hread
    obtain ⟨field, hfield⟩ := exact_read.endsEarly _ _ _ hproper hknown hread
    exact ⟨field, decode_of_run_read_eq_error hfield⟩
  · intro more hmore
    exact decode_of_run_read_eq_error (exact_read.trailing _ _ _ hmore hknown hread)

/-- An inner identifier whose length takes two bytes: the input may end between them, or
before the last byte, and it may go on. -/
theorem decode_cut_and_continued_two_byte_length :
    let object : SealedObject := {
      version := 0
      packageId := ⟨Vector.replicate 32 7⟩
      innerId := List.replicate 200 9
      services := [⟨⟨Vector.replicate 32 1⟩, 200⟩, ⟨⟨Vector.replicate 32 2⟩, 4⟩]
      threshold := 2
      encapsulation := Vector.replicate 96 0
      shares := [Vector.replicate 32 5, Vector.replicate 32 6]
      ciphertext := .aes256Gcm (Vector.replicate 12 3) [8, 9] (Vector.replicate 16 4) }
    object.validate = .ok () ∧
      (∃ field, decode (object.encode.take 34) = .error (.malformedObject (.truncated field))) ∧
      (∃ field, decode object.encode.dropLast = .error (.malformedObject (.truncated field))) ∧
      decode (object.encode ++ [0]) = .error (.malformedObject (.trailing 1)) := by
  intro object
  have hvalid : object.validate = .ok () := rfl
  have hfits : object.Fits := by
    refine ⟨?_, ?_⟩
    · rw [List.length_replicate]
      decide
    · rintro _ _ _ ⟨⟩
      decide
  have hknown : ∀ tag bytes, object.ciphertext ≠ .unknown tag bytes := fun _ _ h => nomatch h
  obtain ⟨hcut, hcontinued⟩ := decode_cut_and_continued hvalid hfits hknown
  have hlength : 34 < object.encode.length := by
    simp only [encode, List.length_cons, List.length_append, Vector.length_toList]
    omega
  refine ⟨hvalid, hcut _ (List.take_prefix _ _) fun h => ?_,
    hcut _ (List.dropLast_prefix _) fun h => ?_, hcontinued [0] (by simp)⟩
  · have hlengths := congrArg List.length h
    rw [List.length_take] at hlengths
    omega
  · have hlengths := congrArg List.length h
    rw [List.length_dropLast] at hlengths
    omega

end SealedObject
end Quorum
