import Quorum.Proofs.RandomSource
import Quorum.Proofs.Sealing.Endings

/-!
# Input that sealing refuses

Sealing refuses its input for two reasons: a threshold that the number of servers does not
allow, and a public key which is the neutral element.  Drawing, splitting and masking have no
refusals of their own; they can only break off.

The threshold is looked at first and the public keys last.  Data that are too long for the
cipher are refused in between, not as an input but as a failed encryption.
-/

namespace Quorum

/-- The data are not too long for the cipher, if there are any. -/
def Payload.Encryptable (payload : Payload) : Prop :=
  ∀ bytes, payload = .data bytes → bytes.length ≤ Aes256Gcm.maxPlaintext

namespace Ibe

variable {suite : PairingSuite} {error : SealingError}

/-- Deriving a mask only breaks off. -/
theorem eq_maskUndefined_of_mask {value : suite.Gt} {failure : Failure}
    (h : mask suite value = .error failure) : failure = .maskUndefined := by
  by_cases hvalue : suite.compress? value = none
  · rw [mask_eq_of_compress? hvalue] at h
    cases h
    rfl
  · obtain ⟨key, hkey⟩ := exists_mask_eq_ok hvalue
    rw [hkey] at h
    cases h

theorem eq_maskUndefined_of_maskPayloads {r : suite.Scalar} {identity : List UInt8}
    {payloads : List Key} {publicKeys : List suite.G2} {failure : Failure}
    (h : maskPayloads suite r identity payloads publicKeys = .error failure) :
    failure = .maskUndefined := by
  obtain ⟨item, -, hitem⟩ := Outcome.exists_of_mapM_eq_error h
  rcases Outcome.bind_eq_error_iff.1 hitem with hmask | ⟨mask, -, hresult⟩
  · exact eq_maskUndefined_of_mask hmask
  · cases hresult

/-- Drawing fails exactly if no attempt reads a number that is small enough. -/
theorem drawScalar_eq_error_iff {random : RandomSource} {failure : Failure} :
    drawScalar suite random = .error failure ↔
      failure = .randomnessExhausted ∧
        ∀ attempt < drawLimit, suite.order ≤ random.candidate attempt := by
  rw [← RandomSource.takeBelow_eq_none_iff, drawScalar]
  cases random.takeBelow suite.order drawLimit with
  | none => simp [eq_comm]
  | some drawn => simp

theorem maskPayloads_ne_refused (r : suite.Scalar) (identity : List UInt8) (payloads : List Key)
    (publicKeys : List suite.G2) :
    maskPayloads suite r identity payloads publicKeys ≠ .error (.refused error) :=
  fun h => nomatch eq_maskUndefined_of_maskPayloads h

theorem drawScalar_ne_refused (random : RandomSource) :
    drawScalar suite random ≠ .error (.refused error) :=
  fun h => nomatch (drawScalar_eq_error_iff.1 h).1

/-- With a payload for every public key, masking is refused exactly if one of the public keys
is the neutral element. -/
theorem encrypt_eq_refused_iff {identity : List UInt8} {payloads : List Key}
    {publicKeys : List suite.G2} {random : RandomSource}
    (hlength : payloads.length = publicKeys.length) :
    encrypt suite identity payloads publicKeys random = .error (.refused error) ↔
      suite.infinity ∈ publicKeys ∧ error = .invalidInput .infinitePublicKey := by
  by_cases hinfinity : suite.infinity ∈ publicKeys
  · simp [encrypt, hlength, hinfinity, eq_comm]
  · -- Both steps that follow can only break off.
    simp [encrypt, hlength, hinfinity, Outcome.bind_eq_error_iff, drawScalar_ne_refused,
      maskPayloads_ne_refused]

end Ibe

namespace Sealing

variable {suite : PairingSuite} {packageId : ObjectId} {innerId : List UInt8}
  {servers : ServerSet suite} {threshold : UInt8} {payload : Payload} {random : RandomSource}

theorem encryptPayload_cases (key : Key) (payload : Payload) (random : RandomSource) :
    (payload.Encryptable ∧
      ∃ ciphertext rest, encryptPayload key payload random = .ok (ciphertext, rest)) ∨
    (¬ payload.Encryptable ∧
      ∃ message, encryptPayload key payload random = .error (.encryptionFailed message)) := by
  cases payload with
  | keyOnly => exact .inl ⟨fun _ h => (nomatch h), _, _, rfl⟩
  | data bytes =>
      by_cases hlength : bytes.length ≤ Aes256Gcm.maxPlaintext
      · have hfits : (Payload.data bytes).Encryptable := by
          rintro _ ⟨⟩
          exact hlength
        obtain ⟨ciphertext, hciphertext⟩ := exists_encryptPayload_eq_ok hlength key random
        exact .inl ⟨hfits, ciphertext, _, hciphertext⟩
      · have hnone : Aes256Gcm.encrypt? key (random.next 12) bytes = none := if_neg hlength
        refine .inr ⟨fun hfits => hlength (hfits bytes rfl), ?_⟩
        simp [encryptPayload, encryptData, RandomSource.take, hnone]

theorem encrypt_eq_error_of_threshold (hrange : threshold = 0 ∨ servers.size < threshold.toNat) :
    encrypt packageId innerId servers threshold payload random =
      .error (.refused (.invalidInput (.threshold threshold.toNat servers.size))) := by
  rw [encrypt, if_pos hrange]
  rfl

/-- With a threshold that the servers allow, what is refused of the input is a public key, and
only after the data have been encrypted. -/
theorem encrypt_eq_invalidInput_iff_of_le {fault : InputFault} (hne : threshold ≠ 0)
    (hle : threshold.toNat ≤ servers.size) :
    encrypt packageId innerId servers threshold payload random =
        .error (.refused (.invalidInput fault)) ↔
      payload.Encryptable ∧ suite.infinity ∈ servers.publicKeys ∧ fault = .infinitePublicKey := by
  have hrange : ¬ (threshold = 0 ∨ servers.size < threshold.toNat) := by
    rintro (hzero | hlt)
    · exact hne hzero
    · exact absurd hle (Nat.not_le.2 hlt)
  rw [encrypt, if_neg hrange]
  simp only [RandomSource.take]
  rcases encryptPayload_cases (random.next 32) payload (random.skip 32) with
    ⟨hpayload, ciphertext, middle, hciphertext⟩ | ⟨hpayload, message, hfailed⟩
  · -- There are as many shares as servers, so no other check of the masking applies.
    rw [lift_eq_ok_iff.2 hciphertext, Outcome.ok_bind,
      lift_eq_ok_iff.2 (Sharing.split_eq_ok _ _ hne (le_size_iff.2 hle)), Outcome.ok_bind,
      Outcome.bind_eq_error_iff, Ibe.encrypt_eq_refused_iff (length_map_payload_deal _ _ _)]
    simp [hpayload]
  · refine iff_of_false (fun h => ?_) (fun h => hpayload h.1)
    rw [hfailed] at h
    cases h

/-- What is refused as an input, and in which order. -/
theorem encrypt_eq_invalidInput_iff {fault : InputFault} :
    encrypt packageId innerId servers threshold payload random =
        .error (.refused (.invalidInput fault)) ↔
      ((threshold = 0 ∨ servers.size < threshold.toNat) ∧
        fault = .threshold threshold.toNat servers.size) ∨
      (threshold ≠ 0 ∧ threshold.toNat ≤ servers.size ∧ payload.Encryptable ∧
        suite.infinity ∈ servers.publicKeys ∧ fault = .infinitePublicKey) := by
  by_cases hrange : threshold = 0 ∨ servers.size < threshold.toNat
  · have hout : ¬ (threshold ≠ 0 ∧ threshold.toNat ≤ servers.size) := by
      rwa [← Nat.not_lt, ← not_or, not_not]
    rw [encrypt_eq_error_of_threshold hrange, ← and_assoc (a := threshold ≠ 0)]
    simp only [hrange, hout, Except.error.injEq, Failure.refused.injEq,
      SealingError.invalidInput.injEq, true_and, false_and, or_false]
    exact eq_comm
  · obtain ⟨hne, hle⟩ : threshold ≠ 0 ∧ threshold.toNat ≤ servers.size := by
      rwa [← Nat.not_lt, ← not_or]
    rw [encrypt_eq_invalidInput_iff_of_le hne hle, or_iff_right fun h => hrange h.1,
      and_iff_right hne, and_iff_right hle]

end Sealing
end Quorum
