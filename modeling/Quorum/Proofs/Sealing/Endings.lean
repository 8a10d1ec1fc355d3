import Quorum.Proofs.Bls.Infinity
import Quorum.Proofs.Sealing.Opening

/-!
# How opening an object ends

Opening ends with the contents or with a refusal, unless it breaks off at a mask that does
not exist.  Nothing else breaks it off: decoding, validation and the rebuilding of the key
can only refuse.

Which mask is asked for is decided by a key and by the encapsulation, and both may be any
elements of their groups.  Neither is compared with the neutral element, so there are valid
objects whose opening breaks off, also with keys that have been extracted for them.
-/

namespace Quorum

/-- An operation ends with a result or a refusal; it does not break off. -/
def Settled {α : Type} (x : Except Failure α) : Prop :=
  (∃ a, x = .ok a) ∨ ∃ error, x = .error (.refused error)

namespace Settled

variable {α β : Type}

theorem ok (a : α) : Settled (.ok a) := .inl ⟨a, rfl⟩

theorem refused (error : SealingError) : Settled (.error (.refused error) : Except Failure α) :=
  .inr ⟨error, rfl⟩

/-- Steps that give results or errors of their own can only refuse. -/
theorem lift (x : Except SealingError α) : Settled (liftM x : Except Failure α) := by
  cases x with
  | error error => exact refused error
  | ok a => exact ok a

theorem bind_iff {x : Except Failure α} {f : α → Except Failure β} :
    Settled (x >>= f) ↔ Settled x ∧ ∀ a, x = .ok a → Settled (f a) := by
  cases x with
  | error failure => simp [Settled]
  | ok a => simp [Settled]

theorem guard_iff {c : Prop} [Decidable c] {error : SealingError} {x : Except Failure α} :
    Settled (if c then .error (.refused error) else x) ↔ (¬ c → Settled x) := by
  by_cases hc : c
  · simp [hc, refused]
  · simp [hc]

/-- Where no step can refuse, no step is left out before one that breaks off. -/
theorem mapM_iff {f : α → Except Failure β}
    (hf : ∀ item error, f item ≠ .error (.refused error)) {items : List α} :
    Settled (items.mapM f) ↔ ∀ item ∈ items, Settled (f item) := by
  induction items with
  | nil => simp [ok]
  | cons item rest ih =>
      simp only [List.mapM_cons, bind_iff, Outcome.pure_eq_ok, ok, implies_true, and_true,
        List.forall_mem_cons, ih]
      refine and_congr_right fun hfirst => ?_
      -- The rest is reached only if the first step gives a result.
      rcases hfirst with ⟨result, hresult⟩ | ⟨error, herror⟩
      · simp [hresult]
      · exact absurd herror (hf item error)

end Settled

namespace Ibe

variable {suite : PairingSuite}

theorem mask_eq_of_compress? {value : suite.Gt} (h : suite.compress? value = none) :
    mask suite value = .error .maskUndefined := by
  rw [mask, h]

/-- Unmasking breaks off exactly where the pairing value has no compressed form, and never
refuses. -/
theorem decrypt_cases (encapsulation : suite.G2) (key : suite.G1) (masked : Key) (index : UInt8) :
    (suite.compress? (suite.pairing key encapsulation) ≠ none ∧
      ∃ share, decrypt suite encapsulation key masked index = .ok share) ∨
    (suite.compress? (suite.pairing key encapsulation) = none ∧
      decrypt suite encapsulation key masked index = .error .maskUndefined) := by
  by_cases hvalue : suite.compress? (suite.pairing key encapsulation) = none
  · exact .inr ⟨hvalue, by rw [decrypt, mask_eq_of_compress? hvalue]; rfl⟩
  · obtain ⟨mask, hmask⟩ := exists_mask_eq_ok hvalue
    exact .inl ⟨hvalue, _, by rw [decrypt, hmask]; rfl⟩

theorem decrypt_ne_refused (encapsulation : suite.G2) (key : suite.G1) (masked : Key)
    (index : UInt8) (error : SealingError) :
    decrypt suite encapsulation key masked index ≠ .error (.refused error) := by
  rcases decrypt_cases encapsulation key masked index with ⟨-, share, hshare⟩ | ⟨-, hbroken⟩
  · simp [hshare]
  · simp [hbroken]

theorem settled_decrypt_iff {encapsulation : suite.G2} {key : suite.G1} {masked : Key}
    {index : UInt8} : Settled (decrypt suite encapsulation key masked index) ↔
      suite.compress? (suite.pairing key encapsulation) ≠ none := by
  rcases decrypt_cases encapsulation key masked index with
    ⟨hvalue, share, hshare⟩ | ⟨hvalue, hbroken⟩
  · exact iff_of_true (.inl ⟨share, hshare⟩) hvalue
  · refine iff_of_false ?_ (not_not.2 hvalue)
    simp [Settled, hbroken]

end Ibe

namespace Sealing

variable {suite : PairingSuite} {object : SealedObject} {selected : List (Opening suite)}

/-- Each of the keys gives a mask with the encapsulation of an object, if that is an encoding
at all. -/
def MasksDefined (object : SealedObject) (keys : List suite.G1) : Prop :=
  ∀ encapsulation, suite.decode2? object.encapsulation = some encapsulation →
    ∀ key ∈ keys, suite.compress? (suite.pairing key encapsulation) ≠ none

theorem settled_recoverKey_iff :
    Settled (recoverKey object selected) ↔ MasksDefined object (selected.map Opening.key) := by
  simp only [recoverKey, Settled.bind_iff, Settled.lift, implies_true, and_true, true_and,
    Settled.mapM_iff fun (opening : Opening suite) =>
      Ibe.decrypt_ne_refused _ opening.key opening.masked opening.service.index,
    Ibe.settled_decrypt_iff, lift_eq_ok_iff, Ibe.decode2_eq_ok_iff, MasksDefined,
    List.forall_mem_map]

theorem settled_openWith_iff :
    Settled (openWith object selected) ↔
      ((∀ tag bytes, object.ciphertext ≠ .unknown tag bytes) →
        MasksDefined object (selected.map Opening.key)) := by
  rw [← settled_recoverKey_iff]
  cases hciphertext : object.ciphertext with
  | unknown tag bytes =>
      -- It is refused before anything is unmasked.
      simp [openWith, hciphertext, Settled.refused]
  | plain =>
      simp [openWith, hciphertext, Settled.bind_iff, Settled.ok]
  | aes256Gcm nonce blob mac =>
      simp [openWith, hciphertext, Settled.bind_iff, Settled.lift]

theorem openWith_eq_maskUndefined
    (hciphertext : ∀ tag bytes, object.ciphertext ≠ .unknown tag bytes)
    {encapsulation : suite.G2} (hdecode : suite.decode2? object.encapsulation = some encapsulation)
    {opening : Opening suite}
    (hvalue : suite.compress? (suite.pairing opening.key encapsulation) = none)
    (rest : List (Opening suite)) :
    openWith object (opening :: rest) = .error .maskUndefined := by
  have hrecover : recoverKey object (opening :: rest) = .error .maskUndefined := by
    rw [recoverKey, Ibe.decode2_eq_ok_iff.2 hdecode]
    change ((opening :: rest).mapM fun opening =>
      Ibe.decrypt suite encapsulation opening.key opening.masked opening.service.index) >>= _ = _
    rw [List.mapM_cons, Ibe.decrypt, Ibe.mask_eq_of_compress? hvalue]
    rfl
  cases hcases : object.ciphertext with
  | unknown tag bytes => exact absurd hcases (hciphertext tag bytes)
  | plain => simp only [openWith, hcases, hrecover, Outcome.error_bind]
  | aes256Gcm nonce blob mac => simp only [openWith, hcases, hrecover, Outcome.error_bind]

/-- The keys with which a ring opens an object: those of the first services for which it has
one, as many as the threshold says. -/
def usedKeys (object : SealedObject) (keys : KeyRing suite) : List suite.G1 :=
  ((available object keys).take object.threshold.toNat).map Opening.key

theorem settled_decrypt_iff {keys : KeyRing suite} :
    Settled (decrypt object keys) ↔
      (object.Valid → object.threshold.toNat ≤ (available object keys).length →
        (∀ tag bytes, object.ciphertext ≠ .unknown tag bytes) →
          MasksDefined object (usedKeys object keys)) := by
  simp only [decrypt, Outcome.throw_eq_error, Outcome.error_bind, Settled.bind_iff, Settled.lift,
    true_and, lift_validate_eq_ok_iff, forall_const, Settled.guard_iff, Nat.not_lt,
    settled_openWith_iff, usedKeys]

theorem settled_decryptAll_iff {keys : List suite.G1} :
    Settled (decryptAll object keys) ↔
      (object.Valid → keys.length = object.services.length →
        (∀ tag bytes, object.ciphertext ≠ .unknown tag bytes) → MasksDefined object keys) := by
  simp only [decryptAll, Outcome.throw_eq_error, Outcome.error_bind, Settled.bind_iff,
    Settled.lift, true_and, lift_validate_eq_ok_iff, forall_const, Settled.guard_iff, not_not,
    settled_openWith_iff]
  refine forall_congr' fun hvalid => forall_congr' fun hlength => ?_
  change (_ → MasksDefined object ((openings object keys).map Opening.key)) ↔ _
  rw [map_key_openings hvalid hlength]

/-- Opening what has been decoded, and opening with a key for every service, break off exactly
where a key that is used and the encapsulation have a pairing value without compressed
form. -/
theorem settled_opening_iff :
    (∀ bytes (keys : KeyRing suite), Settled (decryptBytes bytes keys) ↔
      ∀ object, SealedObject.decode bytes = .ok object →
        object.threshold.toNat ≤ (available object keys).length →
          (∀ tag rest, object.ciphertext ≠ .unknown tag rest) →
            MasksDefined object (usedKeys object keys)) ∧
    (∀ object (keys : List suite.G1), Settled (decryptAll object keys) ↔
      (object.validate = .ok () → keys.length = object.services.length →
        (∀ tag rest, object.ciphertext ≠ .unknown tag rest) → MasksDefined object keys)) := by
  constructor
  · intro bytes keys
    have hvalid {object : SealedObject} (hdecode : SealedObject.decode bytes = .ok object) :
        object.Valid := (SealedObject.decode_eq_ok_iff.1 hdecode).2.1
    simp only [decryptBytes, Settled.bind_iff, Settled.lift, true_and, lift_eq_ok_iff,
      settled_decrypt_iff]
    exact forall_congr' fun object => forall_congr' fun hdecode =>
      ⟨fun h => h (hvalid hdecode), fun h _ => h⟩
  · intro object keys
    rw [settled_decryptAll_iff, SealedObject.validate_eq_ok_iff]

open PairingSuite in
/-- A valid object whose encapsulation is the point at infinity.  Opening it breaks off,
although the key has been extracted for it. -/
theorem decryptBytes_eq_maskUndefined_of_infinity :
    let object : SealedObject := {
      version := 0
      packageId := idOf 7
      innerId := [1, 2]
      services := [⟨idOf 1, 1⟩]
      threshold := 1
      encapsulation := Bls.suite.encode2 Bls.suite.infinity
      shares := [Vector.replicate 32 0]
      ciphertext := .plain }
    let key := Ibe.extract Bls.suite ⟨1, by decide⟩ object.identity
    object.validate = .ok () ∧
      decryptBytes object.encode (Table.ofList [(idOf 1, key)]) = .error .maskUndefined ∧
      decryptAll object [key] = .error .maskUndefined := by
  intro object key
  -- It does not matter which key it is.
  clear_value key
  have hvalidate : object.validate = .ok () := rfl
  have hfits : object.Fits := ⟨by decide, fun _ _ _ h => nomatch h⟩
  have hdecode : SealedObject.decode object.encode = .ok object :=
    SealedObject.decode_encode (SealedObject.validate_eq_ok_iff.1 hvalidate) hfits
  have hciphertext : ∀ tag bytes, object.ciphertext ≠ .unknown tag bytes :=
    fun _ _ h => nomatch h
  have hinfinity : Bls.suite.decode2? object.encapsulation = some Bls.suite.infinity :=
    Bls.decode2?_encode2_infinity
  have hopen : openWith object [⟨⟨idOf 1, 1⟩, Vector.replicate 32 0, key⟩] =
      .error .maskUndefined :=
    openWith_eq_maskUndefined hciphertext hinfinity (Bls.compress?_pairing_infinity key) []
  have havailable : available object (Table.ofList [(idOf 1, key)]) =
      [⟨⟨idOf 1, 1⟩, Vector.replicate 32 0, key⟩] := rfl
  refine ⟨hvalidate, ?_, ?_⟩
  · rw [decryptBytes, lift_eq_ok_iff.2 hdecode, Outcome.ok_bind, decrypt,
      lift_eq_ok_iff.2 hvalidate, Outcome.ok_bind, havailable]
    exact hopen
  · rw [decryptAll, lift_eq_ok_iff.2 hvalidate, Outcome.ok_bind]
    exact hopen

end Sealing
end Quorum
