import Mathlib.Data.List.Nodup
import Quorum.Proofs.Outcome
import Quorum.SealedObject.Basic

/-!
# Objects that pass validation

The checks of `SealedObject.validate` come one after the other, and the first that
fails decides the error.  What is left when none of them fails is collected in
`SealedObject.Valid`, which does not depend on the order.
-/

namespace Quorum
namespace SealedObject

/-- An identity starts with the length of its tag. -/
theorem identity_ne_nil (object : SealedObject) : object.identity ≠ [] := List.cons_ne_nil _ _

/-- The invariants of an object that can be opened. -/
structure Valid (object : SealedObject) : Prop where
  version_eq : object.version = currentVersion
  services_ne_zero : object.services.length ≠ 0
  services_le : object.services.length ≤ maxServices
  shares_length : object.shares.length = object.services.length
  threshold_ne_zero : object.threshold ≠ 0
  threshold_le : object.threshold.toNat ≤ object.services.length
  index_ne_zero : ∀ index ∈ object.services.map Service.index, index ≠ 0
  nodup_indices : (object.services.map Service.index).Nodup
  unknown_tag : ∀ tag bytes, object.ciphertext = .unknown tag bytes → ¬ (tag = 0 ∨ tag = 1)

theorem Valid.length_zip {object : SealedObject} (h : object.Valid) :
    (object.services.zip object.shares).length = object.services.length := by
  rw [List.length_zip, h.shares_length, Nat.min_self]

theorem Valid.map_fst_zip {object : SealedObject} (h : object.Valid) :
    (object.services.zip object.shares).map Prod.fst = object.services :=
  List.map_fst_zip (Nat.le_of_eq h.shares_length.symm)

/-- There is no bad index if none is zero, none has been seen, and all are
distinct. -/
theorem badIndex?_eq_none_iff {seen indices : List UInt8} :
    badIndex? seen indices = none ↔
      (∀ index ∈ indices, index ≠ 0) ∧ (∀ index ∈ indices, index ∉ seen) ∧ indices.Nodup := by
  induction indices generalizing seen with
  | nil => simp [badIndex?]
  | cons index rest ih =>
      by_cases hbad : index = 0 ∨ index ∈ seen
      · rw [badIndex?, if_pos hbad]
        refine iff_of_false (by simp) ?_
        rintro ⟨hzero, hseen, -⟩
        rcases hbad with hbad | hbad
        · exact hzero index (by simp) hbad
        · exact hseen index (by simp) hbad
      · rw [badIndex?, if_neg hbad, ih]
        obtain ⟨hzero, hseen⟩ := not_or.1 hbad
        rw [List.forall_mem_cons, List.forall_mem_cons, List.nodup_cons]
        simp only [List.mem_cons, not_or]
        constructor
        · rintro ⟨hzeros, hrest, hnodup⟩
          exact ⟨⟨hzero, hzeros⟩, ⟨hseen, fun other hother => (hrest other hother).2⟩,
            fun hmem => (hrest index hmem).1 rfl, hnodup⟩
        · rintro ⟨⟨-, hzeros⟩, ⟨-, hrest⟩, hmem, hnodup⟩
          refine ⟨hzeros, fun other hother => ⟨?_, hrest other hother⟩, hnodup⟩
          rintro rfl
          exact hmem hother

theorem validate_eq_ok_iff {object : SealedObject} : object.validate = .ok () ↔ object.Valid := by
  have hindices : badIndex? [] (object.services.map Service.index) = none ↔
      (∀ index ∈ object.services.map Service.index, index ≠ 0) ∧
        (object.services.map Service.index).Nodup :=
    badIndex?_eq_none_iff.trans (and_congr_right fun _ => and_iff_right (by simp))
  simp only [validate, Outcome.guard_eq_ok_iff, not_or, not_not, Nat.not_lt]
  constructor
  · rintro ⟨hversion, ⟨hnonempty, hmax⟩, hshares, ⟨hzero, hle⟩, hrest⟩
    -- A bad index is reported before the payload is looked at.
    cases hbad : badIndex? [] (object.services.map Service.index) with
    | some index => simp [hbad] at hrest
    | none =>
        obtain ⟨hne, hnodup⟩ := hindices.1 hbad
        refine ⟨hversion, hnonempty, hmax, hshares, hzero, hle, hne, hnodup, ?_⟩
        intro tag bytes hciphertext
        simp only [hbad, hciphertext, Outcome.guard_eq_ok_iff] at hrest
        exact hrest.1
  · intro h
    refine ⟨h.version_eq, ⟨h.services_ne_zero, h.services_le⟩, h.shares_length,
      ⟨h.threshold_ne_zero, h.threshold_le⟩, ?_⟩
    rw [hindices.2 ⟨h.index_ne_zero, h.nodup_indices⟩]
    cases hciphertext : object.ciphertext with
    | aes256Gcm nonce blob mac => rfl
    | plain => rfl
    | unknown tag bytes =>
        exact Outcome.guard_eq_ok_iff.2 ⟨h.unknown_tag tag bytes hciphertext, rfl⟩

/-- What validation says of an object: that its version is another one, or else that it is
malformed. -/
theorem validate_eq_error {object : SealedObject} {error : SealingError}
    (h : object.validate = .error error) :
    (object.version ≠ currentVersion ∧ error = .unsupportedVersion object.version.toNat) ∨
      (object.version = currentVersion ∧
        ∃ malformation, error = .malformedObject malformation) := by
  simp only [validate, Outcome.guard_eq_error_iff, not_not] at h
  rcases h with ⟨hversion, rfl⟩ | ⟨hversion, h⟩
  · exact .inl ⟨hversion, rfl⟩
  refine .inr ⟨hversion, ?_⟩
  rcases h with ⟨-, rfl⟩ | ⟨-, ⟨-, rfl⟩ | ⟨-, ⟨-, rfl⟩ | ⟨-, h⟩⟩⟩
  · exact ⟨_, rfl⟩
  · exact ⟨_, rfl⟩
  · exact ⟨_, rfl⟩
  · split at h
    · cases h
      exact ⟨_, rfl⟩
    · obtain ⟨-, rfl⟩ | ⟨-, h⟩ := Outcome.guard_eq_error_iff.1 h
      · exact ⟨_, rfl⟩
      · cases h
    · cases h

end SealedObject
end Quorum
