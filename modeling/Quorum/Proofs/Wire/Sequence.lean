import Quorum.Proofs.Wire.Uleb128

/-!
# Sequences after their lengths

A length is checked against the rest of the input before the elements are read.
The check never refuses a genuine encoding, because the elements that follow take
at least the room that is asked for.
-/

namespace Quorum
namespace Wire

variable {α : Type}

/-- A length that fits into 32 bits is written as it is. -/
theorem size_eq {length : Nat} (h : length < UInt32.size) : size length = uleb128 length := by
  have hmin : min length (UInt32.size - 1) = length := by omega
  rw [size, hmin]

theorem run_count_eq_ok_iff {elementSize number : Nat} {field : Field}
    {input rest : List UInt8} :
    (count elementSize field).run input = .ok (number, rest) ↔
      number < UInt32.size ∧ number * elementSize ≤ rest.length ∧
        input = uleb128 number ++ rest := by
  simp only [count, run_bind_eq_ok_iff, run_readUleb128_eq_ok_iff, run_get_bind]
  constructor
  · rintro ⟨read, middle, rfl, h⟩
    split at h
    · exact absurd h run_malformed_ne_ok
    · rename_i hroom
      obtain ⟨rfl, rfl⟩ := run_pure_eq_ok_iff.1 h
      exact ⟨read.toNat_lt, Nat.not_lt.1 hroom, rfl⟩
  · rintro ⟨hsize, hroom, rfl⟩
    have htoNat : (UInt32.ofNat number).toNat = number := UInt32.toNat_ofNat_of_lt' hsize
    refine ⟨UInt32.ofNat number, rest, by rw [htoNat], ?_⟩
    rw [htoNat, if_neg (Nat.not_lt.2 hroom), run_pure_eq_ok_iff]
    exact ⟨rfl, rfl⟩

theorem run_sized_eq_ok_iff {field : Field} {bytes input rest : List UInt8} :
    (sized field).run input = .ok (bytes, rest) ↔
      bytes.length < UInt32.size ∧ input = withSize bytes ++ rest := by
  simp only [sized, run_bind_eq_ok_iff, run_count_eq_ok_iff, run_get_bind, run_set_bind,
    run_pure_eq_ok_iff, Nat.mul_one]
  constructor
  · rintro ⟨number, middle, ⟨hsize, hroom, rfl⟩, rfl, rfl⟩
    have hlength : (middle.take number).length = number := List.length_take_of_le hroom
    rw [hlength, withSize, hlength, size_eq hsize, List.append_assoc, List.take_append_drop]
    exact ⟨hsize, rfl⟩
  · rintro ⟨hsize, rfl⟩
    refine ⟨bytes.length, bytes ++ rest, ⟨hsize, by simp, ?_⟩, by simp, by simp⟩
    rw [withSize, size_eq hsize, List.append_assoc]

/-- Elements that are accepted one by one are accepted one after the other. -/
theorem run_elements_eq_ok_iff {element : Reader α} {encode : α → List UInt8}
    (helement : ∀ a input rest, element.run input = .ok (a, rest) ↔ input = encode a ++ rest)
    {number : Nat} {items : List α} {input rest : List UInt8} :
    (elements element number).run input = .ok (items, rest) ↔
      items.length = number ∧ input = items.flatMap encode ++ rest := by
  -- The number of elements is known, so no condition on the rest is needed to stop.
  induction number generalizing items input with
  | zero =>
      simp only [elements, run_pure_eq_ok_iff, List.length_eq_zero_iff]
      constructor
      · rintro ⟨rfl, rfl⟩
        exact ⟨rfl, rfl⟩
      · rintro ⟨rfl, rfl⟩
        exact ⟨rfl, rfl⟩
  | succ number ih =>
      simp only [elements, run_bind_eq_ok_iff, helement, run_pure_eq_ok_iff]
      constructor
      · rintro ⟨first, middle, rfl, others, after, hothers, rfl, rfl⟩
        obtain ⟨hlength, rfl⟩ := ih.1 hothers
        exact ⟨by rw [List.length_cons, hlength], by simp⟩
      · rintro ⟨hlength, rfl⟩
        match items, hlength with
        | first :: others, hlength =>
            have hothers := ih.2 ⟨Nat.succ.inj hlength, rfl⟩
            exact ⟨first, _, by simp, others, _, hothers, rfl, rfl⟩

/-- Elements of the size that is asked for have the room that is asked for. -/
theorem length_mul_le_flatMap_append {elementSize : Nat} {encode : α → List UInt8}
    (hencode : ∀ a, (encode a).length = elementSize) (items : List α) (rest : List UInt8) :
    items.length * elementSize ≤ (items.flatMap encode ++ rest).length := by
  rw [List.length_append, List.length_flatMap, List.map_congr_left fun a _ => hencode a,
    List.map_const', List.sum_replicate_nat]
  exact Nat.le_add_right _ _

end Wire
end Quorum
