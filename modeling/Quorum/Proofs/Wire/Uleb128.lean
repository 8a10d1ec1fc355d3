import Quorum.Proofs.Wire.Reader

/-!
# Numbers of variable length

The reader of digits is specified for an arbitrary place: it adds to what has been
read the number `m` whose shortest form is at the front of the input, shifted to
that place.  After the first place `m` is not zero, which is what makes the form
of the whole number the shortest.

So `readUleb128` accepts exactly the shortest forms of the numbers of 32 bits.
-/

namespace Quorum
namespace Wire

theorem uleb128_of_lt {value : Nat} (h : value < 128) : uleb128 value = [UInt8.ofNat value] := by
  rw [uleb128, if_pos h]

theorem uleb128_of_le {value : Nat} (h : 128 ≤ value) :
    uleb128 value = UInt8.ofNat (value % 128 + 128) :: uleb128 (value / 128) := by
  rw [uleb128, if_neg (Nat.not_lt.2 h)]

/-- A last digit is a number by itself. -/
theorem uleb128_toNat_of_lt {digit : UInt8} (h : digit < 128) : uleb128 digit.toNat = [digit] := by
  rw [uleb128_of_lt (UInt8.lt_iff_toNat_lt.1 h), UInt8.ofNat_toNat]

/-- Any other digit is followed by the rest of the number. -/
theorem uleb128_toNat_add {digit : UInt8} (h : ¬ digit < 128) {m : Nat} (hm : m ≠ 0) :
    uleb128 (digit.toNat % 128 + m * 128) = digit :: uleb128 m := by
  have hdigit : 128 ≤ digit.toNat := UInt8.le_iff_toNat_le.1 (UInt8.not_lt.1 h)
  have hbound := digit.toNat_lt
  have hlow : (digit.toNat % 128 + m * 128) % 128 + 128 = digit.toNat := by omega
  have hhigh : (digit.toNat % 128 + m * 128) / 128 = m := by omega
  rw [uleb128_of_le (by omega), hlow, hhigh, UInt8.ofNat_toNat]

/-- The first byte of a number, and the rest of its digits. -/
theorem uleb128_append_eq_cons_iff {m : Nat} {digit : UInt8} {rest tail : List UInt8} :
    uleb128 m ++ rest = digit :: tail ↔
      (digit < 128 ∧ m = digit.toNat ∧ tail = rest) ∨
        (¬ digit < 128 ∧ ∃ m', m' ≠ 0 ∧ m = digit.toNat % 128 + m' * 128 ∧
          tail = uleb128 m' ++ rest) := by
  constructor
  · intro h
    by_cases hm : m < 128
    · rw [uleb128_of_lt hm] at h
      obtain ⟨rfl, rfl⟩ := List.cons.inj h
      have htoNat : (UInt8.ofNat m).toNat = m :=
        UInt8.toNat_ofNat_of_lt' (show m < 256 by omega)
      refine .inl ⟨UInt8.lt_iff_toNat_lt.2 ?_, htoNat.symm, rfl⟩
      rw [htoNat]
      exact hm
    · rw [uleb128_of_le (Nat.not_lt.1 hm)] at h
      obtain ⟨rfl, rfl⟩ := List.cons.inj h
      have htoNat : (UInt8.ofNat (m % 128 + 128)).toNat = m % 128 + 128 :=
        UInt8.toNat_ofNat_of_lt' (show m % 128 + 128 < 256 by omega)
      refine .inr ⟨fun hlt => ?_, m / 128, by omega, ?_, rfl⟩
      · have hlt' := UInt8.lt_iff_toNat_lt.1 hlt
        rw [htoNat] at hlt'
        exact absurd hlt' (by simp)
      · rw [htoNat]
        omega
  · rintro (⟨hlt, rfl, rfl⟩ | ⟨hlt, m', hm', rfl, rfl⟩)
    · rw [uleb128_toNat_of_lt hlt]
      rfl
    · rw [uleb128_toNat_add hlt hm']
      rfl

theorem exists_uleb128_append_eq_cons (m : Nat) (rest : List UInt8) :
    ∃ digit tail, uleb128 m ++ rest = digit :: tail := by
  rw [uleb128]
  split
  · exact ⟨_, _, rfl⟩
  · exact ⟨_, _, rfl⟩

/-- A last digit is taken as it is, unless it is a zero after other digits or makes
the number too large. -/
theorem run_lastDigit_eq_ok_iff {field : Field} {place value : Nat} {digit : UInt8}
    {number : UInt32} {input rest : List UInt8} :
    (if 0 < place ∧ digit = 0 then malformed (.nonCanonical field)
      else if value < UInt32.size then return UInt32.ofNat value
      else malformed (.overflow field) : Reader UInt32).run input = .ok (number, rest) ↔
      ¬ (0 < place ∧ digit = 0) ∧ number.toNat = value ∧ rest = input := by
  by_cases hzero : 0 < place ∧ digit = 0
  · rw [if_pos hzero]
    exact iff_of_false run_malformed_ne_ok fun h => h.1 hzero
  · rw [if_neg hzero]
    by_cases hsize : value < UInt32.size
    · rw [if_pos hsize, run_pure_eq_ok_iff, ← UInt32.toNat_inj,
        UInt32.toNat_ofNat_of_lt' hsize]
      exact ⟨fun h => ⟨hzero, h⟩, fun h => h.2⟩
    · rw [if_neg hsize]
      refine iff_of_false run_malformed_ne_ok ?_
      rintro ⟨-, rfl, -⟩
      exact hsize number.toNat_lt

/-- What the reader of digits adds to the value of the digits before. -/
theorem run_uleb128Digits_eq_ok_iff {field : Field} {left place value : Nat}
    (hstart : 0 < left + place) {number : UInt32} {input rest : List UInt8} :
    (uleb128Digits field left place value).run input = .ok (number, rest) ↔
      ∃ m, m < 128 ^ left ∧ (0 < place → m ≠ 0) ∧
        number.toNat = value + m * 128 ^ place ∧ input = uleb128 m ++ rest := by
  induction left generalizing place value input with
  | zero =>
      refine iff_of_false run_malformed_ne_ok ?_
      rintro ⟨m, hm, hne, -⟩
      exact hne (by omega) (by simpa using hm)
  | succ left ih =>
      simp only [uleb128Digits, run_bind_eq_ok_iff, run_byte_eq_ok_iff, Nat.pow_eq]
      -- Both ways, the first digit is the last one, or the others are those of `m / 128`.
      constructor
      · rintro ⟨digit, tail, rfl, h⟩
        by_cases hdigit : digit < 128
        · rw [if_pos hdigit, run_lastDigit_eq_ok_iff] at h
          obtain ⟨hzero, hnumber, rfl⟩ := h
          have hlt : digit.toNat < 128 := UInt8.lt_iff_toNat_lt.1 hdigit
          refine ⟨digit.toNat, ?_, ?_, ?_, ?_⟩
          · exact lt_of_lt_of_le hlt (Nat.le_self_pow (by omega) 128)
          · exact fun hplace hm => hzero ⟨hplace, UInt8.toNat_inj.1 hm⟩
          · rw [hnumber, Nat.mod_eq_of_lt hlt]
          · exact (uleb128_append_eq_cons_iff.2 (.inl ⟨hdigit, rfl, rfl⟩)).symm
        · rw [if_neg hdigit, ih (by omega)] at h
          obtain ⟨m, hm, hne, hnumber, rfl⟩ := h
          have hdigits : digit.toNat % 128 < 128 := Nat.mod_lt _ (by decide)
          refine ⟨digit.toNat % 128 + m * 128, ?_, ?_, ?_, ?_⟩
          · rw [pow_succ]
            omega
          · have hm' := hne (by omega)
            omega
          · rw [hnumber, pow_succ]
            ring
          · exact (uleb128_append_eq_cons_iff.2 (.inr ⟨hdigit, m, hne (by omega), rfl, rfl⟩)).symm
      · rintro ⟨m, hm, hne, hnumber, rfl⟩
        obtain ⟨digit, tail, hinput⟩ := exists_uleb128_append_eq_cons m rest
        refine ⟨digit, tail, hinput, ?_⟩
        rcases uleb128_append_eq_cons_iff.1 hinput with
          ⟨hdigit, rfl, rfl⟩ | ⟨hdigit, m', hm', rfl, rfl⟩
        · rw [if_pos hdigit, run_lastDigit_eq_ok_iff]
          refine ⟨fun hzero => hne hzero.1 (by rw [hzero.2, UInt8.toNat_zero]), ?_, rfl⟩
          have hlt : digit.toNat < 128 := UInt8.lt_iff_toNat_lt.1 hdigit
          rw [hnumber, Nat.mod_eq_of_lt hlt]
        · rw [if_neg hdigit, ih (by omega)]
          refine ⟨m', ?_, fun _ => hm', ?_, rfl⟩
          · rw [pow_succ] at hm
            omega
          · rw [hnumber, pow_succ]
            ring

/-- The numbers that are accepted are written in their shortest forms. -/
theorem run_readUleb128_eq_ok_iff {field : Field} {number : UInt32} {input rest : List UInt8} :
    (readUleb128 field).run input = .ok (number, rest) ↔
      input = uleb128 number.toNat ++ rest := by
  rw [readUleb128, run_uleb128Digits_eq_ok_iff (by decide)]
  constructor
  · rintro ⟨m, -, -, hnumber, rfl⟩
    rw [hnumber, pow_zero, mul_one, zero_add]
  · rintro rfl
    have hbound : number.toNat < 2 ^ 32 := number.toNat_lt
    exact ⟨number.toNat, lt_of_lt_of_le hbound (by decide), fun h => absurd h (by decide),
      by simp, rfl⟩

end Wire
end Quorum
