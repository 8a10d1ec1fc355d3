import Mathlib.Algebra.Field.Basic
import Mathlib.Data.Fintype.Card
import Mathlib.GroupTheory.OrderOfElement
import Mathlib.Tactic.NormNum.Prime
import Mathlib.Tactic.Ring
import Quorum.GF256

/-!
# The 256 elements form a field

Multiplication by a fixed byte is built from `timesX` and exclusive or alone, so
it is additive and commutes with every other such multiplication.  Together with
`1 * b = b` this gives commutativity and associativity without a case split over
bytes.

The element `3` has order 255, so its powers are all elements other than zero.
Hence the power with exponent 254 is an inverse, and the elements form a field.
-/

namespace Quorum
namespace GF256

@[ext]
theorem ext {a b : GF256} (h : a.byte = b.byte) : a = b := by
  cases a
  cases b
  exact congrArg GF256.mk h

@[simp]
theorem byte_zero : (0 : GF256).byte = 0 := rfl

@[simp]
theorem byte_one : (1 : GF256).byte = 1 := rfl

@[simp]
theorem byte_add (a b : GF256) : (a + b).byte = a.byte ^^^ b.byte := rfl

@[simp]
theorem byte_sub (a b : GF256) : (a - b).byte = a.byte ^^^ b.byte := rfl

theorem byte_mul (a b : GF256) : (a * b).byte = sumOfMultiples 8 a.byte b.byte := rfl

theorem mk_injective : Function.Injective GF256.mk := fun _ _ h => congrArg GF256.byte h

/-! ## Multiples by powers of `x` -/

theorem and_highBit (byte : UInt8) : byte &&& 0x80 = 0 ∨ byte &&& 0x80 = 0x80 := by
  have hfin : ∀ n : Fin 256,
      UInt8.ofFin n &&& 0x80 = 0 ∨ UInt8.ofFin n &&& 0x80 = 0x80 := by
    decide +kernel
  exact hfin byte.toFin

theorem xor_and_highBit (a b : UInt8) :
    (a ^^^ b) &&& 0x80 = (a &&& 0x80) ^^^ (b &&& 0x80) := by
  apply UInt8.toBitVec_inj.1
  ext i
  simp [Bool.and_xor_distrib_right]

/-- What is added when the coefficient of `x⁷` is shifted out. -/
def overflow (byte : UInt8) : UInt8 := if byte &&& 0x80 = 0 then 0 else 0x1b

theorem timesX_eq (byte : UInt8) : timesX byte = byte <<< 1 ^^^ overflow byte := by
  unfold timesX overflow
  split <;> simp

theorem overflow_xor (a b : UInt8) : overflow (a ^^^ b) = overflow a ^^^ overflow b := by
  have hmask := xor_and_highBit a b
  unfold overflow
  rcases and_highBit a with ha | ha <;> rcases and_highBit b with hb | hb <;>
    rw [hmask, ha, hb] <;> decide

theorem timesX_zero : timesX 0 = 0 := by decide

theorem timesX_xor (a b : UInt8) : timesX (a ^^^ b) = timesX a ^^^ timesX b := by
  rw [timesX_eq, timesX_eq, timesX_eq, UInt8.shiftLeft_xor, overflow_xor]
  ac_rfl

/-- A multiple of a sum is the sum of the multiples. -/
theorem sumOfMultiples_xor (count : Nat) (a a' b : UInt8) :
    sumOfMultiples count (a ^^^ a') b =
      sumOfMultiples count a b ^^^ sumOfMultiples count a' b := by
  induction count generalizing a a' b with
  | zero => simp [sumOfMultiples]
  | succ count ih =>
      simp only [sumOfMultiples, timesX_xor, ih]
      split
      · ac_rfl
      · simp

theorem sumOfMultiples_zero (count : Nat) (b : UInt8) : sumOfMultiples count 0 b = 0 := by
  simpa using sumOfMultiples_xor count 0 0 b

theorem sumOfMultiples_timesX (count : Nat) (a b : UInt8) :
    sumOfMultiples count (timesX a) b = timesX (sumOfMultiples count a b) := by
  induction count generalizing a b with
  | zero => exact timesX_zero.symm
  | succ count ih =>
      simp only [sumOfMultiples, timesX_xor, ih]
      split
      · rfl
      · rw [timesX_zero]

/-- Multiples commute: both are sums of multiples by powers of `x`. -/
theorem sumOfMultiples_comm (count count' : Nat) (a b c : UInt8) :
    sumOfMultiples count (sumOfMultiples count' a c) b =
      sumOfMultiples count' (sumOfMultiples count a b) c := by
  -- The other multiple is taken as a whole; only that it is additive and goes with `x` is used.
  induction count generalizing a b with
  | zero => exact (sumOfMultiples_zero count' c).symm
  | succ count ih =>
      simp only [sumOfMultiples, sumOfMultiples_xor]
      rw [← ih, sumOfMultiples_timesX count']
      split
      · rfl
      · rw [sumOfMultiples_zero]

/-- The multiples of `1` are all bytes. -/
theorem sumOfMultiples_one (b : UInt8) : sumOfMultiples 8 1 b = b := by
  have hfin : ∀ n : Fin 256, sumOfMultiples 8 1 (UInt8.ofFin n) = UInt8.ofFin n := by
    decide +kernel
  exact hfin b.toFin

/-! ## The ring -/

protected theorem add_assoc (a b c : GF256) : a + b + c = a + (b + c) :=
  GF256.ext (UInt8.xor_assoc a.byte b.byte c.byte)

protected theorem add_comm (a b : GF256) : a + b = b + a :=
  GF256.ext (UInt8.xor_comm a.byte b.byte)

protected theorem zero_add (a : GF256) : 0 + a = a := GF256.ext (by simp)

protected theorem add_self (a : GF256) : a + a = 0 := GF256.ext (by simp)

protected theorem one_mul (a : GF256) : 1 * a = a :=
  GF256.ext (sumOfMultiples_one a.byte)

protected theorem zero_mul (a : GF256) : 0 * a = 0 :=
  GF256.ext (sumOfMultiples_zero 8 a.byte)

protected theorem mul_comm (a b : GF256) : a * b = b * a := by
  apply GF256.ext
  calc
    sumOfMultiples 8 a.byte b.byte =
        sumOfMultiples 8 (sumOfMultiples 8 1 a.byte) b.byte := by
      rw [sumOfMultiples_one]
    _ = sumOfMultiples 8 (sumOfMultiples 8 1 b.byte) a.byte :=
      sumOfMultiples_comm 8 8 1 b.byte a.byte
    _ = sumOfMultiples 8 b.byte a.byte := by
      rw [sumOfMultiples_one]

protected theorem add_mul (a b c : GF256) : (a + b) * c = a * c + b * c :=
  GF256.ext (sumOfMultiples_xor 8 a.byte b.byte c.byte)

protected theorem mul_assoc (a b c : GF256) : a * b * c = a * (b * c) := by
  rw [GF256.mul_comm a (b * c), GF256.mul_comm a b]
  exact GF256.ext (sumOfMultiples_comm 8 8 b.byte c.byte a.byte)

instance : Neg GF256 := ⟨id⟩

instance : CommRing GF256 where
  add_assoc := GF256.add_assoc
  add_comm := GF256.add_comm
  zero_add := GF256.zero_add
  add_zero a := by rw [GF256.add_comm, GF256.zero_add]
  neg_add_cancel := GF256.add_self
  sub_eq_add_neg _ _ := rfl
  mul_assoc := GF256.mul_assoc
  mul_comm := GF256.mul_comm
  one_mul := GF256.one_mul
  mul_one a := by rw [GF256.mul_comm, GF256.one_mul]
  right_distrib := GF256.add_mul
  left_distrib a b c := by
    rw [GF256.mul_comm, GF256.add_mul, GF256.mul_comm b, GF256.mul_comm c]
  zero_mul := GF256.zero_mul
  mul_zero a := by rw [GF256.mul_comm, GF256.zero_mul]
  nsmul := nsmulRec
  zsmul := zsmulRec

/-! ## The powers of a generator -/

/-- The element `x + 1`, of which every element other than zero is a power. -/
def generator : GF256 := ⟨3⟩

theorem generator_pow_fifteen : generator ^ 15 = ⟨0x35⟩ := by decide +kernel

theorem generator_pow_seventeen : generator ^ 17 = ⟨0xe1⟩ := by decide +kernel

theorem generator_pow_fiftyOne : generator ^ 51 = ⟨0x0c⟩ := by
  rw [show 51 = 17 * 3 by rfl, pow_mul, generator_pow_seventeen]
  decide +kernel

theorem generator_pow_eightyFive : generator ^ 85 = ⟨0xbd⟩ := by
  rw [show 85 = 17 * 5 by rfl, pow_mul, generator_pow_seventeen]
  decide +kernel

theorem generator_pow_order : generator ^ 255 = 1 := by
  rw [show 255 = 85 * 3 by rfl, pow_mul, generator_pow_eightyFive]
  decide +kernel

/-- The order is 255: no power with one of the exponents 85, 51 and 15 is `1`. -/
theorem orderOf_generator : orderOf generator = 255 := by
  apply orderOf_eq_of_pow_and_pow_div_prime (by decide) generator_pow_order
  intro p hp hdvd
  have hfactors : p ∣ 3 * 5 * 17 := hdvd
  rcases hp.dvd_mul.1 hfactors with hdvd | hdvd
  · rcases hp.dvd_mul.1 hdvd with hdvd | hdvd
    · rw [(Nat.prime_dvd_prime_iff_eq hp (by norm_num)).1 hdvd]
      rw [generator_pow_eightyFive]
      decide
    · rw [(Nat.prime_dvd_prime_iff_eq hp (by norm_num)).1 hdvd]
      rw [generator_pow_fiftyOne]
      decide
  · rw [(Nat.prime_dvd_prime_iff_eq hp (by norm_num)).1 hdvd]
    rw [generator_pow_fifteen]
    decide

instance : Fintype GF256 :=
  Fintype.ofEquiv (Fin 256)
    ⟨fun n => ⟨UInt8.ofFin n⟩, fun a => a.byte.toFin, fun _ => rfl, fun _ => rfl⟩

theorem card_eq : Fintype.card GF256 = 256 := by
  rw [Fintype.ofEquiv_card, Fintype.card_fin]

theorem generator_pow_ne_zero (k : Nat) : generator ^ k ≠ 0 := by
  intro hzero
  have hone : (generator ^ 255) ^ k = (0 : GF256) ^ 255 := by
    rw [← pow_mul, mul_comm, pow_mul, hzero]
  rw [generator_pow_order, one_pow] at hone
  exact absurd hone (by decide +kernel)

theorem generator_pow_injOn : Set.InjOn (generator ^ ·) (Set.Iio 255) := by
  rw [← orderOf_generator]
  exact pow_injOn_Iio_orderOf

/-- There are 255 distinct powers, and as many elements other than zero. -/
theorem exists_generator_pow_eq {a : GF256} (ha : a ≠ 0) : ∃ k < 255, generator ^ k = a := by
  let powers := (Finset.range 255).image (generator ^ ·)
  have hcard : powers.card = 255 := by
    rw [Finset.card_image_of_injOn, Finset.card_range]
    rw [Finset.coe_range]
    exact generator_pow_injOn
  have hsubset : powers ⊆ Finset.univ.erase 0 := by
    intro b hb
    obtain ⟨k, _, rfl⟩ := Finset.mem_image.1 hb
    exact Finset.mem_erase.2 ⟨generator_pow_ne_zero k, Finset.mem_univ _⟩
  have hall : powers = Finset.univ.erase 0 := by
    apply Finset.eq_of_subset_of_card_le hsubset
    rw [Finset.card_erase_of_mem (Finset.mem_univ _), Finset.card_univ, card_eq, hcard]
  have hmem : a ∈ powers := by
    rw [hall]
    exact Finset.mem_erase.2 ⟨ha, Finset.mem_univ a⟩
  simpa [powers] using hmem

/-! ## The field -/

theorem power254_eq_pow (a : GF256) : a.power254 = a ^ 254 := by
  unfold power254
  ring

theorem mul_power254 {a : GF256} (ha : a ≠ 0) : a * a.power254 = 1 := by
  obtain ⟨k, -, rfl⟩ := exists_generator_pow_eq ha
  calc
    generator ^ k * (generator ^ k).power254 = (generator ^ k) ^ 255 := by
      rw [power254_eq_pow, ← pow_succ']
    _ = (generator ^ 255) ^ k := by
      rw [← pow_mul, ← pow_mul, mul_comm]
    _ = 1 := by
      rw [generator_pow_order, one_pow]

theorem power254_zero : power254 0 = 0 := by
  rw [power254_eq_pow, zero_pow (by decide)]

end GF256
end Quorum

-- Outside of the namespace, in which a field is a part of a sealed object.
instance : Field Quorum.GF256 where
  inv := Quorum.GF256.power254
  exists_pair_ne := ⟨0, 1, by decide⟩
  mul_inv_cancel _ := Quorum.GF256.mul_power254
  inv_zero := Quorum.GF256.power254_zero
  nnqsmul := _
  qsmul := _

namespace Quorum
namespace GF256

theorem inv?_of_ne_zero {a : GF256} (ha : a ≠ 0) : inv? a = some a⁻¹ := if_neg ha

theorem div?_of_ne_zero (a : GF256) {b : GF256} (hb : b ≠ 0) : div? a b = some (a / b) := by
  rw [div?, inv?_of_ne_zero hb, Option.map_some, div_eq_mul_inv]

end GF256
end Quorum
