import Mathlib.Logic.Function.Basic
import Quorum.Proofs.GF256.Field

/-!
# Multiplication by tables

A product can be looked up instead of being added up: exponents of the generator
are added modulo 255.  The tables of powers and exponents are filled by a loop
that enters one power after the other and multiplies it with the generator.

The invariant of that loop says which entries are right after a number of steps.
An entry is never overwritten, since the first 255 powers are distinct.  The
results are that looking up agrees with `mul` and with `inv?` everywhere.
-/

namespace Quorum
namespace GF256

/-- Powers of the generator by exponent and exponents by power, with an entry for
every byte. -/
structure Tables where
  powers : UInt8 → UInt8
  exponents : UInt8 → UInt8
  /-- The power that is entered next. -/
  next : UInt8

namespace Tables

/-- The tables before anything is entered. -/
def initial : Tables := ⟨fun _ => 0, fun _ => 0, 1⟩

/-- Enters the next power and multiplies it with the generator. -/
def enter (tables : Tables) (exponent : UInt8) : Tables where
  powers := Function.update tables.powers exponent tables.next
  exponents := Function.update tables.exponents tables.next exponent
  next := tables.next ^^^ timesX tables.next

/-- The tables after a number of steps. -/
def filled : (count : Nat) → Tables
  | 0 => initial
  | count + 1 => (filled count).enter (UInt8.ofNat count)

/-- The tables of all powers. -/
def full : Tables :=
  let tables := filled 255
  { tables with powers := Function.update tables.powers 255 (tables.powers 0) }

/-- The product of two bytes by way of their exponents. -/
def product (tables : Tables) (a b : GF256) : GF256 :=
  if a = 0 ∨ b = 0 then 0
  else
    let sum := (tables.exponents a.byte).toNat + (tables.exponents b.byte).toNat
    ⟨tables.powers (UInt8.ofNat (sum % 255))⟩

/-- The inverse of an element other than zero by way of its exponent. -/
def inverse? (tables : Tables) (a : GF256) : Option GF256 :=
  if a = 0 then none
  else some ⟨tables.powers (UInt8.ofNat ((255 - (tables.exponents a.byte).toNat) % 255))⟩

/-- The powers with exponents below `count` are entered in both directions, and
the next one is at hand. -/
structure Holds (tables : Tables) (count : Nat) : Prop where
  next_eq : tables.next = (generator ^ count).byte
  powers_eq : ∀ k < count, tables.powers (UInt8.ofNat k) = (generator ^ k).byte
  exponents_eq : ∀ k < count, tables.exponents (generator ^ k).byte = UInt8.ofNat k

theorem byte_mul_generator (a : GF256) : (a * generator).byte = a.byte ^^^ timesX a.byte := by
  have hdigits : (3 : UInt8) &&& 1 = 1 ∧ (3 : UInt8) >>> 1 = 1 ∧ (1 : UInt8) >>> 1 = 0 := by
    decide
  simp [byte_mul, generator, sumOfMultiples, hdigits]

theorem holds_initial : Holds initial 0 where
  next_eq := rfl
  powers_eq _ hk := absurd hk (Nat.not_lt_zero _)
  exponents_eq _ hk := absurd hk (Nat.not_lt_zero _)

theorem ofNat_ne_ofNat {k count : Nat} (hk : k < count) (hcount : count < 256) :
    UInt8.ofNat k ≠ UInt8.ofNat count := by
  intro heq
  have hval := congrArg UInt8.toNat heq
  rw [UInt8.toNat_ofNat_of_lt' (show k < 256 by omega),
    UInt8.toNat_ofNat_of_lt' (show count < 256 by omega)] at hval
  omega

/-- One step keeps what is entered and adds the next power. -/
theorem Holds.enter {tables : Tables} {count : Nat} (h : Holds tables count)
    (hcount : count < 255) : Holds (tables.enter (UInt8.ofNat count)) (count + 1) where
  next_eq := by
    rw [pow_succ, byte_mul_generator, ← h.next_eq]
    rfl
  powers_eq k hk := by
    rcases Nat.lt_succ_iff_lt_or_eq.1 hk with hlt | rfl
    · rw [← h.powers_eq k hlt]
      exact Function.update_of_ne (ofNat_ne_ofNat hlt (by omega)) _ _
    · rw [← h.next_eq]
      exact Function.update_self _ _ _
  exponents_eq k hk := by
    rcases Nat.lt_succ_iff_lt_or_eq.1 hk with hlt | rfl
    · -- The powers differ, so the new entry leaves the old one in place.
      have hne : (generator ^ k).byte ≠ tables.next := by
        rw [h.next_eq]
        intro heq
        have hk' : k = count := generator_pow_injOn (Set.mem_Iio.2 (by omega))
          (Set.mem_Iio.2 hcount) (GF256.ext heq)
        omega
      rw [← h.exponents_eq k hlt]
      exact Function.update_of_ne hne _ _
    · rw [← h.next_eq]
      exact Function.update_self _ _ _

theorem holds_filled (count : Nat) (hcount : count ≤ 255) : Holds (filled count) count := by
  induction count with
  | zero => exact holds_initial
  | succ count ih => exact (ih (by omega)).enter (by omega)

theorem powers_full (k : Nat) : full.powers (UInt8.ofNat (k % 255)) = (generator ^ k).byte := by
  have hlt : k % 255 < 255 := Nat.mod_lt k (by decide)
  have hentry := (holds_filled 255 le_rfl).powers_eq (k % 255) hlt
  have hpow : generator ^ (k % 255) = generator ^ k := by
    rw [← orderOf_generator, pow_mod_orderOf]
  rw [hpow] at hentry
  rw [← hentry]
  exact Function.update_of_ne (ofNat_ne_ofNat hlt (by decide)) _ _

theorem exponents_full {k : Nat} (hk : k < 255) :
    (full.exponents (generator ^ k).byte).toNat = k := by
  have hentry := (holds_filled 255 le_rfl).exponents_eq k hk
  rw [show full.exponents = (filled 255).exponents by rfl, hentry]
  exact UInt8.toNat_ofNat_of_lt' (show k < 256 by omega)

/-- Looking up a product gives the product. -/
theorem product_full (a b : GF256) : full.product a b = a * b := by
  by_cases hzero : a = 0 ∨ b = 0
  · rw [product, if_pos hzero]
    rcases hzero with rfl | rfl
    · rw [zero_mul]
    · rw [mul_zero]
  · obtain ⟨ha, hb⟩ := not_or.1 hzero
    obtain ⟨i, hi, rfl⟩ := exists_generator_pow_eq ha
    obtain ⟨j, hj, rfl⟩ := exists_generator_pow_eq hb
    rw [product, if_neg hzero]
    apply GF256.ext
    simp only [exponents_full hi, exponents_full hj, powers_full, pow_add]

/-- Looking up an inverse gives the inverse. -/
theorem inverse?_full (a : GF256) : full.inverse? a = inv? a := by
  by_cases ha : a = 0
  · rw [inverse?, inv?, if_pos ha, if_pos ha]
  · rw [inv?_of_ne_zero ha, inverse?, if_neg ha]
    obtain ⟨k, hk, rfl⟩ := exists_generator_pow_eq ha
    have hpow : generator ^ (255 - k) = (generator ^ k)⁻¹ := by
      apply eq_inv_of_mul_eq_one_left
      rw [← pow_add, Nat.sub_add_cancel (by omega), generator_pow_order]
    rw [exponents_full hk, ← hpow]
    exact congrArg some (GF256.ext (powers_full (255 - k)))

end Tables
end GF256
end Quorum
