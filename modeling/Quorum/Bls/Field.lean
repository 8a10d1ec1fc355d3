/-!
# The base field of BLS12-381

Coordinates of points in the first group are residues modulo a 381-bit prime.
This module fixes that prime, the order of the pairing groups and the curve
parameter, and gives what every coordinate field of the curve provides beyond
ring arithmetic: inverses, and the constant of the curve equation
`y² = x³ + b`.
-/

namespace Quorum
namespace Bls

/-- The characteristic of the base field. -/
def prime : Nat :=
  0x1a0111ea397fe69a4b1ba7b6434bacd764774b84f38512bf6730d2a0f6b0f6241eabfffeb153ffffb9feffffffffaaab

/-- The prime order of the three pairing groups. -/
def groupOrder : Nat :=
  0x73eda753299d7d483339d80809a1d80553bda402fffe5bfeffffffff00000001

/-- The absolute value of the (negative) parameter from which the curve is
constructed. -/
def parameter : Nat := 0xd201000000010000

instance : @NeZero Nat Zero.ofOfNat0 prime := ⟨by decide⟩

/-- The field of residues modulo `prime`. -/
abbrev Fp := Fin prime

/-- `x` multiplied with itself `n` times, by repeated squaring. -/
def power {K : Type} [Mul K] [One K] (x : K) (n : Nat) : K :=
  if n = 0 then 1
  else
    let half := power (x * x) (n / 2)
    if n % 2 = 1 then x * half else half
termination_by n

/-- A field in which points of the curve have their coordinates. -/
class CoordinateField (K : Type) extends Add K, Sub K, Mul K, Neg K, Zero K, One K where
  /-- The multiplicative inverse, with `0` sent to `0`. -/
  inverse : K → K
  /-- The constant `b` of the curve equation `y² = x³ + b`. -/
  constant : K
  /-- Whether an element is the larger of itself and its negative. -/
  isLarger : K → Bool
  /-- A square root, if there is one. -/
  sqrt? : K → Option K

namespace Fp

instance : Zero Fp := ⟨0⟩

instance : One Fp := ⟨1⟩

/-- Fermat: the inverse is the power of exponent `prime - 2`. -/
def inverse (x : Fp) : Fp := power x (prime - 2)

/-- Residues above half the prime are larger than their negatives. -/
def isLarger (x : Fp) : Bool := x.val > (prime - 1) / 2

/-- The prime is 3 modulo 4, so a square has the root with exponent
`(prime + 1) / 4`. -/
def sqrt? (x : Fp) : Option Fp :=
  let root := power x ((prime + 1) / 4)
  if root * root = x then some root else none

instance : CoordinateField Fp where
  inverse := inverse
  constant := 4
  isLarger := isLarger
  sqrt? := sqrt?

end Fp
end Bls
end Quorum
