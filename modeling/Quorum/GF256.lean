/-!
# The field with 256 elements

Bytes are read as polynomials over the field of two elements, modulo
`x⁸ + x⁴ + x³ + x + 1`.  Addition is exclusive or.  A product is added up from
the multiples of one factor by the powers of `x` that occur in the other, so it
is linear in both factors; the inverse of an element is its power with exponent
254, which is zero for zero.
-/

namespace Quorum

/-- An element of the field with 256 elements. -/
structure GF256 where
  byte : UInt8
deriving DecidableEq

namespace GF256

/-- The product of a polynomial with `x`. -/
def timesX (byte : UInt8) : UInt8 :=
  if byte &&& 0x80 = 0 then byte <<< 1 else byte <<< 1 ^^^ 0x1b

/-- The sum of `a · xᵏ` over the set bits `k` of `b`, of which the lowest
`count` are taken. -/
def sumOfMultiples : (count : Nat) → (a b : UInt8) → UInt8
  | 0, _, _ => 0
  | count + 1, a, b =>
    (if b &&& 1 = 1 then a else 0) ^^^ sumOfMultiples count (timesX a) (b >>> 1)

/-- The sum. -/
def add (a b : GF256) : GF256 := ⟨a.byte ^^^ b.byte⟩

/-- The product. -/
def mul (a b : GF256) : GF256 := ⟨sumOfMultiples 8 a.byte b.byte⟩

instance : Zero GF256 := ⟨⟨0⟩⟩

instance : One GF256 := ⟨⟨1⟩⟩

instance : Add GF256 := ⟨add⟩

/-- In characteristic two a difference is a sum. -/
instance : Sub GF256 := ⟨add⟩

instance : Mul GF256 := ⟨mul⟩

/-- The power with exponent 254, by way of the exponents 2, 3, 12, 14, 15 and
240. -/
def power254 (a : GF256) : GF256 :=
  let a2 := a * a
  let a3 := a2 * a
  let a6 := a3 * a3
  let a12 := a6 * a6
  let a14 := a12 * a2
  let a15 := a12 * a3
  let a30 := a15 * a15
  let a60 := a30 * a30
  let a120 := a60 * a60
  let a240 := a120 * a120
  a240 * a14

/-- The inverse of an element other than zero. -/
def inv? (a : GF256) : Option GF256 := if a = 0 then none else some a.power254

/-- The quotient, where the divisor is not zero. -/
def div? (a b : GF256) : Option GF256 := (inv? b).map (a * ·)

end GF256
end Quorum
