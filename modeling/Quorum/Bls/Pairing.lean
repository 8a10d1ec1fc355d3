import Quorum.Bls.Extension
import Quorum.Bls.Point

/-!
# The pairing

The pairing of a point `P` of the first curve with a point `Q` of the second is
computed in two stages.  Miller's loop multiplies up the lines that occur while
a multiple of `Q` is computed, each evaluated at `P`; the final exponentiation
raises the product to three times the cofactor `(p¹² - 1) / r`.  The result is
the cube of the reduced ate pairing; it is `1` whenever one of the two points is
the point at infinity.
-/

namespace Quorum
namespace Bls

namespace Fp12

/-- `(1 + u)^((prime - 1) / 6)`, the factor that Frobenius puts before `w`. -/
def frobeniusFactor : Fp2 := power ⟨1, 1⟩ ((prime - 1) / 6)

/-- The powers of `frobeniusFactor` with exponents one to five. -/
def frobeniusFactors : Fp2 × Fp2 × Fp2 × Fp2 × Fp2 :=
  let g := frobeniusFactor
  let g2 := g * g
  (g, g2, g2 * g, g2 * g2, g2 * g2 * g)

/-- The power with exponent `prime`. -/
def frobenius (x : Fp12) : Fp12 :=
  let (g1, g2, g3, g4, g5) := frobeniusFactors
  ⟨⟨x.c0.c0.conjugate, x.c0.c1.conjugate * g2, x.c0.c2.conjugate * g4⟩,
    ⟨x.c1.c0.conjugate * g1, x.c1.c1.conjugate * g3, x.c1.c2.conjugate * g5⟩⟩

/-- The square of `a + b · s` where `s² = 1 + u`. -/
def squareQuartic (a b : Fp2) : Fp2 × Fp2 :=
  let aa := a.square
  let bb := b.square
  (bb.mulByNonResidue + aa, (a + b).square - aa - bb)

/-- The square of an element whose order divides `p⁴ - p² + 1`. -/
def squareCyclotomic (x : Fp12) : Fp12 :=
  let tripleMinus (t z : Fp2) : Fp2 := let d := t - z; d + d + t
  let triplePlus (t z : Fp2) : Fp2 := let d := t + z; d + d + t
  let (a0, a1) := squareQuartic x.c0.c0 x.c1.c1
  let (b0, b1) := squareQuartic x.c1.c0 x.c0.c2
  let (c0, c1) := squareQuartic x.c0.c1 x.c1.c2
  ⟨⟨tripleMinus a0 x.c0.c0, tripleMinus b0 x.c0.c1, tripleMinus c0 x.c0.c2⟩,
    ⟨triplePlus c1.mulByNonResidue x.c1.c0, triplePlus a1 x.c1.c1, triplePlus b1 x.c1.c2⟩⟩

/-- The power whose exponent is the curve parameter, which is negative.  The
base must have an order that divides `p⁴ - p² + 1`; its inverse is then its
conjugate. -/
def powParameter (x : Fp12) : Fp12 :=
  ((binaryDigits parameter).foldl
    (fun (y : Fp12) (digit : Bool) =>
      if digit then y.squareCyclotomic * x else y.squareCyclotomic) 1).conjugate

/-- The power with exponent `3 (p¹² - 1) / r`.  With `z` for the curve
parameter, the part of the exponent that is left after `(p⁶ - 1)(p² + 1)` is
`(z - 1)² (z + p) (z² + p² - 1) + 3`. -/
def finalExponentiation (f : Fp12) : Fp12 :=
  let f := f.conjugate * f.inverse
  let m := f.frobenius.frobenius * f
  let a := m.powParameter * m.conjugate
  let b := a.powParameter * a.conjugate
  let c := b.powParameter * b.frobenius
  let d := c.powParameter.powParameter * c.frobenius.frobenius * c.conjugate
  d * (m * m.squareCyclotomic)

end Fp12

namespace Miller

/-- The coefficients of `1`, `v` and `v w` in a line evaluated at a point. -/
structure Line where
  a : Fp2
  b : Fp2
  c : Fp2

/-- The tangent at a point, evaluated at `(x, y)`. -/
def tangent (t : Jacobian Fp2) (x y : Fp) : Line :=
  let xx := t.x.square
  let xx3 := xx + xx + xx
  let yy := t.y.square
  let zz := t.z.square
  let yz3 := t.y * (zz * t.z)
  ⟨t.x * xx3 - (yy + yy), -((xx3 * zz).scale x), (yz3 + yz3).scale y⟩

/-- The line through a point and the affine point `(qx, qy)`, evaluated at
`(x, y)`. -/
def chord (t : Jacobian Fp2) (qx qy : Fp2) (x y : Fp) : Line :=
  let zz := t.z.square
  let s := qy * (zz * t.z) - t.y
  let h := (qx * zz - t.x) * t.z
  ⟨s * qx - qy * h, -(s.scale x), h.scale y⟩

/-- The product of a value with a line. -/
def Line.times (l : Line) (f : Fp12) : Fp12 := f.mulByLine l.a l.b l.c

/-- One step of the loop: a doubling and, where the digit is set, an
addition. -/
def step (x y : Fp) (qx qy : Fp2) (state : Fp12 × Jacobian Fp2) (digit : Bool) :
    Fp12 × Jacobian Fp2 :=
  let (f, t) := state
  let f := (tangent t x y).times f.square
  let t := t.double
  if digit then ((chord t qx qy x y).times f, t.addAffine qx qy) else (f, t)

/-- The product of the lines over the digits of the parameter below its leading
one. -/
def loop (x y : Fp) (qx qy : Fp2) : Fp12 :=
  ((binaryDigits parameter).tail.foldl (step x y qx qy) (1, ⟨qx, qy, 1⟩)).1.conjugate

end Miller

/-- The pairing of two points. -/
def pairing : Point Fp → Point Fp2 → Fp12
  | .affine x y, .affine qx qy => (Miller.loop x y qx qy).finalExponentiation
  | _, _ => 1

end Bls
end Quorum
