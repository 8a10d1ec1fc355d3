import Quorum.Bls.Field

/-!
# The tower of extension fields

The pairing takes its values in an extension of degree twelve over the base
field, reached in three steps:

* `Fp2` adjoins `u` with `u² = -1`;
* `Fp6` adjoins `v` with `v³ = 1 + u`;
* `Fp12` adjoins `w` with `w² = v`.

Products are written so that few reductions modulo the prime are needed.
-/

namespace Quorum
namespace Bls

/-- `c0 + c1 · u` with `u² = -1`. -/
structure Fp2 where
  c0 : Fp
  c1 : Fp
deriving DecidableEq

namespace Fp2

instance : Zero Fp2 := ⟨⟨0, 0⟩⟩

instance : One Fp2 := ⟨⟨1, 0⟩⟩

/-- The sum. -/
def add (x y : Fp2) : Fp2 := ⟨x.c0 + y.c0, x.c1 + y.c1⟩

/-- The difference. -/
def sub (x y : Fp2) : Fp2 := ⟨x.c0 - y.c0, x.c1 - y.c1⟩

/-- The negative. -/
def neg (x : Fp2) : Fp2 := ⟨-x.c0, -x.c1⟩

/-- The product, with one reduction for each coordinate. -/
def mul (x y : Fp2) : Fp2 :=
  ⟨Fin.ofNat prime (x.c0.val * y.c0.val + (prime * prime - x.c1.val * y.c1.val)),
    Fin.ofNat prime (x.c0.val * y.c1.val + x.c1.val * y.c0.val)⟩

instance : Add Fp2 := ⟨add⟩

instance : Sub Fp2 := ⟨sub⟩

instance : Neg Fp2 := ⟨neg⟩

instance : Mul Fp2 := ⟨mul⟩

/-- The square, as `(c0 + c1)(c0 - c1) + 2 c0 c1 · u`. -/
def square (x : Fp2) : Fp2 :=
  ⟨Fin.ofNat prime ((x.c0.val + x.c1.val) * (x.c0.val + (prime - x.c1.val))),
    Fin.ofNat prime (2 * (x.c0.val * x.c1.val))⟩

/-- The product with an element of the base field. -/
def scale (x : Fp2) (k : Fp) : Fp2 := ⟨x.c0 * k, x.c1 * k⟩

/-- The image under the automorphism that sends `u` to `-u`, which is the
Frobenius automorphism. -/
def conjugate (x : Fp2) : Fp2 := ⟨x.c0, -x.c1⟩

/-- The product with `1 + u`. -/
def mulByNonResidue (x : Fp2) : Fp2 := ⟨x.c0 - x.c1, x.c0 + x.c1⟩

/-- The inverse, through the norm in the base field. -/
def inverse (x : Fp2) : Fp2 :=
  let norm := Fp.inverse (x.c0 * x.c0 + x.c1 * x.c1)
  ⟨x.c0 * norm, -(x.c1 * norm)⟩

/-- Elements are compared by the coordinate of `u`, and by the other one where
that is zero. -/
def isLarger (x : Fp2) : Bool :=
  if x.c1 = 0 then Fp.isLarger x.c0 else Fp.isLarger x.c1

/-- A square root, found with two powers in a field whose characteristic is 3
modulo 4. -/
def sqrt? (x : Fp2) : Option Fp2 :=
  let candidate := power x ((prime - 3) / 4)
  let start := candidate * x
  let sign := candidate * start
  let root :=
    if sign = ⟨-1, 0⟩ then ⟨-start.c1, start.c0⟩
    else power (1 + sign) ((prime - 1) / 2) * start
  if root * root = x then some root else none

instance : CoordinateField Fp2 where
  inverse := inverse
  constant := ⟨4, 4⟩
  isLarger := isLarger
  sqrt? := sqrt?

end Fp2

/-- `c0 + c1 · v + c2 · v²` with `v³ = 1 + u`. -/
structure Fp6 where
  c0 : Fp2
  c1 : Fp2
  c2 : Fp2
deriving DecidableEq

namespace Fp6

instance : Zero Fp6 := ⟨⟨0, 0, 0⟩⟩

instance : One Fp6 := ⟨⟨1, 0, 0⟩⟩

/-- The sum. -/
def add (x y : Fp6) : Fp6 := ⟨x.c0 + y.c0, x.c1 + y.c1, x.c2 + y.c2⟩

/-- The difference. -/
def sub (x y : Fp6) : Fp6 := ⟨x.c0 - y.c0, x.c1 - y.c1, x.c2 - y.c2⟩

/-- The negative. -/
def neg (x : Fp6) : Fp6 := ⟨-x.c0, -x.c1, -x.c2⟩

/-- The product, with six products in `Fp2`. -/
def mul (x y : Fp6) : Fp6 :=
  let p0 := x.c0 * y.c0
  let p1 := x.c1 * y.c1
  let p2 := x.c2 * y.c2
  ⟨p0 + ((x.c1 + x.c2) * (y.c1 + y.c2) - p1 - p2).mulByNonResidue,
    (x.c0 + x.c1) * (y.c0 + y.c1) - p0 - p1 + p2.mulByNonResidue,
    (x.c0 + x.c2) * (y.c0 + y.c2) - p0 - p2 + p1⟩

instance : Add Fp6 := ⟨add⟩

instance : Sub Fp6 := ⟨sub⟩

instance : Neg Fp6 := ⟨neg⟩

instance : Mul Fp6 := ⟨mul⟩

/-- The product with `v`. -/
def mulByV (x : Fp6) : Fp6 := ⟨x.c2.mulByNonResidue, x.c0, x.c1⟩

/-- The product with an element of `Fp2`. -/
def scale (x : Fp6) (k : Fp2) : Fp6 := ⟨x.c0 * k, x.c1 * k, x.c2 * k⟩

/-- The product with `a + b · v`. -/
def mulByLinear (x : Fp6) (a b : Fp2) : Fp6 :=
  let p0 := x.c0 * a
  let p1 := x.c1 * b
  ⟨p0 + (x.c2 * b).mulByNonResidue,
    (x.c0 + x.c1) * (a + b) - p0 - p1,
    x.c2 * a + p1⟩

/-- The inverse, through the norm in `Fp2`. -/
def inverse (x : Fp6) : Fp6 :=
  let t0 := x.c0.square - (x.c1 * x.c2).mulByNonResidue
  let t1 := x.c2.square.mulByNonResidue - x.c0 * x.c1
  let t2 := x.c1.square - x.c0 * x.c2
  let norm := x.c0 * t0 + (x.c2 * t1 + x.c1 * t2).mulByNonResidue
  scale ⟨t0, t1, t2⟩ norm.inverse

end Fp6

/-- `c0 + c1 · w` with `w² = v`. -/
structure Fp12 where
  c0 : Fp6
  c1 : Fp6
deriving DecidableEq

namespace Fp12

instance : One Fp12 := ⟨⟨1, 0⟩⟩

/-- The product, with three products in `Fp6`. -/
def mul (x y : Fp12) : Fp12 :=
  let p0 := x.c0 * y.c0
  let p1 := x.c1 * y.c1
  ⟨p0 + p1.mulByV, (x.c0 + x.c1) * (y.c0 + y.c1) - p0 - p1⟩

instance : Mul Fp12 := ⟨mul⟩

/-- The square, with two products in `Fp6`. -/
def square (x : Fp12) : Fp12 :=
  let cross := x.c0 * x.c1
  ⟨(x.c0 + x.c1) * (x.c0 + x.c1.mulByV) - cross - cross.mulByV, cross + cross⟩

/-- The image under the automorphism that sends `w` to `-w`. -/
def conjugate (x : Fp12) : Fp12 := ⟨x.c0, -x.c1⟩

/-- The inverse, through the norm in `Fp6`. -/
def inverse (x : Fp12) : Fp12 :=
  let norm := (x.c0 * x.c0 - (x.c1 * x.c1).mulByV).inverse
  ⟨x.c0 * norm, -(x.c1 * norm)⟩

/-- The product with `(a + b · v) + (c · v) · w`, the shape of a line
evaluated at a point. -/
def mulByLine (x : Fp12) (a b c : Fp2) : Fp12 :=
  let p0 := x.c0.mulByLinear a b
  let p1 := (x.c1.scale c).mulByV
  ⟨p0 + p1.mulByV, (x.c0 + x.c1).mulByLinear a (b + c) - p0 - p1⟩

end Fp12
end Bls
end Quorum
