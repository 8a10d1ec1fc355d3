import Quorum.Bls.Field

/-!
# Points of the curves `y² = x³ + b`

Both pairing groups are groups of points of such a curve, the first over `Fp`
and the second over `Fp2`.  Points are kept in affine form; multiples are
computed in Jacobian coordinates, where `(X, Y, Z)` stands for the affine point
`(X / Z², Y / Z³)` and `Z = 0` for the point at infinity.
-/

namespace Quorum
namespace Bls

/-- A point in affine form. -/
inductive Point (K : Type) where
  | infinity
  | affine (x y : K)
deriving DecidableEq

/-- A point in Jacobian coordinates. -/
structure Jacobian (K : Type) where
  x : K
  y : K
  z : K

/-- The binary digits of a number, the most significant one first. -/
def binaryDigits (n : Nat) : List Bool :=
  if n = 0 then [] else binaryDigits (n / 2) ++ [decide (n % 2 = 1)]
termination_by n

section

variable {K : Type} [CoordinateField K] [DecidableEq K]

namespace Jacobian

/-- The point at infinity. -/
def infinity : Jacobian K := ⟨1, 1, 0⟩

/-- The sum of a point with itself. -/
def double (p : Jacobian K) : Jacobian K :=
  let a := p.x * p.x
  let b := p.y * p.y
  let c := b * b
  let s := p.x + b
  let d' := s * s - a - c
  let d := d' + d'
  let e := a + a + a
  let x := e * e - (d + d)
  let c2 := c + c
  let c4 := c2 + c2
  let yz := p.y * p.z
  ⟨x, e * (d - x) - (c4 + c4), yz + yz⟩

/-- The sum of a point with the affine point `(x, y)`. -/
def addAffine (p : Jacobian K) (x y : K) : Jacobian K :=
  if p.z = 0 then ⟨x, y, 1⟩
  else
    let zz := p.z * p.z
    let h := x * zz - p.x
    let s := y * zz * p.z - p.y
    if h = 0 then if s = 0 then p.double else infinity
    else
      let hh := h * h
      let hhh := h * hh
      let v := p.x * hh
      let x3 := s * s - hhh - (v + v)
      ⟨x3, s * (v - x3) - p.y * hhh, p.z * h⟩

/-- The same point in affine form. -/
def toPoint (p : Jacobian K) : Point K :=
  if p.z = 0 then .infinity
  else
    let w := CoordinateField.inverse p.z
    let ww := w * w
    .affine (p.x * ww) (p.y * (ww * w))

end Jacobian

namespace Point

/-- Whether a point lies on the curve. -/
def OnCurve : Point K → Prop
  | infinity => True
  | affine x y => y * y = x * x * x + CoordinateField.constant

instance (p : Point K) : Decidable p.OnCurve := by
  cases p <;> unfold OnCurve <;> infer_instance

/-- The multiple `n • (x, y)` in Jacobian coordinates, by doubling and
adding. -/
def multiple (n : Nat) (x y : K) : Jacobian K :=
  (binaryDigits n).foldl
    (fun sum digit => if digit then sum.double.addAffine x y else sum.double)
    Jacobian.infinity

/-- The sum of `n` copies of a point. -/
def mul (n : Nat) : Point K → Point K
  | infinity => infinity
  | affine x y => (multiple n x y).toPoint

/-- The sum of two points. -/
def add : Point K → Point K → Point K
  | infinity, q => q
  | p, infinity => p
  | affine x y, affine x' y' => (Jacobian.addAffine ⟨x, y, 1⟩ x' y').toPoint

/-- The point with the opposite ordinate. -/
def neg : Point K → Point K
  | infinity => infinity
  | affine x y => affine x (-y)

/-- Whether a point lies on the curve and its order divides the order of the
pairing groups. -/
def InSubgroup (p : Point K) : Prop :=
  match p with
  | infinity => True
  | affine x y => (affine x y).OnCurve ∧ (multiple groupOrder x y).z = 0

instance (p : Point K) : Decidable p.InSubgroup := by
  cases p <;> unfold InSubgroup <;> infer_instance

end Point
end
end Bls
end Quorum
