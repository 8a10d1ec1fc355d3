import Quorum.Bls.Group
import Quorum.Bls.Isogeny
import Quorum.Sha256

/-!
# Hashing to the first group

A message and a domain separation tag are expanded with SHA-256 to two field
elements; each is sent to a point of the isogenous curve, then to the curve
itself; the sum of the two is multiplied into the subgroup of prime order.
-/

namespace Quorum
namespace Bls
namespace HashToG1

/-- The blocks of the expansion from the one with the given number on, each
computed from the first digest and the block before. -/
def expandFrom (first tag : List UInt8) : (count number : Nat) → List UInt8 → List UInt8
  | 0, _, _ => []
  | count + 1, number, previous =>
    let mixed := List.zipWith (· ^^^ ·) first previous
    let block := (Sha256.hash (mixed ++ UInt8.ofNat number :: tag)).toList
    block ++ expandFrom first tag count (number + 1) block

/-- `32 * count` uniform bytes from a message, for a tag of at most 255
bytes. -/
def expand (message tag : List UInt8) (count : Nat) : List UInt8 :=
  let tag := tag ++ [UInt8.ofNat tag.length]
  let first := (Sha256.hash
    (List.replicate 64 0 ++ message ++ bigEndian 2 (32 * count) ++ 0 :: tag)).toList
  expandFrom first tag count 1 (List.replicate 32 0)

/-- The element of smallest absolute value that makes the map well defined. -/
def z : Fp := 11

/-- Whether the smallest representative is odd. -/
def isOdd (x : Fp) : Bool := x.val % 2 = 1

/-- The point of the isogenous curve that a field element is sent to. -/
def mapToIsogenous (u : Fp) : Fp × Fp :=
  let a := Isogeny.coefficientA
  let b := Isogeny.coefficientB
  let zuu := z * (u * u)
  let t := zuu * zuu + zuu
  let x1 := if t = 0 then b * Fp.inverse (z * a) else -b * Fp.inverse a * (1 + Fp.inverse t)
  let curve (x : Fp) : Fp := (x * x + a) * x + b
  let withSign (x y : Fp) : Fp × Fp := (x, if isOdd u = isOdd y then y else -y)
  match Fp.sqrt? (curve x1) with
  | some y => withSign x1 y
  | none =>
    let x2 := zuu * x1
    withSign x2 ((Fp.sqrt? (curve x2)).getD 0)

/-- The image of a point under the isogeny. -/
def isogeny (x y : Fp) : Point Fp :=
  let xDen := Isogeny.evaluate Isogeny.xDenominator x
  let yDen := Isogeny.evaluate Isogeny.yDenominator x
  if xDen = 0 ∨ yDen = 0 then .infinity
  else
    .affine (Isogeny.evaluate Isogeny.xNumerator x * Fp.inverse xDen)
      (y * Isogeny.evaluate Isogeny.yNumerator x * Fp.inverse yDen)

/-- The point of the curve that a field element is sent to. -/
def mapToCurve (u : Fp) : Point Fp :=
  let (x, y) := mapToIsogenous u
  isogeny x y

/-- The factor that brings every point of the curve into the subgroup. -/
def effectiveCofactor : Nat := parameter + 1

/-- The group element for a message under a tag. -/
def hash (tag message : List UInt8) : G1 :=
  let uniform := expand message tag 4
  let element (bytes : List UInt8) : Fp := Fin.ofNat prime (ofBigEndian bytes)
  let q0 := mapToCurve (element (uniform.take 64))
  let q1 := mapToCurve (element (uniform.drop 64))
  Member.ofPoint ((q0.add q1).mul effectiveCofactor)

end HashToG1
end Bls
end Quorum
