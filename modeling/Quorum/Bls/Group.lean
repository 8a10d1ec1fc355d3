import Quorum.Bls.Extension
import Quorum.Bls.Point
import Quorum.Bytes

/-!
# The two source groups and their compressed encoding

A group element is a point together with the fact that it lies in the subgroup
of prime order, so no other point can take part in a pairing.

An encoding is the abscissa, big-endian, with three flags in the bits above it:
one that marks compression and is always set, one for the point at infinity,
and one for the larger of the two ordinates.  Reading refuses everything that
writing does not produce.
-/

namespace Quorum
namespace Bls

/-- An element of the subgroup of prime order of a curve. -/
structure Member (K : Type) [CoordinateField K] [DecidableEq K] where
  point : Point K
  inSubgroup : point.InSubgroup

instance {K : Type} [CoordinateField K] [DecidableEq K] : DecidableEq (Member K) :=
  fun p q =>
    if h : p.point = q.point then isTrue (by cases p; cases q; cases h; rfl)
    else isFalse fun e => h (congrArg Member.point e)

/-- The first source group. -/
abbrev G1 := Member Fp

/-- The second source group. -/
abbrev G2 := Member Fp2

namespace Member

variable {K : Type} [CoordinateField K] [DecidableEq K]

/-- The neutral element. -/
def infinity : Member K := ⟨.infinity, trivial⟩

/-- A point as an element of the group, if it is one. -/
def ofPoint? (p : Point K) : Option (Member K) :=
  if h : p.InSubgroup then some ⟨p, h⟩ else none

/-- A point as an element of the group.  It is only used for sums and multiples
of elements, which belong to the group; any other point goes to the neutral
element. -/
def ofPoint (p : Point K) : Member K := (ofPoint? p).getD infinity

/-- The sum of `n` copies of an element. -/
def mul (n : Nat) (p : Member K) : Member K := ofPoint (p.point.mul n)

end Member

/-- The number that the bits below the flags hold at most, plus one. -/
def flagBase : Nat := Nat.pow 2 381

/-- The three flags as a number: compression, infinity, larger ordinate. -/
def flags (infinity larger : Bool) : Nat :=
  4 + (if infinity then 2 else 0) + if larger then 1 else 0

/-- The point with the given abscissa and the larger or smaller ordinate. -/
def liftX? {K : Type} [CoordinateField K] (x : K) (larger : Bool) : Option (Point K) :=
  (CoordinateField.sqrt? (x * x * x + CoordinateField.constant)).map fun y =>
    .affine x (if CoordinateField.isLarger y = larger then y else -y)

/-- A residue that is written with its smallest representative. -/
def Fp.ofNat? (n : Nat) : Option Fp :=
  if h : n < prime then some ⟨n, h⟩ else none

namespace G1

/-- The compressed encoding. -/
def encode (p : G1) : Bytes 48 :=
  match p.point with
  | .infinity => Bytes.ofNat 48 (flags true false * flagBase)
  | .affine x y => Bytes.ofNat 48 (flags false (Fp.isLarger y) * flagBase + x.val)

/-- The element with the given encoding. -/
def decode? (bytes : Bytes 48) : Option G1 :=
  let value := bytes.toNat
  let flag := value / flagBase
  if value = flags true false * flagBase then some Member.infinity
  else if flag = flags false false ∨ flag = flags false true then do
    let x ← Fp.ofNat? (value % flagBase)
    let p ← liftX? x (flag = flags false true)
    Member.ofPoint? p
  else none

end G1

namespace G2

/-- What the coordinate of `u` is multiplied with in an encoding. -/
def upperBase : Nat := Nat.pow 2 384

/-- The compressed encoding; the coordinate of `u` comes first. -/
def encode (p : G2) : Bytes 96 :=
  match p.point with
  | .infinity => Bytes.ofNat 96 (flags true false * flagBase * upperBase)
  | .affine x y =>
    Bytes.ofNat 96
      ((flags false (Fp2.isLarger y) * flagBase + x.c1.val) * upperBase + x.c0.val)

/-- The element with the given encoding. -/
def decode? (bytes : Bytes 96) : Option G2 :=
  let value := bytes.toNat
  let upper := value / upperBase
  let flag := upper / flagBase
  if value = flags true false * flagBase * upperBase then some Member.infinity
  else if flag = flags false false ∨ flag = flags false true then do
    let c1 ← Fp.ofNat? (upper % flagBase)
    let c0 ← Fp.ofNat? (value % upperBase)
    let p ← liftX? (⟨c0, c1⟩ : Fp2) (flag = flags false true)
    Member.ofPoint? p
  else none

/-- The generator of the second group. -/
def generator : G2 :=
  Member.ofPoint (.affine
    ⟨0x024aa2b2f08f0a91260805272dc51051c6e47ad4fa403b02b4510b647ae3d1770bac0326a805bbefd48056c8c121bdb8,
      0x13e02b6052719f607dacd3a088274f65596bd0d09920b61ab5da61bbdc7f5049334cf11213945d57e5ac7d055d042b7e⟩
    ⟨0x0ce5d527727d6e118cc9cdc6da2e351aadfd9baa8cbdd3a76d429a695160d12c923ac9cc3baca289e193548608b82801,
      0x0606c4a02ea734cc32acd2b02bc28b99cb3e287e85a763af267492ab572e99ab3f370d275cec1da1aaa9075ff05f79be⟩)

end G2
end Bls
end Quorum
