import Quorum.Bls.HashToG1
import Quorum.Bls.Pairing
import Quorum.PairingSuite

/-!
# The pairing suite of BLS12-381

A value of the pairing lies in a torus, where `c0 + c1 · w` is determined by the
quotient `(c0 + 1) / c1` in `Fp6`.  The compressed form is that quotient; it does
not exist for the value one.
-/

namespace Quorum
namespace Bls

/-- The coordinates of an element of `Fp2`, little-endian. -/
def Fp2.littleEndianBytes (x : Fp2) : List UInt8 :=
  littleEndian 48 x.c0.val ++ littleEndian 48 x.c1.val

/-- The compressed form of a pairing value. -/
def Fp12.compress? (x : Fp12) : Option (List UInt8) :=
  if x.c1 = 0 then none
  else
    let b := (x.c0 + 1) * x.c1.inverse
    some (b.c0.littleEndianBytes ++ b.c1.littleEndianBytes ++ b.c2.littleEndianBytes)

/-- The groups of BLS12-381. -/
def suite : PairingSuite where
  G1 := G1
  G2 := G2
  Gt := Fp12
  decEqG1 := inferInstance
  decEqG2 := inferInstance
  decEqGt := inferInstance
  order := groupOrder
  order_le := by decide
  infinity := Member.infinity
  generator := G2.generator
  mul1 := Member.mul
  mul2 := Member.mul
  hash := HashToG1.hash
  pairing p q := pairing p.point q.point
  encode1 := G1.encode
  decode1? := G1.decode?
  encode2 := G2.encode
  decode2? := G2.decode?
  compress? := Fp12.compress?

end Bls
end Quorum
