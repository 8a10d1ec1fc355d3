import Quorum.Bytes

/-!
# Pairing suites

Identity-based encryption needs three groups of the same prime order with a
pairing between them, a hash function into the first group and encodings of the
elements.  Everything that is built on them is stated for an arbitrary suite;
what a proof may rely on is collected in `PairingSuite.Lawful`.
-/

namespace Quorum

/-- Groups with a pairing. -/
structure PairingSuite where
  /-- The first source group, in which keys are issued. -/
  G1 : Type
  /-- The second source group, which holds public keys. -/
  G2 : Type
  /-- The group in which the pairing takes its values. -/
  Gt : Type
  decEqG1 : DecidableEq G1
  decEqG2 : DecidableEq G2
  decEqGt : DecidableEq Gt
  /-- The order of the groups. -/
  order : Nat
  order_le : order ≤ Nat.pow 2 255
  /-- The neutral element of the second group. -/
  infinity : G2
  /-- The generator of the second group. -/
  generator : G2
  /-- The sum of a number of copies of an element of the first group. -/
  mul1 : Nat → G1 → G1
  /-- The sum of a number of copies of an element of the second group. -/
  mul2 : Nat → G2 → G2
  /-- The element of the first group for a message under a domain separation
  tag. -/
  hash : (tag message : List UInt8) → G1
  pairing : G1 → G2 → Gt
  encode1 : G1 → Bytes 48
  decode1? : Bytes 48 → Option G1
  encode2 : G2 → Bytes 96
  decode2? : Bytes 96 → Option G2
  /-- The compressed form of a pairing value; the value one has none. -/
  compress? : Gt → Option (List UInt8)

namespace PairingSuite

attribute [instance] decEqG1 decEqG2 decEqGt

/-- A number below the order of the groups. -/
abbrev Scalar (suite : PairingSuite) := Fin suite.order

/-- The laws of a suite: a factor of either argument of the pairing is an
exponent of its value, and decoding undoes encoding. -/
structure Lawful (suite : PairingSuite) : Prop where
  pairing_mul : ∃ power : suite.Gt → Nat → suite.Gt, ∀ x y n,
    suite.pairing (suite.mul1 n x) y = power (suite.pairing x y) n ∧
      suite.pairing x (suite.mul2 n y) = power (suite.pairing x y) n
  decode1_encode1 : ∀ x, suite.decode1? (suite.encode1 x) = some x
  decode2_encode2 : ∀ y, suite.decode2? (suite.encode2 y) = some y

/-- The first law for scalars alone, which is all that masks need. -/
def Bilinear (suite : PairingSuite) : Prop :=
  ∃ power : suite.Gt → suite.Scalar → suite.Gt, ∀ x y (r : suite.Scalar),
    suite.pairing x (suite.mul2 r.val y) = power (suite.pairing x y) r ∧
      suite.pairing (suite.mul1 r.val x) y = power (suite.pairing x y) r

/-- A scalar can be moved to the generator from the other argument of the pairing, which
is all that a key and a proof of possession need to verify. -/
def Balanced (suite : PairingSuite) : Prop :=
  ∀ x (s : suite.Scalar), suite.pairing (suite.mul1 s.val x) suite.generator =
    suite.pairing x (suite.mul2 s.val suite.generator)

theorem Lawful.bilinear {suite : PairingSuite} (h : suite.Lawful) : suite.Bilinear := by
  obtain ⟨power, hpower⟩ := h.pairing_mul
  exact ⟨fun value r => power value r.val, fun x y r => (hpower x y r.val).symm⟩

theorem Bilinear.balanced {suite : PairingSuite} (h : suite.Bilinear) : suite.Balanced := by
  obtain ⟨power, hpower⟩ := h
  intro x s
  rw [(hpower x _ s).2, (hpower x _ s).1]

end PairingSuite
end Quorum
