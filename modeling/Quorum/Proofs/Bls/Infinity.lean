import Quorum.Bls.Suite
import Quorum.Proofs.DiscreteLog

/-!
# Points at infinity

The neutral elements of both groups have encodings like all others, and every pairing with
one of them has the value one, which is the value without a compressed form.
-/

namespace Quorum
namespace Bls

theorem G1.decode?_encode_infinity :
    G1.decode? (G1.encode Member.infinity) = some Member.infinity := by
  have hlt : flags true false * flagBase < Nat.pow 256 48 := by decide +kernel
  have hvalue : (G1.encode Member.infinity).toNat = flags true false * flagBase := by
    rw [encode]
    exact Bytes.toNat_ofNat hlt
  simp only [decode?, hvalue, if_true]

theorem G2.decode?_encode_infinity :
    G2.decode? (G2.encode Member.infinity) = some Member.infinity := by
  have hlt : flags true false * flagBase * upperBase < Nat.pow 256 96 := by decide +kernel
  have hvalue : (G2.encode Member.infinity).toNat =
      flags true false * flagBase * upperBase := by
    rw [encode]
    exact Bytes.toNat_ofNat hlt
  simp only [decode?, hvalue, if_true]

theorem decode1?_infinity : suite.decode1? (G1.encode Member.infinity) = some Member.infinity := by
  simp only [suite]
  exact G1.decode?_encode_infinity

theorem decode2?_infinity : suite.decode2? (G2.encode Member.infinity) = some Member.infinity := by
  simp only [suite]
  exact G2.decode?_encode_infinity

theorem pairing_infinity_left (y : G2) : suite.pairing Member.infinity y = (1 : Fp12) := rfl

theorem pairing_infinity_right (x : G1) : suite.pairing x Member.infinity = (1 : Fp12) := by
  obtain ⟨point, hpoint⟩ := x
  cases point with
  | infinity => rfl
  | affine _ _ => rfl

theorem compress?_one : suite.compress? (1 : Fp12) = none := rfl

theorem decode2?_encode2_infinity :
    suite.decode2? (suite.encode2 suite.infinity) = some suite.infinity := decode2?_infinity

theorem compress?_pairing_infinity (x : suite.G1) :
    suite.compress? (suite.pairing x suite.infinity) = none := by
  have hone : suite.pairing x suite.infinity = (1 : Fp12) := pairing_infinity_right x
  exact (congrArg suite.compress? hone).trans compress?_one

/-- The neutral element of the first group is a proof for that of the second, whatever the
server and its address are. -/
theorem verifyPossession_infinity (server : ObjectId) (url : String) :
    Ibe.verifyPossession suite Member.infinity server url Member.infinity = .ok () :=
  Ibe.verifyPossession_eq_ok_iff.2 ((pairing_infinity_left _).trans (pairing_infinity_right _).symm)

end Bls
end Quorum
