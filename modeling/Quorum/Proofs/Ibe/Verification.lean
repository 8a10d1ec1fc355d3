import Quorum.Proofs.Ibe.Masking

/-!
# Keys that verify

A key is verified with the generator, while a mask is taken off with an encapsulation.
An encapsulation is a multiple of the generator, so the two pairings differ by an
exponent, and a key that verifies takes off every mask that was made for its public
key.  How the key was made does not matter.
-/

namespace Quorum
namespace Ibe

variable {suite : PairingSuite}

theorem decode1_eq_ok_iff {bytes : Bytes 48} {x : suite.G1} :
    decode1 suite bytes = .ok x ↔ suite.decode1? bytes = some x := by
  cases hdecode : suite.decode1? bytes with
  | none => simp [decode1, hdecode]
  | some y => simp [decode1, hdecode]

theorem decode2_eq_ok_iff {bytes : Bytes 96} {y : suite.G2} :
    decode2 suite bytes = .ok y ↔ suite.decode2? bytes = some y := by
  cases hdecode : suite.decode2? bytes with
  | none => simp [decode2, hdecode]
  | some z => simp [decode2, hdecode]

theorem decode1_eq_error_iff {bytes : Bytes 48} {error : SealingError} :
    decode1 suite bytes = .error error ↔
      suite.decode1? bytes = none ∧ error = .invalidG1Point := by
  cases hdecode : suite.decode1? bytes with
  | none => simp [decode1, hdecode, eq_comm]
  | some y => simp [decode1, hdecode]

theorem decode2_eq_error_iff {bytes : Bytes 96} {error : SealingError} :
    decode2 suite bytes = .error error ↔
      suite.decode2? bytes = none ∧ error = .invalidG2Point := by
  cases hdecode : suite.decode2? bytes with
  | none => simp [decode2, hdecode, eq_comm]
  | some z => simp [decode2, hdecode]

theorem verifyKey_eq_ok_iff {key : suite.G1} {identity : List UInt8} {publicKey : suite.G2} :
    verifyKey suite key identity publicKey = .ok () ↔
      suite.pairing key suite.generator =
        suite.pairing (hashIdentity suite identity) publicKey := by
  simp [verifyKey]

theorem unmasks_of_bilinear (hsuite : suite.Bilinear) {key : suite.G1}
    {identity : List UInt8} {publicKey : suite.G2}
    (hverify : verifyKey suite key identity publicKey = .ok ()) :
    Unmasks suite key identity publicKey := by
  obtain ⟨power, hpower⟩ := hsuite
  intro r
  calc
    suite.pairing key (suite.mul2 r.val suite.generator)
    _ = power (suite.pairing key suite.generator) r := (hpower _ _ _).1
    _ = power (suite.pairing (hashIdentity suite identity) publicKey) r := by
      rw [verifyKey_eq_ok_iff.1 hverify]
    _ = suite.pairing (suite.mul1 r.val (hashIdentity suite identity)) publicKey :=
      (hpower _ _ _).2.symm

theorem unmasks_of_verifyKey (hsuite : suite.Lawful) {key : suite.G1} {identity : List UInt8}
    {publicKey : suite.G2} (hverify : verifyKey suite key identity publicKey = .ok ()) :
    Unmasks suite key identity publicKey :=
  unmasks_of_bilinear hsuite.bilinear hverify

theorem verifyKey_extract_of_balanced (hsuite : suite.Balanced) (masterKey : suite.Scalar)
    (identity : List UInt8) :
    verifyKey suite (extract suite masterKey identity) identity (publicKey suite masterKey) =
      .ok () :=
  verifyKey_eq_ok_iff.2 (hsuite _ masterKey)

theorem verifyKey_extract (hsuite : suite.Lawful) (masterKey : suite.Scalar)
    (identity : List UInt8) :
    verifyKey suite (extract suite masterKey identity) identity (publicKey suite masterKey) =
      .ok () :=
  verifyKey_extract_of_balanced hsuite.bilinear.balanced masterKey identity

/-! ## Proofs of possession -/

theorem verifyPossession_eq_ok_iff {publicKey : suite.G2} {server : ObjectId} {url : String}
    {proof : suite.G1} :
    verifyPossession suite publicKey server url proof = .ok () ↔
      suite.pairing proof suite.generator = suite.pairing
        (suite.hash possessionTag (possessionMessage suite publicKey server url)) publicKey := by
  simp [verifyPossession]

theorem verifyPossession_of_balanced (hsuite : suite.Balanced)
    (masterKey : suite.Scalar) (server : ObjectId) (url : String) :
    verifyPossession suite (publicKey suite masterKey) server url
      (provePossession suite masterKey server url) = .ok () :=
  verifyPossession_eq_ok_iff.2 (hsuite _ masterKey)

theorem verifyPossession_provePossession (hsuite : suite.Lawful) (masterKey : suite.Scalar)
    (server : ObjectId) (url : String) :
    verifyPossession suite (publicKey suite masterKey) server url
      (provePossession suite masterKey server url) = .ok () :=
  verifyPossession_of_balanced hsuite.bilinear.balanced masterKey server url

end Ibe
end Quorum
