import Quorum.Proofs.DiscreteLog

/-!
# Unmasking what has been masked for several servers

One ephemeral scalar serves all servers, so a single encapsulation goes with a list of masked
payloads.  The payload for a server is at the place of its public key, and a key that verifies
under this public key takes the mask off there.

That a key verifies is all that is asked of it.  It need not have been extracted from a master
key, and neither is there a master key behind every public key.
-/

namespace Quorum
namespace Ibe

variable {suite : PairingSuite} {identity : List UInt8} {payloads masked : List Key}
  {publicKeys : List suite.G2} {random rest : RandomSource} {encapsulation : suite.G2}

/-- All payloads are masked with the scalar of the encapsulation, each for the public key at its
own place. -/
theorem exists_masks_of_encrypt
    (hencrypt : encrypt suite identity payloads publicKeys random =
      .ok ((encapsulation, masked), rest)) :
    masked.length = payloads.length ∧ ∃ r : suite.Scalar,
      encapsulation = suite.mul2 r.val suite.generator ∧
      ∀ (i : Nat) publicKey, publicKeys[i]? = some publicKey → ∃ payload m,
        payloads[i]? = some payload ∧ masked[i]? = some m ∧
          Masks suite r identity payload publicKey m := by
  obtain ⟨hlength, -, r, -, hmasked, hencapsulation⟩ := encrypt_eq_ok_iff.1 hencrypt
  rw [maskPayloads_eq_ok_iff] at hmasked
  refine ⟨?_, r, hencapsulation, fun i publicKey hpublicKey => ?_⟩
  · rw [← hmasked.length_eq, List.length_zip, hlength, Nat.min_self]
  · obtain ⟨payload, hpayload⟩ : ∃ payload, payloads[i]? = some payload := by
      obtain ⟨hi, -⟩ := List.getElem?_eq_some_iff.1 hpublicKey
      exact ⟨_, List.getElem?_eq_getElem (hlength ▸ hi)⟩
    have hitem : (payloads.zip publicKeys)[i]? = some (payload, publicKey) :=
      List.getElem?_zip_eq_some.2 ⟨hpayload, hpublicKey⟩
    obtain ⟨m, hm, hmasks⟩ := Outcome.exists_result_at hmasked hitem
    exact ⟨payload, m, hpayload, hm, hmasks⟩

/-- Whatever key verifies under the public key at a place, decrypting what is masked there gives
the payload that is there, as a share with the index that was asked for. -/
theorem decrypt_of_verifyKey (hpairing : suite.Bilinear)
    (hencrypt : encrypt suite identity payloads publicKeys random =
      .ok ((encapsulation, masked), rest)) :
    masked.length = payloads.length ∧
    ∀ (i : Nat) publicKey key, publicKeys[i]? = some publicKey →
      verifyKey suite key identity publicKey = .ok () →
      ∃ payload m, payloads[i]? = some payload ∧ masked[i]? = some m ∧
        ∀ index, decrypt suite encapsulation key m index = .ok ⟨index, payload⟩ := by
  obtain ⟨hlength, r, rfl, hmasks⟩ := exists_masks_of_encrypt hencrypt
  refine ⟨hlength, fun i publicKey key hpublicKey hverify => ?_⟩
  obtain ⟨payload, m, hpayload, hm, hmask⟩ := hmasks i publicKey hpublicKey
  have hkey : Unmasks suite key identity publicKey := unmasks_of_bilinear hpairing hverify
  exact ⟨payload, m, hpayload, hm, decrypt_eq_ok_of_masks hmask hkey⟩

open PairingSuite in
/-- The first and the last of three payloads are for the same server; its key takes off the mask
of either. -/
theorem decrypt_of_verifyKey_first_and_last :
    let publicKeys := [2, 3, 2].map fun byte => publicKey discreteLog (masterKeyOf (idOf byte))
    let payloads : List Key := [10, 20, 30].map (Vector.replicate 32)
    let key := extract discreteLog (masterKeyOf (idOf 2)) [1, 2]
    ∃ encapsulation masked rest, encrypt discreteLog [1, 2] payloads publicKeys
        { byteAt := fun _ => 1 } = .ok ((encapsulation, masked), rest) ∧
      masked.length = 3 ∧
      verifyKey discreteLog key [1, 2] (publicKey discreteLog (masterKeyOf (idOf 2))) = .ok () ∧
      ∃ first last, masked[0]? = some first ∧ masked[2]? = some last ∧
        decrypt discreteLog encapsulation key first 7 = .ok ⟨7, Vector.replicate 32 10⟩ ∧
        decrypt discreteLog encapsulation key last 8 = .ok ⟨8, Vector.replicate 32 30⟩ := by
  intro publicKeys payloads key
  have hinfinity : discreteLog.infinity ∉ publicKeys := by decide
  have hvalue : ∀ publicKey ∈ publicKeys, discreteLog.compress? (discreteLog.pairing
      (discreteLog.mul1 onesScalar.val (hashIdentity discreteLog [1, 2])) publicKey) ≠ none := by
    decide +kernel
  obtain ⟨masked, hmasked⟩ := exists_maskPayloads_eq_ok hvalue payloads
  have hencrypt : encrypt discreteLog [1, 2] payloads publicKeys { byteAt := fun _ => 1 } = _ :=
    encrypt_eq_ok_iff.2 ⟨rfl, hinfinity, onesScalar, drawScalar_of_ones rfl, hmasked, rfl⟩
  have hverify : verifyKey discreteLog key [1, 2]
      (publicKey discreteLog (masterKeyOf (idOf 2))) = .ok () :=
    verifyKey_extract discreteLog_lawful _ _
  obtain ⟨hlength, hkey⟩ := decrypt_of_verifyKey discreteLog_lawful.bilinear hencrypt
  obtain ⟨payload, first, hpayload, hfirst, hdecrypt⟩ := hkey 0 _ key rfl hverify
  obtain ⟨payload', last, hpayload', hlast, hdecrypt'⟩ := hkey 2 _ key rfl hverify
  obtain rfl := Option.some.inj hpayload
  obtain rfl := Option.some.inj hpayload'
  exact ⟨_, masked, _, hencrypt, hlength, hverify, first, last, hfirst, hlast, hdecrypt 7,
    hdecrypt' 8⟩

end Ibe
end Quorum
