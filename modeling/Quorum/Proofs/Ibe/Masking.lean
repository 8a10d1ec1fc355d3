import Quorum.Ibe
import Quorum.Proofs.Outcome

/-!
# Masks and the keys that take them off

A mask is derived from the pairing of an ephemeral element with a public key.  An
issued key takes it off because its own pairing, with the encapsulation, has the
same value; this is all that is used of a key here, whether it was extracted from
a master key or only passes verification.

A mask is the output of a key derivation of fixed length, so it exists wherever
the pairing value has a compressed form.
-/

namespace Quorum

namespace Hkdf

theorem expandFrom_length (key info previous : List UInt8) (count number : Nat) :
    (expandFrom key info count number previous).length = 32 * count := by
  induction count generalizing number previous with
  | zero => rfl
  | succ count ih =>
      simp only [expandFrom, List.length_append, ih, Vector.length_toList]
      omega

/-- As much output as is asked for, as long as that is not too much. -/
theorem exists_expand_eq_some {size : Nat} (hsize : size ≤ 255 * 32) (key : Bytes 32)
    (info : List UInt8) : ∃ output, expand key info size = some output ∧ output.length = size := by
  refine ⟨_, if_pos hsize, ?_⟩
  rw [List.length_take, expandFrom_length]
  omega

end Hkdf

namespace Ibe

variable {suite : PairingSuite}

theorem exists_mask_eq_ok {value : suite.Gt} (hvalue : suite.compress? value ≠ none) :
    ∃ key, mask suite value = .ok key := by
  obtain ⟨material, hmaterial⟩ := Option.ne_none_iff_exists'.1 hvalue
  obtain ⟨output, houtput, hlength⟩ :=
    Hkdf.exists_expand_eq_some (by decide : 32 ≤ 255 * 32) (Hkdf.extract [] material) maskTag
  refine ⟨⟨output.toArray, by simpa using hlength⟩, ?_⟩
  simp [mask, hmaterial, houtput, Bytes.ofList?, hlength]

variable (suite) in
/-- A payload has been masked for a public key, with an ephemeral scalar. -/
def Masks (r : suite.Scalar) (identity : List UInt8) (payload : Key) (publicKey : suite.G2)
    (masked : Key) : Prop :=
  ∃ key, mask suite (suite.pairing (suite.mul1 r.val (hashIdentity suite identity)) publicKey) =
    .ok key ∧ Bytes.xor payload key = masked

variable (suite) in
/-- A key gives the masks for a public key, whatever the ephemeral scalar is. -/
def Unmasks (key : suite.G1) (identity : List UInt8) (publicKey : suite.G2) : Prop :=
  ∀ r : suite.Scalar, suite.pairing key (suite.mul2 r.val suite.generator) =
    suite.pairing (suite.mul1 r.val (hashIdentity suite identity)) publicKey

/-- The key that is extracted from a master key gives the masks for its public
key. -/
theorem unmasks_extract
    (hpairing : ∀ (x : suite.G1) (r s : suite.Scalar),
      suite.pairing (suite.mul1 s.val x) (suite.mul2 r.val suite.generator) =
        suite.pairing (suite.mul1 r.val x) (suite.mul2 s.val suite.generator))
    (masterKey : suite.Scalar) (identity : List UInt8) :
    Unmasks suite (extract suite masterKey identity) identity (publicKey suite masterKey) :=
  fun r => hpairing _ r masterKey

theorem decrypt_eq_ok_of_masks {r : suite.Scalar} {identity : List UInt8} {payload masked : Key}
    {publicKey : suite.G2} {key : suite.G1}
    (hmasked : Masks suite r identity payload publicKey masked)
    (hkey : Unmasks suite key identity publicKey) (index : UInt8) :
    decrypt suite (suite.mul2 r.val suite.generator) key masked index = .ok ⟨index, payload⟩ := by
  obtain ⟨mask, hmask, rfl⟩ := hmasked
  rw [decrypt, hkey r, hmask, Outcome.ok_bind, Bytes.xor_xor_cancel, Outcome.pure_eq_ok]

theorem maskPayloads_eq_ok_iff {r : suite.Scalar} {identity : List UInt8}
    {payloads masked : List Key} {publicKeys : List suite.G2} :
    maskPayloads suite r identity payloads publicKeys = .ok masked ↔
      List.Forall₂ (fun item m => Masks suite r identity item.1 item.2 m)
        (payloads.zip publicKeys) masked := by
  rw [maskPayloads, Outcome.mapM_eq_ok_iff]
  simp only [Outcome.bind_eq_ok_iff, Outcome.pure_eq_ok, Except.ok.injEq, Masks]

/-- Payloads can be masked unless the pairing with one of the public keys has the
value one. -/
theorem exists_maskPayloads_eq_ok {r : suite.Scalar} {identity : List UInt8}
    {publicKeys : List suite.G2}
    (hvalue : ∀ publicKey ∈ publicKeys, suite.compress? (suite.pairing
      (suite.mul1 r.val (hashIdentity suite identity)) publicKey) ≠ none)
    (payloads : List Key) :
    ∃ masked, maskPayloads suite r identity payloads publicKeys = .ok masked := by
  apply Outcome.exists_mapM_eq_ok
  intro item hitem
  obtain ⟨mask, hmask⟩ := exists_mask_eq_ok (hvalue item.2 (List.of_mem_zip hitem).2)
  exact ⟨_, Outcome.bind_eq_ok_iff.2 ⟨mask, hmask, rfl⟩⟩

theorem drawScalar_eq_ok {random : RandomSource}
    (hlt : ofLittleEndian (random.next 32).toList % Nat.pow 2 255 < suite.order) :
    drawScalar suite random = .ok (⟨_, hlt⟩, random.skip 32) := by
  have hlimit : drawLimit = 4611686018427387903 + 1 := rfl
  have hdrawn : random.takeBelow suite.order (4611686018427387903 + 1) =
      some (⟨_, hlt⟩, random.skip 32) := dif_pos hlt
  rw [drawScalar, hlimit, hdrawn]

theorem encrypt_eq_ok_iff {identity : List UInt8} {payloads masked : List Key}
    {publicKeys : List suite.G2} {random rest : RandomSource} {encapsulation : suite.G2} :
    encrypt suite identity payloads publicKeys random = .ok ((encapsulation, masked), rest) ↔
      payloads.length = publicKeys.length ∧ suite.infinity ∉ publicKeys ∧
        ∃ r, drawScalar suite random = .ok (r, rest) ∧
          maskPayloads suite r identity payloads publicKeys = .ok masked ∧
            encapsulation = suite.mul2 r.val suite.generator := by
  simp only [encrypt, Outcome.throw_eq_error, Outcome.error_bind, Outcome.guard_eq_ok_iff,
    Outcome.bind_eq_ok_iff, Outcome.pure_eq_ok, Except.ok.injEq, Prod.mk.injEq, not_not,
    Prod.exists]
  refine and_congr_right fun _ => and_congr_right fun _ => ?_
  constructor
  · rintro ⟨r, _, hr, _, hmasked, ⟨rfl, rfl⟩, rfl⟩
    exact ⟨r, hr, hmasked, rfl⟩
  · rintro ⟨r, hr, hmasked, rfl⟩
    exact ⟨r, rest, hr, masked, hmasked, ⟨rfl, rfl⟩, rfl⟩

end Ibe
end Quorum
