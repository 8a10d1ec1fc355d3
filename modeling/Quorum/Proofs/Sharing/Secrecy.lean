import Mathlib.SetTheory.Cardinal.Finite
import Quorum.Proofs.Sharing.Reconstruction

/-!
# What fewer shares than the threshold show

The coefficients of a sharing are read from the random source; here its bytes are
called coins.  For every secret, one less than `threshold` shares with given
indices can show every view, each for exactly one choice of the coins: a
polynomial of a degree below `threshold` is determined by its value at zero and
by its values at these indices, and all such values occur.

So a view says nothing about the secret.  This is a statement about the number of
choices; how the source chooses is not modelled.
-/

namespace Quorum

open Polynomial

namespace RandomSource

/-- Byte strings taken one after the other are pieces of the stream. -/
theorem takeMany_fst (source : RandomSource) (n count : Nat) :
    (source.takeMany n count).1 = List.ofFn fun r : Fin count =>
      Vector.ofFn fun j : Fin n => source.byteAt (source.taken + (n * r + j)) := by
  induction count generalizing source with
  | zero => rfl
  | succ count ih =>
      rw [List.ofFn_succ]
      simp only [takeMany, ih, next, skip]
      congr 1
      · simp
      · apply congrArg List.ofFn
        funext r
        apply congrArg Vector.ofFn
        funext j
        apply congrArg source.byteAt
        rw [Fin.val_succ, Nat.mul_succ]
        omega

/-- Every byte string is the beginning of some stream. -/
theorem exists_next_eq {n : Nat} (bytes : Bytes n) : ∃ source : RandomSource,
    source.next n = bytes := by
  refine ⟨{ byteAt := fun place => bytes.toList.getD place 0 }, ?_⟩
  apply Vector.ext
  intro i hi
  simp [next]

end RandomSource

namespace Sharing

variable {secret : Key} {count threshold : UInt8}

/-- The rows of coefficients that are read from coins. -/
def rowsOf {k : Nat} (coins : Bytes (32 * k)) : List Key :=
  List.ofFn fun r : Fin k => Vector.ofFn fun j : Fin 32 => coins[32 * r.val + j.val]

theorem takeMany_eq_rowsOf (random : RandomSource) (k : Nat) :
    (random.takeMany 32 k).1 = rowsOf (random.next (32 * k)) := by
  rw [RandomSource.takeMany_fst, rowsOf]
  simp [RandomSource.next]

/-- Every byte of the coins is a coefficient of one of the polynomials. -/
theorem coeff_succ_bytePolynomial {k : Nat} (coins : Bytes (32 * k)) (r : Fin k) (j : Fin 32) :
    (bytePolynomial secret (rowsOf coins) j).coeff (r + 1) = ⟨coins[32 * r.val + j.val]⟩ := by
  rw [bytePolynomial, coeff_polynomial]
  simp [coefficients, rowsOf]

/-- Coins with the same polynomials are the same. -/
theorem coins_eq_of_bytePolynomial_eq {k : Nat} {coins coins' : Bytes (32 * k)}
    (h : ∀ j, bytePolynomial secret (rowsOf coins) j =
      bytePolynomial secret (rowsOf coins') j) : coins = coins' := by
  apply Vector.ext
  intro i hi
  -- Coin `i` belongs to row `i / 32` and to byte `i % 32`.
  have hrow : i / 32 < k := by omega
  have hcolumn : i % 32 < 32 := Nat.mod_lt i (by decide)
  have hcoeff := congrArg (fun p => p.coeff (i / 32 + 1)) (h ⟨i % 32, hcolumn⟩)
  have hbyte := (coeff_succ_bytePolynomial coins ⟨i / 32, hrow⟩ ⟨i % 32, hcolumn⟩).symm.trans
    (hcoeff.trans (coeff_succ_bytePolynomial coins' ⟨i / 32, hrow⟩ ⟨i % 32, hcolumn⟩))
  simpa [Nat.div_add_mod] using hbyte

/-- Polynomials with the secret as their values at zero are those of some
coins. -/
theorem exists_coins_bytePolynomial_eq {k : Nat} {p : Fin 32 → GF256[X]}
    (hdegree : ∀ j, (p j).degree < (k + 1 : Nat))
    (hzero : ∀ j : Fin 32, (p j).eval 0 = ⟨secret.get j⟩) :
    ∃ coins : Bytes (32 * k), ∀ j, bytePolynomial secret (rowsOf coins) j = p j := by
  let coins : Bytes (32 * k) := Vector.ofFn fun i =>
    ((p ⟨i.val % 32, Nat.mod_lt _ (by decide)⟩).coeff (i.val / 32 + 1)).byte
  refine ⟨coins, fun j => ?_⟩
  have hcoin (r : Fin k) : (⟨coins[32 * r.val + j.val]⟩ : GF256) = (p j).coeff (r + 1) := by
    have hrow : (32 * r.val + j.val) / 32 = r := by omega
    have hcolumn : (32 * r.val + j.val) % 32 = j := by omega
    simp [coins, hrow, hcolumn]
  have hcoefficients : coefficients secret (rowsOf coins) j =
      List.ofFn fun i : Fin (k + 1) => (p j).coeff i := by
    rw [List.ofFn_succ, Fin.val_zero, coeff_zero_eq_eval_zero, hzero]
    simp [coefficients, rowsOf, hcoin, Function.comp_def]
  rw [bytePolynomial, hcoefficients, polynomial_ofFn_coeff (hdegree j)]

/-- A polynomial of a degree up to the number of given places is determined by its
values there and at zero, and these can be any. -/
theorem existsUnique_polynomial {indices : Finset UInt8} (hindices : 0 ∉ indices)
    (constant : GF256) (values : UInt8 → GF256) :
    ∃! p : GF256[X], p.degree < (indices.card + 1 : Nat) ∧ p.eval 0 = constant ∧
      ∀ i ∈ indices, p.eval ⟨i⟩ = values i := by
  let places := insert 0 indices
  let target : UInt8 → GF256 := fun i => if i = 0 then constant else values i
  have hcard : places.card = indices.card + 1 := Finset.card_insert_of_notMem hindices
  have hvalues (p : GF256[X]) :
      (∀ i ∈ places, p.eval ⟨i⟩ = target i) ↔
        p.eval 0 = constant ∧ ∀ i ∈ indices, p.eval ⟨i⟩ = values i := by
    rw [Finset.forall_mem_insert]
    have hne : ∀ i ∈ indices, i ≠ 0 := fun i hi hzero => hindices (hzero ▸ hi)
    refine and_congr (by simp [target]; rfl) (forall₂_congr fun i hi => ?_)
    simp [target, hne i hi]
  refine ⟨Lagrange.interpolate places GF256.mk target, ⟨?_, (hvalues _).1 ?_⟩, ?_⟩
  · rw [← hcard]
    exact Lagrange.degree_interpolate_lt _ GF256.mk_injective.injOn
  · intro i hi
    exact Lagrange.eval_interpolate_at_node _ GF256.mk_injective.injOn hi
  · rintro p ⟨hdegree, hp⟩
    apply Lagrange.eq_interpolate_of_eval_eq _ GF256.mk_injective.injOn
    · rwa [hcard]
    · exact (hvalues p).2 hp

theorem payload_shareAt_eq_iff {rows : List Key} {index : UInt8} {payload : Key} :
    (shareAt secret rows index).payload = payload ↔
      ∀ j : Fin 32, (bytePolynomial secret rows j).eval ⟨index⟩ = ⟨payload.get j⟩ := by
  simp only [eval_bytePolynomial]
  constructor
  · rintro rfl j
    rfl
  · intro h
    apply Vector.ext
    intro j hj
    exact GF256.mk_injective (h ⟨j, hj⟩)

/-- Payloads for `k` indices come from exactly one choice of coins for `k` rows of
coefficients. -/
theorem existsUnique_coins {indices : Finset UInt8} {k : Nat} (hcard : indices.card = k)
    (hindices : 0 ∉ indices) (secret : Key) (view : UInt8 → Key) :
    ∃! coins : Bytes (32 * k), ∀ i ∈ indices,
      (shareAt secret (rowsOf coins) i).payload = view i := by
  subst hcard
  have hpolynomial (j : Fin 32) := existsUnique_polynomial hindices ⟨secret.get j⟩
    (fun i => ⟨(view i).get j⟩)
  choose p hp hunique using hpolynomial
  obtain ⟨coins, hcoins⟩ := exists_coins_bytePolynomial_eq (fun j => (hp j).1)
    (fun j => (hp j).2.1)
  refine ⟨coins, fun i hi => payload_shareAt_eq_iff.2 fun j => ?_, fun coins' hview => ?_⟩
  · rw [hcoins]
    exact (hp j).2.2 i hi
  · -- The polynomials of other coins with this view are the interpolating ones as well.
    have hpolynomials : ∀ j,
        bytePolynomial secret (rowsOf coins') j = bytePolynomial secret (rowsOf coins) j := by
      intro j
      rw [hcoins]
      apply hunique
      refine ⟨?_, eval_zero_bytePolynomial _ _ _, fun i hi => ?_⟩
      · have hdegree := degree_bytePolynomial_lt secret (rowsOf coins') j
        rwa [rowsOf, List.length_ofFn] at hdegree
      · exact payload_shareAt_eq_iff.1 (hview i hi) j
    exact coins_eq_of_bytePolynomial_eq hpolynomials

/-- Splitting a secret with the given coins gives shares that show a view: those
with the given indices have the payloads of the view. -/
def Shows (secret : Key) (count threshold : UInt8) (indices : Finset UInt8)
    (view : UInt8 → Key) (coins : Bytes (32 * (threshold.toNat - 1))) : Prop :=
  ∀ random : RandomSource, random.next (32 * (threshold.toNat - 1)) = coins →
    ∃ shares rest, split secret count threshold random = .ok (shares, rest) ∧
      ∀ i ∈ indices, ⟨i, view i⟩ ∈ shares

theorem shows_iff (hpos : threshold ≠ 0) (hle : threshold ≤ count) {indices : Finset UInt8}
    (hindices : ∀ i ∈ indices, 0 < i ∧ i ≤ count) {view : UInt8 → Key}
    {coins : Bytes (32 * (threshold.toNat - 1))} :
    Shows secret count threshold indices view coins ↔
      ∀ i ∈ indices, (shareAt secret (rowsOf coins) i).payload = view i := by
  have hmem (i : UInt8) (hi : i ∈ indices) :
      ⟨i, view i⟩ ∈ deal secret (rowsOf coins) count ↔
        (shareAt secret (rowsOf coins) i).payload = view i := by
    rw [mem_deal_iff]
    constructor
    · rintro ⟨-, -, hshare⟩
      exact congrArg Share.payload hshare
    · intro hpayload
      refine ⟨UInt8.pos_iff_ne_zero.1 (hindices i hi).1, (hindices i hi).2, ?_⟩
      rw [← hpayload]
      rfl
  have hsplit (random : RandomSource)
      (hrandom : random.next (32 * (threshold.toNat - 1)) = coins) :
      split secret count threshold random =
        .ok (deal secret (rowsOf coins) count, (random.takeMany 32 (threshold.toNat - 1)).2) := by
    rw [split_eq_ok secret random hpos hle, takeMany_eq_rowsOf, hrandom]
  constructor
  · intro hshows i hi
    obtain ⟨random, hrandom⟩ := RandomSource.exists_next_eq coins
    obtain ⟨shares, rest, hshares, hview⟩ := hshows random hrandom
    rw [hsplit random hrandom] at hshares
    cases hshares
    exact (hmem i hi).1 (hview i hi)
  · intro hview random hrandom
    exact ⟨_, _, hsplit random hrandom, fun i hi => (hmem i hi).2 (hview i hi)⟩

/-- Every view of one less than `threshold` shares is shown for every secret by
exactly one choice of the coins, so for any two secrets it is shown by equally
many. -/
theorem existsUnique_coins_shows (count threshold : UInt8) (hle : threshold ≤ count)
    (indices : Finset UInt8) (hcard : indices.card + 1 = threshold.toNat)
    (hindices : ∀ i ∈ indices, 0 < i ∧ i ≤ count) (view : UInt8 → Key) :
    (∀ secret, ∃! coins, Shows secret count threshold indices view coins) ∧
      ∀ secret other,
        Nat.card {coins // Shows secret count threshold indices view coins} =
          Nat.card {coins // Shows other count threshold indices view coins} := by
  have hpos : threshold ≠ 0 := by
    rintro rfl
    simp at hcard
  have hzero : 0 ∉ indices := fun hmem => absurd (hindices 0 hmem).1 (by decide)
  have hunique (secret : Key) :
      ∃! coins, Shows secret count threshold indices view coins := by
    simp only [shows_iff hpos hle hindices]
    exact existsUnique_coins (by omega) hzero secret view
  have hone (secret : Key) :
      Nat.card {coins // Shows secret count threshold indices view coins} = 1 := by
    obtain ⟨coins, hcoins, hother⟩ := hunique secret
    exact Nat.card_eq_one_iff_exists.2
      ⟨⟨coins, hcoins⟩, fun other => Subtype.ext (hother other other.2)⟩
  exact ⟨hunique, fun secret other => (hone secret).trans (hone other).symm⟩

/-- Two of five shares, where three are needed, show the same for two secrets. -/
theorem existsUnique_coins_shows_two_of_five :
    (∃! coins, Shows (Vector.replicate 32 0) 5 3 {2, 5} (fun i => Vector.replicate 32 i) coins) ∧
      ∃! coins,
        Shows (Vector.replicate 32 255) 5 3 {2, 5} (fun i => Vector.replicate 32 i) coins := by
  have hindices : ∀ i ∈ ({2, 5} : Finset UInt8), 0 < i ∧ i ≤ 5 := by
    simp only [Finset.mem_insert, Finset.mem_singleton, forall_eq_or_imp, forall_eq]
    decide
  obtain ⟨hunique, -⟩ := existsUnique_coins_shows 5 3 (by decide) {2, 5} (by decide) hindices
    (fun i => Vector.replicate 32 i)
  exact ⟨hunique _, hunique _⟩

end Sharing
end Quorum
