import Mathlib.LinearAlgebra.Lagrange
import Quorum.Proofs.Outcome
import Quorum.Proofs.Sharing.Polynomial

/-!
# Interpolation at zero

The weights of `Sharing.weight?` are the values at zero of the Lagrange basis
polynomials for the places of the shares.  So `Sharing.interpolate` gives, for
every byte, the value at zero of each polynomial through the shares whose degree
is below their number; in particular it does not fail.
-/

namespace Quorum
namespace Sharing

open Polynomial

/-- The factor of the value at `i` for the interpolation at zero. -/
def weight (places : List UInt8) (i : UInt8) : GF256 :=
  ∏ x ∈ places.toFinset.erase i, (⟨x⟩ : GF256) / (⟨x⟩ - ⟨i⟩)

theorem foldl_mul_filter_ne {places : List UInt8} (hplaces : places.Nodup) (i : UInt8)
    (f : UInt8 → GF256) :
    ((places.filter (· ≠ i)).map f).foldl (· * ·) 1 = ∏ x ∈ places.toFinset.erase i, f x := by
  have herase : (places.filter (· ≠ i)).toFinset = places.toFinset.erase i := by
    ext x
    simp [and_comm]
  rw [← List.prod_eq_foldl, ← herase, List.prod_toFinset f (hplaces.filter _)]

theorem mk_sub_mk_ne_zero {x i : UInt8} (h : x ≠ i) : (⟨x⟩ : GF256) - ⟨i⟩ ≠ 0 := by
  rw [sub_ne_zero]
  exact fun heq => h (GF256.mk_injective heq)

theorem weight?_eq {places : List UInt8} (hplaces : places.Nodup) (i : UInt8) :
    weight? i places = some (weight places i) := by
  have hne : ∀ x ∈ places.toFinset.erase i, (⟨x⟩ : GF256) - ⟨i⟩ ≠ 0 :=
    fun x hx => mk_sub_mk_ne_zero (Finset.ne_of_mem_erase hx)
  simp only [weight?, List.map_map, foldl_mul_filter_ne hplaces, Function.comp_apply]
  rw [GF256.div?_of_ne_zero _ (Finset.prod_ne_zero_iff.2 hne), weight, Finset.prod_div_distrib]

/-- The weights are the values at zero of the basis polynomials. -/
theorem weight_eq_eval_basis (places : List UInt8) (i : UInt8) :
    weight places i = (Lagrange.basis places.toFinset GF256.mk i).eval 0 := by
  rw [weight, Lagrange.basis, eval_prod]
  apply Finset.prod_congr rfl
  intro x _
  -- The basis has the factor `(0 - x) / (i - x)`, the weight `x / (x - i)`.
  rw [Lagrange.basisDivisor, eval_mul, eval_C, eval_sub, eval_X, eval_C, zero_sub]
  rw [← neg_sub (⟨x⟩ : GF256) ⟨i⟩, inv_neg, neg_mul_neg, mul_comm, div_eq_mul_inv]

/-- The weighted sum of the values of a polynomial is its value at zero. -/
theorem sum_weight_mul_eval {places : List UInt8} (hplaces : places.Nodup) {p : GF256[X]}
    (hp : p.degree < places.length) :
    ∑ i ∈ places.toFinset, weight places i * p.eval ⟨i⟩ = p.eval 0 := by
  have hcard : places.toFinset.card = places.length := List.toFinset_card_of_nodup hplaces
  have hinterpolate : p = Lagrange.interpolate places.toFinset GF256.mk
      (fun i => p.eval ⟨i⟩) := by
    apply Lagrange.eq_interpolate (GF256.mk_injective.injOn)
    rwa [hcard]
  conv_rhs => rw [hinterpolate]
  rw [Lagrange.interpolate_apply, eval_finsetSum]
  apply Finset.sum_congr rfl
  intro i _
  rw [eval_mul, eval_C, weight_eq_eval_basis, mul_comm]

theorem foldl_zip_weights (weights values : Share → GF256) (shares : List Share) :
    ((shares.map weights).zip shares).foldl
        (fun sum (weight, share) => sum + weight * values share) (0 : GF256) =
      (shares.map fun share => weights share * values share).sum := by
  have hzip : (shares.map weights).zip shares = shares.map fun share => (weights share, share) := by
    induction shares with
    | nil => rfl
    | cons share rest ih => simp [ih]
  rw [hzip, List.foldl_map, List.sum_eq_foldl, List.foldl_map]

/-- The weighted sum of one byte of shares that lie on a polynomial is its value at zero. -/
theorem sum_weight_mul_payload {shares : List Share} (hshares : (shares.map Share.index).Nodup)
    {p : GF256[X]} {j : Fin 32} (hdegree : p.degree < shares.length)
    (heval : ∀ share ∈ shares, p.eval ⟨share.index⟩ = ⟨share.payload.get j⟩) :
    (shares.map fun share =>
      weight (shares.map Share.index) share.index * ⟨share.payload.get j⟩).sum = p.eval 0 := by
  have hlength : p.degree < ((shares.map Share.index).length : Nat) := by
    simpa using hdegree
  rw [← sum_weight_mul_eval hshares hlength, List.sum_toFinset _ hshares, List.map_map]
  apply congrArg List.sum
  apply List.map_congr_left
  intro share hshare
  rw [Function.comp_apply, heval share hshare]

/-- Shares that lie on polynomials of degrees below their number interpolate to
the values at zero. -/
theorem interpolate_eq_ok {shares : List Share} (hshares : (shares.map Share.index).Nodup)
    {p : Fin 32 → GF256[X]} (hdegree : ∀ j, (p j).degree < shares.length)
    (heval : ∀ share ∈ shares, ∀ j : Fin 32, (p j).eval ⟨share.index⟩ = ⟨share.payload.get j⟩) :
    interpolate shares = .ok (Vector.ofFn fun j => ((p j).eval 0).byte) := by
  have hsum (j : Fin 32) := sum_weight_mul_payload hshares (hdegree j)
    fun share hshare => heval share hshare j
  unfold interpolate
  apply Outcome.bind_eq_ok_iff.2
  refine ⟨shares.map fun share => weight (shares.map Share.index) share.index, ?_, ?_⟩
  · apply Outcome.mapM_eq_ok_map
    intro share _
    rw [weight?_eq hshares]
  · have hfold (j : Fin 32) := foldl_zip_weights
      (fun share => weight (shares.map Share.index) share.index)
      (fun share => ⟨share.payload[j]⟩) shares
    simp only [get_eq_getElem] at hsum
    simp only [hfold, hsum, Outcome.pure_eq_ok]

end Sharing
end Quorum
