import Mathlib.Algebra.Polynomial.Degree.Operations
import Mathlib.Algebra.Polynomial.Eval.Degree
import Mathlib.Data.List.GetD
import Quorum.Proofs.GF256.Field
import Quorum.Share

/-!
# The polynomials of a sharing

`Sharing.evaluate` evaluates the polynomial whose coefficients are given.  Here
that polynomial is named, so that facts about polynomials over a field apply:
its degree is below the number of coefficients, and every polynomial of such a
degree is that of its own coefficients.

For one byte of a secret, the value at zero is the byte, and the values at the
indices are the bytes of the shares.
-/

namespace Quorum
namespace Sharing

open Polynomial

/-- The polynomial with the given coefficients, in ascending order. -/
noncomputable def polynomial (coefficients : List GF256) : GF256[X] :=
  coefficients.foldr (fun coefficient p => p * X + C coefficient) 0

@[simp]
theorem polynomial_nil : polynomial [] = 0 := rfl

@[simp]
theorem polynomial_cons (coefficient : GF256) (rest : List GF256) :
    polynomial (coefficient :: rest) = polynomial rest * X + C coefficient := rfl

theorem eval_polynomial (coefficients : List GF256) (x : GF256) :
    (polynomial coefficients).eval x = evaluate coefficients x := by
  induction coefficients with
  | nil => simp [evaluate]
  | cons coefficient rest ih =>
      rw [polynomial_cons, eval_add, eval_mul, eval_X, eval_C, ih]
      rfl

theorem coeff_polynomial (coefficients : List GF256) (k : Nat) :
    (polynomial coefficients).coeff k = coefficients.getD k 0 := by
  induction coefficients generalizing k with
  | nil => simp
  | cons coefficient rest ih =>
      cases k with
      | zero => simp
      | succ k => simp [coeff_C_succ, ih]

theorem degree_polynomial_lt (coefficients : List GF256) :
    (polynomial coefficients).degree < coefficients.length := by
  rw [degree_lt_iff_coeff_zero]
  intro k hk
  rw [coeff_polynomial, List.getD_eq_default _ _ hk]

/-- A polynomial is that of its coefficients, of which those from a bound on its
degree on may be left out. -/
theorem polynomial_ofFn_coeff {p : GF256[X]} {n : Nat} (hp : p.degree < n) :
    polynomial (List.ofFn fun k : Fin n => p.coeff k) = p := by
  apply Polynomial.ext
  intro k
  rw [coeff_polynomial]
  by_cases hk : k < n
  · rw [List.getD_eq_getElem _ _ (by simpa using hk), List.getElem_ofFn]
  · rw [List.getD_eq_default _ _ (by simpa using Nat.le_of_not_lt hk)]
    exact ((degree_lt_iff_coeff_zero p n).1 hp k (Nat.le_of_not_lt hk)).symm

/-! ## One byte of a secret -/

@[simp]
theorem get_eq_getElem {n : Nat} (bytes : Bytes n) (j : Fin n) : bytes.get j = bytes[j] := rfl

/-- The polynomial for one byte of a secret. -/
noncomputable def bytePolynomial (secret : Key) (rows : List Key) (j : Fin 32) : GF256[X] :=
  polynomial (coefficients secret rows j)

theorem degree_bytePolynomial_lt (secret : Key) (rows : List Key) (j : Fin 32) :
    (bytePolynomial secret rows j).degree < (rows.length + 1 : Nat) := by
  have hlength : (coefficients secret rows j).length = rows.length + 1 := by
    simp [coefficients]
  rw [← hlength]
  exact degree_polynomial_lt (coefficients secret rows j)

theorem eval_zero_bytePolynomial (secret : Key) (rows : List Key) (j : Fin 32) :
    (bytePolynomial secret rows j).eval 0 = ⟨secret.get j⟩ := by
  simp [bytePolynomial, coefficients]

theorem ofFn_eval_zero_bytePolynomial (secret : Key) (rows : List Key) :
    (Vector.ofFn fun j => ((bytePolynomial secret rows j).eval 0).byte) = secret := by
  apply Vector.ext
  intro j hj
  rw [Vector.getElem_ofFn, eval_zero_bytePolynomial]
  rfl

/-- The bytes of a share are the values at its index. -/
theorem eval_bytePolynomial (secret : Key) (rows : List Key) (index : UInt8) (j : Fin 32) :
    (bytePolynomial secret rows j).eval ⟨index⟩ =
      ⟨(shareAt secret rows index).payload.get j⟩ := by
  rw [bytePolynomial, eval_polynomial]
  simp [shareAt]

end Sharing
end Quorum
