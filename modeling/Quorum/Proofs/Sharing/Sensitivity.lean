import Quorum.Proofs.Sharing.Combine

/-!
# One share that is changed

A secret is the sum of its shares, byte by byte, each times a weight that only the indices
decide.  No weight is zero, because no index is.  So a change of one share shows in the secret,
and shows at exactly the bytes at which the share was changed.

In particular a wrong share is never without effect on what shares of distinct indices combine
to; that it is wrong cannot be seen from the shares alone.
-/

namespace Quorum
namespace Sharing

open Polynomial

theorem weight_ne_zero {places : List UInt8} (hplaces : ∀ x ∈ places, x ≠ 0) (i : UInt8) :
    weight places i ≠ 0 := by
  unfold weight
  rw [Finset.prod_ne_zero_iff]
  intro x hx
  obtain ⟨hxi, hmem⟩ := Finset.mem_erase.1 hx
  have hx0 : (⟨x⟩ : GF256) ≠ 0 := fun h =>
    hplaces x (List.mem_toFinset.1 hmem) (GF256.mk_injective h)
  have hsub : (⟨x⟩ : GF256) - ⟨i⟩ ≠ 0 := mk_sub_mk_ne_zero hxi
  exact div_ne_zero hx0 hsub

/-- Shares of distinct indices combine to their weighted sums; for a single share the weight
is one. -/
theorem combine_eq_sum {shares : List Share} {threshold : UInt8}
    (hne : ∀ index ∈ shares.map Share.index, index ≠ 0)
    (hnodup : (shares.map Share.index).Nodup) (hthreshold : threshold ≠ 0)
    (hcount : threshold.toNat ≤ shares.length) :
    combine shares threshold = .ok (Vector.ofFn fun j => (shares.map fun share =>
      weight (shares.map Share.index) share.index * ⟨share.payload.get j⟩).sum.byte) := by
  have h : Consistent shares := consistent_of_nodup hne hnodup
  have hlength : indexCount shares = shares.length := indexCount_of_nodup hnodup
  obtain ⟨p, hdegree, heval⟩ := h.exists_polynomials
  rw [combine_eq_ok h hthreshold (by omega) hdegree heval]
  apply congrArg Except.ok
  apply congrArg Vector.ofFn
  funext j
  have hdegreeLength : (p j).degree < shares.length := hlength ▸ hdegree j
  rw [sum_weight_mul_payload hnodup hdegreeLength fun share hshare => heval share hshare j]

/-- Where a share among others of distinct indices is replaced, the secret changes at the
bytes at which the share does, and at no others. -/
theorem combine_replace {before after : List Share} {index threshold : UInt8}
    (payload payload' : Key)
    (hne : ∀ place ∈ (before ++ ⟨index, payload⟩ :: after).map Share.index, place ≠ 0)
    (hnodup : ((before ++ ⟨index, payload⟩ :: after).map Share.index).Nodup)
    (hthreshold : threshold ≠ 0)
    (hcount : threshold.toNat ≤ (before ++ ⟨index, payload⟩ :: after).length) :
    ∃ secret secret',
      combine (before ++ ⟨index, payload⟩ :: after) threshold = .ok secret ∧
      combine (before ++ ⟨index, payload'⟩ :: after) threshold = .ok secret' ∧
      ∀ j : Fin 32, secret.get j ≠ secret'.get j ↔ payload.get j ≠ payload'.get j := by
  have hplaces : (before ++ ⟨index, payload'⟩ :: after).map Share.index =
      (before ++ ⟨index, payload⟩ :: after).map Share.index := by
    simp
  have hcount' : threshold.toNat ≤ (before ++ ⟨index, payload'⟩ :: after).length := by
    simpa using hcount
  have hsecret := combine_eq_sum hne hnodup hthreshold hcount
  have hsecret' := combine_eq_sum (hplaces ▸ hne) (hplaces ▸ hnodup) hthreshold hcount'
  have hweight : weight ((before ++ ⟨index, payload⟩ :: after).map Share.index) index ≠ 0 :=
    weight_ne_zero hne index
  rw [hplaces] at hsecret'
  refine ⟨_, _, hsecret, hsecret', fun j => ?_⟩
  -- The two sums have the same weights, and all values but one in common.
  generalize (before ++ ⟨index, payload⟩ :: after).map Share.index = places at hweight ⊢
  simp only [get_eq_getElem, Fin.getElem_fin, Vector.getElem_ofFn,
    List.map_append, List.map_cons, List.sum_append, List.sum_cons]
  rw [not_iff_not, ← GF256.ext_iff, add_right_inj, add_left_inj, mul_right_inj' hweight,
    GF256.mk_injective.eq_iff]

/-- Three shares, of which one is replaced at a single byte. -/
theorem combine_replace_first_byte :
    let payload : Key := Vector.replicate 32 9
    let before : List Share := [⟨200, payload⟩]
    let after : List Share := [⟨31, Vector.replicate 32 4⟩]
    ∃ secret secret',
      combine (before ++ ⟨7, payload⟩ :: after) 2 = .ok secret ∧
      combine (before ++ ⟨7, payload.set 0 5 (by decide)⟩ :: after) 2 = .ok secret' ∧
      ∀ j : Fin 32, secret.get j ≠ secret'.get j ↔
        payload.get j ≠ (payload.set 0 5 (by decide)).get j := by
  intro payload before after
  have hplaces : (before ++ ⟨7, payload⟩ :: after).map Share.index = [200, 7, 31] := rfl
  have hne : ∀ place ∈ ([200, 7, 31] : List UInt8), place ≠ 0 := by simp
  have hnodup : ([200, 7, 31] : List UInt8).Nodup := by simp
  have hcount : (2 : UInt8).toNat ≤ (before ++ ⟨7, payload⟩ :: after).length := by
    simp [before, after]
  exact combine_replace payload (payload.set 0 5) (hplaces ▸ hne) (hplaces ▸ hnodup) (by simp)
    hcount

end Sharing
end Quorum
