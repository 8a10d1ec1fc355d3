import Mathlib.Data.Finset.Dedup
import Quorum.Proofs.Sharing.Interpolation

/-!
# Combining shares

Shares are consistent if no index is zero and no two of them contradict each
other.  From consistent shares, `Sharing.distinct` keeps each one once, and
`Sharing.combine` gives the values at zero of the polynomials on which they lie,
whether it interpolates or returns the payload of a single share.

There are such polynomials for all consistent shares, so that enough of them always
combine.  Repetitions and order are immaterial here; which of two faults is reported for
shares that are not consistent is not the subject of this module.
-/

namespace Quorum
namespace Sharing

open Polynomial

/-- Shares that can belong to one sharing. -/
structure Consistent (shares : List Share) : Prop where
  index_ne_zero : ∀ share ∈ shares, share.index ≠ 0
  eq_of_index_eq : ∀ share ∈ shares, ∀ other ∈ shares,
    share.index = other.index → share = other

/-- The number of distinct indices. -/
def indexCount (shares : List Share) : Nat := (shares.map Share.index).toFinset.card

theorem Consistent.subset {shares others : List Share} (h : Consistent shares)
    (hsubset : others ⊆ shares) : Consistent others where
  index_ne_zero share hshare := h.index_ne_zero share (hsubset hshare)
  eq_of_index_eq share hshare other hother :=
    h.eq_of_index_eq share (hsubset hshare) other (hsubset hother)

theorem consistent_of_nodup {shares : List Share}
    (hne : ∀ index ∈ shares.map Share.index, index ≠ 0)
    (hnodup : (shares.map Share.index).Nodup) : Consistent shares where
  index_ne_zero share hshare := hne share.index (List.mem_map_of_mem hshare)
  eq_of_index_eq _ hshare _ hother hindex := List.inj_on_of_nodup_map hnodup hshare hother hindex

theorem indexCount_of_nodup {shares : List Share} (hnodup : (shares.map Share.index).Nodup) :
    indexCount shares = shares.length := by
  rw [indexCount, List.toFinset_card_of_nodup hnodup, List.length_map]

theorem indexCount_le_length {shares : List Share} : indexCount shares ≤ shares.length := by
  rw [indexCount, ← List.length_map Share.index]
  exact List.toFinset_card_le _

theorem indexCount_congr {shares others : List Share}
    (h : ∀ share, share ∈ others ↔ share ∈ shares) :
    indexCount others = indexCount shares := by
  have hindices : (others.map Share.index).toFinset = (shares.map Share.index).toFinset := by
    ext index
    simp [h]
  rw [indexCount, indexCount, hindices]

/-- Every share is kept once, after those that have been seen. -/
theorem distinct_eq_ok {seen shares : List Share} (h : Consistent (seen ++ shares))
    (hseen : (seen.map Share.index).Nodup) :
    ∃ points, distinct seen shares = .ok points ∧ (points.map Share.index).Nodup ∧
      ∀ share, share ∈ points ↔ share ∈ seen ++ shares := by
  induction shares generalizing seen with
  | nil => exact ⟨seen, rfl, hseen, by simp⟩
  | cons share rest ih =>
      have hne : share.index ≠ 0 := h.index_ne_zero share (by simp)
      simp only [distinct, if_neg hne]
      cases hfind : seen.find? fun known => known.index = share.index with
      | none =>
          have hnew : share.index ∉ seen.map Share.index := by
            intro hmem
            obtain ⟨known, hknown, hindex⟩ := List.mem_map.1 hmem
            have hother := List.find?_eq_none.1 hfind known hknown
            simp [hindex] at hother
          have hnodup : ((seen ++ [share]).map Share.index).Nodup := by
            rw [List.map_append, List.nodup_append]
            exact ⟨hseen, by simp, by simpa using hnew⟩
          obtain ⟨points, hpoints, hdistinct, hmem⟩ := ih (by simpa using h) hnodup
          exact ⟨points, hpoints, hdistinct, by simpa using hmem⟩
      | some known =>
          -- A known share with this index is this share, since they do not contradict.
          have hknown : known ∈ seen := List.mem_of_find?_eq_some hfind
          have hindex : known.index = share.index := by
            simpa using List.find?_some hfind
          have heq : known = share :=
            h.eq_of_index_eq known (by simp [hknown]) share (by simp) hindex
          subst heq
          have hrest : Consistent (seen ++ rest) := h.subset (by simp)
          obtain ⟨points, hpoints, hdistinct, hmem⟩ := ih hrest hseen
          refine ⟨points, by simpa using hpoints, hdistinct, fun share => ?_⟩
          rw [hmem share]
          simp only [List.mem_append, List.mem_cons]
          constructor
          · rintro (hshare | hshare)
            · exact .inl hshare
            · exact .inr (.inr hshare)
          · rintro (hshare | rfl | hshare)
            · exact .inl hshare
            · exact .inl hknown
            · exact .inr hshare

/-- From consistent shares, as many are kept as there are indices. -/
theorem distinct_nil_eq_ok {shares : List Share} (h : Consistent shares) :
    ∃ points, distinct [] shares = .ok points ∧ (points.map Share.index).Nodup ∧
      points.length = indexCount shares ∧ ∀ share, share ∈ points ↔ share ∈ shares := by
  have hseen : Consistent ([] ++ shares) := h
  obtain ⟨points, hpoints, hdistinct, hmem⟩ := distinct_eq_ok hseen List.nodup_nil
  refine ⟨points, hpoints, hdistinct, ?_, hmem⟩
  rw [← indexCount_of_nodup hdistinct, indexCount_congr hmem, List.nil_append]

theorem combine_singleton {share : Share} (hne : share.index ≠ 0) :
    combine [share] 1 = .ok share.payload := by
  simp [combine, distinct, hne]

/-- Consistent shares on polynomials of degrees below the number of their indices
combine to the values at zero. -/
theorem combine_eq_ok {shares : List Share} (h : Consistent shares) {threshold : UInt8}
    (hthreshold : threshold ≠ 0) (hcount : threshold.toNat ≤ indexCount shares)
    {p : Fin 32 → GF256[X]} (hdegree : ∀ j, (p j).degree < indexCount shares)
    (heval : ∀ share ∈ shares, ∀ j : Fin 32, (p j).eval ⟨share.index⟩ = ⟨share.payload.get j⟩) :
    combine shares threshold = .ok (Vector.ofFn fun j => ((p j).eval 0).byte) := by
  obtain ⟨points, hpoints, hdistinct, hlength, hmem⟩ := distinct_nil_eq_ok h
  have hevalPoints : ∀ share ∈ points, ∀ j : Fin 32,
      (p j).eval ⟨share.index⟩ = ⟨share.payload.get j⟩ :=
    fun share hshare => heval share ((hmem share).1 hshare)
  have henough : ¬ points.length < threshold.toNat := by
    omega
  rw [← hlength] at hdegree
  simp only [combine, if_neg hthreshold, hpoints, Outcome.ok_bind, if_neg henough]
  match points, hdistinct, hdegree, hevalPoints with
  | [], hdistinct, hdegree, hevalPoints => exact interpolate_eq_ok hdistinct hdegree hevalPoints
  | [only], _, hdegree, hevalPoints =>
      -- A polynomial through a single share is constant.
      apply congrArg Except.ok
      apply Vector.ext
      intro j hj
      have hconst := eq_C_of_degree_le_zero
        (Nat.WithBot.lt_one_iff_le_zero.1 (hdegree ⟨j, hj⟩))
      have hvalue := hevalPoints only (by simp) ⟨j, hj⟩
      rw [hconst, eval_C] at hvalue
      rw [Vector.getElem_ofFn, hconst, eval_C, hvalue]
      rfl
  | _ :: _ :: _, hdistinct, hdegree, hevalPoints =>
      exact interpolate_eq_ok hdistinct hdegree hevalPoints

/-- Consistent shares lie on polynomials of degrees below the number of their indices. -/
theorem Consistent.exists_polynomials {shares : List Share} (h : Consistent shares) :
    ∃ p : Fin 32 → GF256[X], (∀ j, (p j).degree < indexCount shares) ∧
      ∀ share ∈ shares, ∀ j : Fin 32, (p j).eval ⟨share.index⟩ = ⟨share.payload.get j⟩ := by
  have hpayload (index : UInt8) : ∃ payload : Key, ∀ share ∈ shares, share.index = index →
      payload = share.payload := by
    by_cases hfound : ∃ share ∈ shares, share.index = index
    · obtain ⟨share, hshare, rfl⟩ := hfound
      exact ⟨share.payload, fun other hother hindex => by
        rw [h.eq_of_index_eq other hother share hshare hindex]⟩
    · exact ⟨Vector.replicate 32 0, fun share hshare hindex =>
        absurd ⟨share, hshare, hindex⟩ hfound⟩
  choose values hvalues using hpayload
  let places := (shares.map Share.index).toFinset
  refine ⟨fun j => Lagrange.interpolate places GF256.mk fun index => ⟨(values index).get j⟩,
    fun j => Lagrange.degree_interpolate_lt _ GF256.mk_injective.injOn, fun share hshare j => ?_⟩
  have hplace : share.index ∈ places := List.mem_toFinset.2 (List.mem_map_of_mem hshare)
  rw [Lagrange.eval_interpolate_at_node _ GF256.mk_injective.injOn hplace,
    hvalues share.index share hshare rfl]

/-- Consistent shares of enough indices combine. -/
theorem exists_combine_eq_ok {shares : List Share} (h : Consistent shares) {threshold : UInt8}
    (hthreshold : threshold ≠ 0) (hcount : threshold.toNat ≤ indexCount shares) :
    ∃ secret, combine shares threshold = .ok secret := by
  obtain ⟨p, hdegree, heval⟩ := h.exists_polynomials
  exact ⟨_, combine_eq_ok h hthreshold hcount hdegree heval⟩

end Sharing
end Quorum
