import Quorum.Proofs.Sharing.Combine

/-!
# Reconstruction of a secret

The shares of a sharing have the indices from one on, and each holds the values
at its index of the polynomials of the secret.  Any of them, in any order and
with repetitions, rebuild the secret as soon as they have as many distinct
indices as the threshold says.  A threshold of one needs no polynomial beyond
the secret itself; it is covered without a case of its own.
-/

namespace Quorum

@[simp]
theorem RandomSource.takeMany_length (source : RandomSource) (n count : Nat) :
    (source.takeMany n count).1.length = count := by
  induction count generalizing source with
  | zero => rfl
  | succ count ih => simp [takeMany, ih]

namespace Sharing

variable {secret : Key} {rows : List Key} {count threshold : UInt8} {random : RandomSource}

theorem split_eq_ok (secret : Key) (random : RandomSource) (hpos : threshold ≠ 0)
    (hle : threshold ≤ count) :
    split secret count threshold random =
      .ok (deal secret (random.takeMany 32 (threshold.toNat - 1)).1 count,
        (random.takeMany 32 (threshold.toNat - 1)).2) := by
  have hvalid : ¬ (threshold = 0 ∨ count < threshold) :=
    not_or.2 ⟨hpos, UInt8.not_lt.2 hle⟩
  rw [split, if_neg hvalid]

theorem toNat_place {i : Nat} (hi : i < count.toNat) : (UInt8.ofNat (i + 1)).toNat = i + 1 := by
  have hcount := count.toNat_lt
  exact UInt8.toNat_ofNat_of_lt' (show i + 1 < 256 by omega)

theorem map_index_deal (secret : Key) (rows : List Key) (count : UInt8) :
    ((deal secret rows count).map fun share => share.index.toNat) =
      List.range' 1 count.toNat := by
  rw [deal, List.map_map, List.range'_eq_map_range]
  apply List.map_congr_left
  intro i hi
  have htoNat := toNat_place (List.mem_range.1 hi)
  rw [Nat.add_comm]
  exact htoNat

theorem nodup_index_deal (secret : Key) (rows : List Key) (count : UInt8) :
    ((deal secret rows count).map Share.index).Nodup := by
  apply List.Nodup.of_map UInt8.toNat
  rw [List.map_map]
  exact (map_index_deal secret rows count).symm ▸ List.nodup_range'

/-- The shares that are dealt are those with indices up to their number. -/
theorem mem_deal_iff {share : Share} :
    share ∈ deal secret rows count ↔
      share.index ≠ 0 ∧ share.index ≤ count ∧ shareAt secret rows share.index = share := by
  simp only [deal, List.mem_map, List.mem_range]
  constructor
  · rintro ⟨i, hi, rfl⟩
    have htoNat := toNat_place hi
    refine ⟨fun hzero => ?_, UInt8.le_iff_toNat_le.2 ?_, rfl⟩
    · have hindex : UInt8.ofNat (i + 1) = 0 := hzero
      rw [hindex] at htoNat
      exact absurd htoNat (by simp)
    · change (UInt8.ofNat (i + 1)).toNat ≤ count.toNat
      omega
  · rintro ⟨hne, hle, heq⟩
    have hpos : share.index.toNat ≠ 0 := fun hzero => hne (UInt8.toNat_inj.1 hzero)
    have hbound := UInt8.le_iff_toNat_le.1 hle
    refine ⟨share.index.toNat - 1, by omega, ?_⟩
    rw [Nat.sub_add_cancel (by omega), UInt8.ofNat_toNat, heq]

theorem consistent_of_subset_deal {drawn : List Share}
    (hdrawn : drawn ⊆ deal secret rows count) : Consistent drawn where
  index_ne_zero share hshare := (mem_deal_iff.1 (hdrawn hshare)).1
  eq_of_index_eq share hshare other hother hindex := by
    rw [← (mem_deal_iff.1 (hdrawn hshare)).2.2, hindex]
    exact (mem_deal_iff.1 (hdrawn hother)).2.2

/-- Dealt shares with more distinct indices than there are rows of coefficients
combine to the secret. -/
theorem combine_of_subset_deal {drawn : List Share} (hdrawn : drawn ⊆ deal secret rows count)
    (hrows : rows.length < indexCount drawn) {required : UInt8} (hpos : required ≠ 0)
    (hle : required.toNat ≤ indexCount drawn) : combine drawn required = .ok secret := by
  have hdegree (j : Fin 32) : (bytePolynomial secret rows j).degree < indexCount drawn :=
    lt_of_lt_of_le (degree_bytePolynomial_lt secret rows j) (by exact_mod_cast hrows)
  have heval : ∀ share ∈ drawn, ∀ j : Fin 32,
      (bytePolynomial secret rows j).eval ⟨share.index⟩ = ⟨share.payload.get j⟩ := by
    intro share hshare j
    rw [eval_bytePolynomial, (mem_deal_iff.1 (hdrawn hshare)).2.2]
  rw [combine_eq_ok (consistent_of_subset_deal hdrawn) hpos hle hdegree heval,
    ofFn_eval_zero_bytePolynomial]

/-- Whatever the random bytes are, a secret can be rebuilt from every list of its
shares that has at least `threshold` distinct indices, for every number of shares
that is asked for and present. -/
theorem combine_drawn_shares (secret : Key) (count threshold : UInt8) (random : RandomSource)
    (hpos : 0 < threshold) (hle : threshold ≤ count) :
    ∃ shares rest, split secret count threshold random = .ok (shares, rest) ∧
      (shares.map fun share => share.index.toNat) = List.range' 1 count.toNat ∧
      ∀ drawn : List Share, drawn ⊆ shares → threshold.toNat ≤ indexCount drawn →
        ∀ required : UInt8, 0 < required → required.toNat ≤ indexCount drawn →
          combine drawn required = .ok secret := by
  have hsplit := split_eq_ok secret random (UInt8.pos_iff_ne_zero.1 hpos) hle
  refine ⟨_, _, hsplit, map_index_deal _ _ _, ?_⟩
  intro drawn hdrawn hthreshold required hrequired hcount
  refine combine_of_subset_deal hdrawn ?_ (UInt8.pos_iff_ne_zero.1 hrequired) hcount
  have hpos' := UInt8.lt_iff_toNat_lt.1 hpos
  rw [RandomSource.takeMany_length]
  rw [UInt8.toNat_zero] at hpos'
  omega

/-- Three of five shares in another order, one of them twice. -/
theorem combine_drawn_shares_three_of_five :
    ∃ shares rest,
      split (Vector.ofFn fun j => UInt8.ofNat (37 * j + 5)) 5 3 (SplitMix.source #[] 7) =
        .ok (shares, rest) ∧
      ∃ drawn : List Share, drawn ⊆ shares ∧ drawn.map Share.index = [4, 2, 4, 1] ∧
        combine drawn 3 = .ok (Vector.ofFn fun j => UInt8.ofNat (37 * j + 5)) := by
  obtain ⟨shares, rest, hsplit, hindices, hcombine⟩ :=
    combine_drawn_shares (Vector.ofFn fun j => UInt8.ofNat (37 * j + 5)) 5 3
      (SplitMix.source #[] 7) (by decide) (by decide)
  have hfive : shares.map Share.index = [1, 2, 3, 4, 5] := by
    have hofNat := congrArg (List.map UInt8.ofNat) hindices
    rw [List.map_map] at hofNat
    simpa [Function.comp_def, List.range'] using hofNat
  match shares, hfive with
  | [a, b, c, d, e], hfive =>
      simp only [List.map_cons, List.map_nil, List.cons.injEq, and_true] at hfive
      obtain ⟨ha, hb, -, hd, -⟩ := hfive
      have hdrawn : [d, b, d, a].map Share.index = [4, 2, 4, 1] := by
        simp [ha, hb, hd]
      have hcount : indexCount [d, b, d, a] = 3 := by
        rw [indexCount, hdrawn]
        decide
      refine ⟨_, _, hsplit, [d, b, d, a], by simp, hdrawn, ?_⟩
      exact hcombine _ (by simp) (by rw [hcount]; decide) 3 (by decide)
        (by rw [hcount]; decide)

end Sharing
end Quorum
