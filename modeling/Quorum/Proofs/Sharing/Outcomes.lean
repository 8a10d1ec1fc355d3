import Quorum.Proofs.Sharing.Combine

/-!
# What combining gives in every case

There are four cases, in this order: a threshold of zero, corrupt shares, shares of too few
indices, and all others.  In the last one the bytes of the result are the values at zero of
the polynomials through the shares, of which there is exactly one for every byte if its degree
is to be below the number of indices.

Each case is decided by the threshold and by which shares there are, so their order and
repetitions can change no more than what an error says: which of several faults comes first,
and how many shares there were.
-/

namespace Quorum

@[ext]
theorem Share.ext {share other : Share} (hindex : share.index = other.index)
    (hpayload : share.payload = other.payload) : share = other := by
  cases share
  cases other
  cases hindex
  cases hpayload
  rfl

namespace Sharing

open Polynomial

variable {shares others : List Share} {threshold : UInt8}

/-- Shares that belong to no sharing: an index is zero, or two shares contradict each
other. -/
def Corrupt (shares : List Share) : Prop :=
  (∃ share ∈ shares, share.index = 0) ∨
    ∃ share ∈ shares, ∃ other ∈ shares,
      share.index = other.index ∧ share.payload ≠ other.payload

/-- A fault that shares have, as it is reported. -/
inductive FaultOf (shares : List Share) : ShareFault → Prop where
  | reservedIndex {share : Share} (hshare : share ∈ shares) (hzero : share.index = 0) :
    FaultOf shares .reservedIndex
  | conflict {share other : Share} (hshare : share ∈ shares) (hother : other ∈ shares)
    (hindex : share.index = other.index) (hpayload : share.payload ≠ other.payload) :
    FaultOf shares (.conflict share.index.toNat)

theorem not_corrupt_iff : ¬ Corrupt shares ↔ Consistent shares := by
  constructor
  · intro h
    obtain ⟨hzero, hconflict⟩ := not_or.1 h
    refine ⟨fun share hshare hindex => hzero ⟨share, hshare, hindex⟩, ?_⟩
    intro share hshare other hother hindex
    by_contra hne
    exact hconflict ⟨share, hshare, other, hother, hindex,
      fun hpayload => hne (Share.ext hindex hpayload)⟩
  · rintro h (⟨share, hshare, hzero⟩ | ⟨share, hshare, other, hother, hindex, hpayload⟩)
    · exact h.index_ne_zero share hshare hzero
    · exact hpayload (congrArg Share.payload (h.eq_of_index_eq share hshare other hother hindex))

theorem FaultOf.mono {fault : ShareFault} (h : FaultOf shares fault) (hsubset : shares ⊆ others) :
    FaultOf others fault := by
  cases h with
  | reservedIndex hshare hzero => exact .reservedIndex (hsubset hshare) hzero
  | conflict hshare hother hindex hpayload =>
      exact .conflict (hsubset hshare) (hsubset hother) hindex hpayload

/-- A polynomial of a degree below the number of indices has the bytes of the shares at place
`j` as its values. -/
def Through (shares : List Share) (j : Fin 32) (p : GF256[X]) : Prop :=
  p.degree < indexCount shares ∧
    ∀ share ∈ shares, p.eval ⟨share.index⟩ = ⟨share.payload.get j⟩

theorem Through.unique {j : Fin 32} {p q : GF256[X]} (hp : Through shares j p)
    (hq : Through shares j q) : p = q := by
  apply eq_of_degrees_lt_of_eval_index_eq _ GF256.mk_injective.injOn hp.1 hq.1
  intro index hindex
  obtain ⟨share, hshare, rfl⟩ := List.mem_map.1 (List.mem_toFinset.1 hindex)
  rw [hp.2 share hshare, hq.2 share hshare]

theorem Consistent.existsUnique_through (h : Consistent shares) (j : Fin 32) :
    ∃! p, Through shares j p := by
  obtain ⟨p, hdegree, heval⟩ := h.exists_polynomials
  have hp : Through shares j (p j) := ⟨hdegree j, fun share hshare => heval share hshare j⟩
  exact ⟨p j, hp, fun q hq => hq.unique hp⟩

/-! ## Corrupt shares -/

theorem Consistent.concat (h : Consistent shares) {share : Share} (hne : share.index ≠ 0)
    (hnew : ∀ known ∈ shares, known.index ≠ share.index) : Consistent (shares ++ [share]) where
  index_ne_zero other hother := by
    rcases List.mem_append.1 hother with hmem | hmem
    · exact h.index_ne_zero other hmem
    · exact List.mem_singleton.1 hmem ▸ hne
  eq_of_index_eq first hfirst second hsecond hindex := by
    simp only [List.mem_append, List.mem_singleton] at hfirst hsecond
    rcases hfirst with hfirst | rfl <;> rcases hsecond with hsecond | rfl
    · exact h.eq_of_index_eq first hfirst second hsecond hindex
    · exact absurd hindex (hnew first hfirst)
    · exact absurd hindex.symm (hnew second hsecond)
    · rfl

/-- Nothing is kept of shares that are not consistent. -/
theorem consistent_of_distinct {seen points : List Share} (hseen : Consistent seen)
    (h : distinct seen shares = .ok points) : Consistent (seen ++ shares) := by
  -- What has been kept stays consistent, as only a share of a new index is added to it.
  induction shares generalizing seen with
  | nil => rwa [List.append_nil]
  | cons share rest ih =>
      rw [distinct, Outcome.guard_eq_ok_iff] at h
      obtain ⟨hne, h⟩ := h
      cases hfind : seen.find? fun known => known.index = share.index with
      | none =>
          rw [hfind] at h
          have hnew : ∀ known ∈ seen, known.index ≠ share.index := by
            simpa using List.find?_eq_none.1 hfind
          have hrest := ih (hseen.concat hne hnew) h
          rwa [List.append_assoc] at hrest
      | some known =>
          have hknown : known ∈ seen := List.mem_of_find?_eq_some hfind
          have hindex : known.index = share.index := by
            simpa using List.find?_some hfind
          simp only [hfind] at h
          split at h
          · rename_i hpayload
            obtain rfl : known = share := Share.ext hindex hpayload
            refine (ih hseen h).subset fun other hother => ?_
            simp only [List.mem_append, List.mem_cons] at hother ⊢
            rcases hother with hother | rfl | hother
            · exact .inl hother
            · exact .inl hknown
            · exact .inr hother
          · cases h

/-- What is reported of shares is a fault that they have. -/
theorem exists_of_distinct_eq_error {seen : List Share} {error : SealingError}
    (h : distinct seen shares = .error error) :
    ∃ fault, FaultOf (seen ++ shares) fault ∧ error = .corruptShare fault := by
  induction shares generalizing seen with
  | nil => cases h
  | cons share rest ih =>
      have hshare : share ∈ seen ++ share :: rest := by simp
      rw [distinct] at h
      split at h
      · rename_i hzero
        cases h
        exact ⟨_, .reservedIndex hshare hzero, rfl⟩
      · cases hfind : seen.find? fun known => known.index = share.index with
        | none =>
            rw [hfind] at h
            obtain ⟨fault, hfault, rfl⟩ := ih h
            rw [List.append_assoc] at hfault
            exact ⟨fault, hfault, rfl⟩
        | some known =>
            have hknown : known ∈ seen ++ share :: rest :=
              List.mem_append_left _ (List.mem_of_find?_eq_some hfind)
            have hindex : known.index = share.index := by
              simpa using List.find?_some hfind
            simp only [hfind] at h
            split at h
            · obtain ⟨fault, hfault, rfl⟩ := ih h
              exact ⟨fault, hfault.mono (by simp), rfl⟩
            · rename_i hpayload
              cases h
              exact ⟨_, .conflict hshare hknown hindex.symm (Ne.symm hpayload), rfl⟩

/-! ## The four cases -/

theorem combine_zero (shares : List Share) :
    combine shares 0 = .error (.invalidParameters 0 (min shares.length 255)) := by
  rw [combine, if_pos rfl]

theorem combine_of_corrupt (hthreshold : threshold ≠ 0) (h : Corrupt shares) :
    ∃ fault, FaultOf shares fault ∧ combine shares threshold = .error (.corruptShare fault) := by
  cases hdistinct : distinct [] shares with
  | ok points =>
      have hempty : Consistent [] := ⟨by simp, by simp⟩
      exact absurd h (not_corrupt_iff.2 (consistent_of_distinct hempty hdistinct))
  | error error =>
      obtain ⟨fault, hfault, rfl⟩ := exists_of_distinct_eq_error hdistinct
      exact ⟨fault, hfault, by rw [combine, if_neg hthreshold, hdistinct]; rfl⟩

theorem combine_of_few (hthreshold : threshold ≠ 0) (h : Consistent shares)
    (hfew : indexCount shares < threshold.toNat) : combine shares threshold =
      .error (.insufficientShares threshold.toNat (indexCount shares)) := by
  obtain ⟨points, hpoints, -, hlength, -⟩ := distinct_nil_eq_ok h
  rw [← hlength] at hfew ⊢
  rw [combine, if_neg hthreshold, hpoints, Outcome.ok_bind, if_pos hfew]

/-- The bytes of the result are the values at zero of the polynomials through the shares. -/
theorem combine_of_enough (hthreshold : threshold ≠ 0) (h : Consistent shares)
    (henough : threshold.toNat ≤ indexCount shares) :
    ∃ secret, combine shares threshold = .ok secret ∧
      ∀ j : Fin 32, ∀ p, Through shares j p → p.eval 0 = ⟨secret.get j⟩ := by
  obtain ⟨p, hdegree, heval⟩ := h.exists_polynomials
  refine ⟨_, combine_eq_ok h hthreshold henough hdegree heval, fun j q hq => ?_⟩
  have hp : Through shares j (p j) := ⟨hdegree j, fun share hshare => heval share hshare j⟩
  simp [hq.unique hp]

theorem combine_cases (shares : List Share) (threshold : UInt8) :
    (threshold = 0 ∧
      combine shares threshold = .error (.invalidParameters 0 (min shares.length 255))) ∨
    (threshold ≠ 0 ∧ Corrupt shares ∧ ∃ fault, FaultOf shares fault ∧
      combine shares threshold = .error (.corruptShare fault)) ∨
    (threshold ≠ 0 ∧ ¬ Corrupt shares ∧ indexCount shares < threshold.toNat ∧
      combine shares threshold =
        .error (.insufficientShares threshold.toNat (indexCount shares))) ∨
    (threshold ≠ 0 ∧ ¬ Corrupt shares ∧ threshold.toNat ≤ indexCount shares ∧
      ∃ secret, combine shares threshold = .ok secret) := by
  by_cases hthreshold : threshold = 0
  · subst hthreshold
    exact .inl ⟨rfl, combine_zero shares⟩
  by_cases hcorrupt : Corrupt shares
  · exact .inr (.inl ⟨hthreshold, hcorrupt, combine_of_corrupt hthreshold hcorrupt⟩)
  have hconsistent : Consistent shares := not_corrupt_iff.1 hcorrupt
  by_cases hfew : indexCount shares < threshold.toNat
  · exact .inr (.inr (.inl ⟨hthreshold, hcorrupt, hfew,
      combine_of_few hthreshold hconsistent hfew⟩))
  · have henough := Nat.not_lt.1 hfew
    exact .inr (.inr (.inr ⟨hthreshold, hcorrupt, henough,
      exists_combine_eq_ok hconsistent hthreshold henough⟩))

theorem combine_eq_invalidParameters_iff {required count : Nat} :
    combine shares threshold = .error (.invalidParameters required count) ↔
      threshold = 0 ∧ required = 0 ∧ count = min shares.length 255 := by
  rcases combine_cases shares threshold with ⟨hzero, h⟩ | ⟨hne, -, _, -, h⟩ | ⟨hne, -, -, h⟩ |
    ⟨hne, -, -, _, h⟩
  · rw [h]
    simp [hzero, eq_comm]
  · simp [h, hne]
  · simp [h, hne]
  · simp [h, hne]

theorem exists_combine_eq_corruptShare_iff :
    (∃ fault, combine shares threshold = .error (.corruptShare fault)) ↔
      threshold ≠ 0 ∧ Corrupt shares := by
  rcases combine_cases shares threshold with ⟨hzero, h⟩ | ⟨hne, hcorrupt, _, -, h⟩ |
    ⟨-, hcorrupt, -, h⟩ | ⟨-, hcorrupt, -, _, h⟩
  · rw [h]
    simp [hzero]
  · simp [h, hne, hcorrupt]
  · simp [h, hcorrupt]
  · simp [h, hcorrupt]

theorem combine_eq_insufficientShares_iff {required got : Nat} :
    combine shares threshold = .error (.insufficientShares required got) ↔
      threshold ≠ 0 ∧ ¬ Corrupt shares ∧ required = threshold.toNat ∧
        got = indexCount shares ∧ got < required := by
  rcases combine_cases shares threshold with ⟨hzero, h⟩ | ⟨-, hcorrupt, _, -, h⟩ |
    ⟨hne, hcorrupt, hfew, h⟩ | ⟨-, -, henough, _, h⟩
  · rw [h]
    simp [hzero]
  · simp [h, hcorrupt]
  · simp only [h, Except.error.injEq, SealingError.insufficientShares.injEq]
    constructor
    · rintro ⟨rfl, rfl⟩
      exact ⟨hne, hcorrupt, rfl, rfl, hfew⟩
    · rintro ⟨-, -, rfl, rfl, -⟩
      exact ⟨rfl, rfl⟩
  · simp only [h, reduceCtorEq, false_iff]
    rintro ⟨-, -, rfl, rfl, hfew⟩
    omega

theorem faultOf_of_combine {fault : ShareFault}
    (hcombine : combine shares threshold = .error (.corruptShare fault)) :
    FaultOf shares fault := by
  rcases combine_cases shares threshold with ⟨-, h⟩ | ⟨-, -, fault', hfault, h⟩ | ⟨-, -, -, h⟩ |
    ⟨-, -, -, _, h⟩
  · simp [h] at hcombine
  · obtain rfl : fault' = fault := by simpa [h] using hcombine
    exact hfault
  · simp [h] at hcombine
  · simp [h] at hcombine

/-- Interpolation does not fail: the places are distinct by the time it starts. -/
theorem combine_ne_repeatedPoint (shares : List Share) (threshold : UInt8) :
    combine shares threshold ≠ .error (.corruptShare .repeatedPoint) := by
  intro h
  cases faultOf_of_combine h

/-! ## Order and repetitions -/

/-- Two results are the same secret or errors of the same kind, which may differ in what is
said about corrupt shares and in the number of shares that there were. -/
inductive SameEnding : (first second : Except SealingError Key) → Prop where
  | ok (secret : Key) : SameEnding (.ok secret) (.ok secret)
  | invalidParameters (required count count' : Nat) :
    SameEnding (.error (.invalidParameters required count))
      (.error (.invalidParameters required count'))
  | corruptShare (fault fault' : ShareFault) :
    SameEnding (.error (.corruptShare fault)) (.error (.corruptShare fault'))
  | insufficientShares (required got : Nat) :
    SameEnding (.error (.insufficientShares required got))
      (.error (.insufficientShares required got))

theorem corrupt_congr (h : ∀ share, share ∈ others ↔ share ∈ shares) :
    Corrupt others ↔ Corrupt shares := by
  simp only [Corrupt, h]

theorem through_congr (h : ∀ share, share ∈ others ↔ share ∈ shares) {j : Fin 32}
    {p : GF256[X]} : Through others j p ↔ Through shares j p := by
  simp only [Through, indexCount_congr h, h]

theorem combine_congr (h : ∀ share, share ∈ others ↔ share ∈ shares) (threshold : UInt8) :
    SameEnding (combine shares threshold) (combine others threshold) := by
  by_cases hthreshold : threshold = 0
  · subst hthreshold
    rw [combine_zero, combine_zero]
    exact .invalidParameters _ _ _
  by_cases hcorrupt : Corrupt shares
  · obtain ⟨fault, -, hshares⟩ := combine_of_corrupt hthreshold hcorrupt
    obtain ⟨fault', -, hothers⟩ := combine_of_corrupt hthreshold ((corrupt_congr h).2 hcorrupt)
    rw [hshares, hothers]
    exact .corruptShare _ _
  have hconsistent : Consistent shares := not_corrupt_iff.1 hcorrupt
  have hconsistent' : Consistent others := hconsistent.subset fun share => (h share).1
  have hcount := indexCount_congr h
  by_cases hfew : indexCount shares < threshold.toNat
  · rw [combine_of_few hthreshold hconsistent hfew,
      combine_of_few hthreshold hconsistent' (hcount ▸ hfew), hcount]
    exact .insufficientShares _ _
  · have henough := Nat.not_lt.1 hfew
    obtain ⟨secret, hshares, hsecret⟩ := combine_of_enough hthreshold hconsistent henough
    obtain ⟨secret', hothers, hsecret'⟩ :=
      combine_of_enough hthreshold hconsistent' (hcount ▸ henough)
    -- Through both go the same polynomials, and there is one for every byte.
    have heq : secret' = secret := by
      apply Vector.ext
      intro j hj
      obtain ⟨p, hp, -⟩ := hconsistent.existsUnique_through ⟨j, hj⟩
      have hvalue := (hsecret' ⟨j, hj⟩ p ((through_congr h).2 hp)).symm.trans (hsecret ⟨j, hj⟩ p hp)
      exact GF256.mk_injective hvalue
    rw [hshares, hothers, heq]
    exact .ok _

/-! ## All of it -/

/-- Combining refuses a threshold of zero, then corrupt shares, then shares of fewer indices
than the threshold says, and nothing else; in particular no interpolation fails.  Otherwise
it gives the values at zero of the unique polynomials through the shares.  The same shares in
another order or with other repetitions end in the same way. -/
theorem combine_classification (shares : List Share) (threshold : UInt8) :
    (∀ required count, combine shares threshold = .error (.invalidParameters required count) ↔
      threshold = 0 ∧ required = 0 ∧ count = min shares.length 255) ∧
    ((∃ fault, combine shares threshold = .error (.corruptShare fault)) ↔
      threshold ≠ 0 ∧ Corrupt shares) ∧
    (∀ required got, combine shares threshold = .error (.insufficientShares required got) ↔
      threshold ≠ 0 ∧ ¬ Corrupt shares ∧ required = threshold.toNat ∧
        got = indexCount shares ∧ got < required) ∧
    (threshold ≠ 0 → ¬ Corrupt shares → threshold.toNat ≤ indexCount shares →
      ∃ secret, combine shares threshold = .ok secret ∧ ∀ j : Fin 32,
        (∃! p, Through shares j p) ∧ ∀ p, Through shares j p → p.eval 0 = ⟨secret.get j⟩) ∧
    (∀ fault, combine shares threshold = .error (.corruptShare fault) → FaultOf shares fault) ∧
    combine shares threshold ≠ .error (.corruptShare .repeatedPoint) ∧
    ∀ others, (∀ share, share ∈ others ↔ share ∈ shares) →
      SameEnding (combine shares threshold) (combine others threshold) := by
  refine ⟨fun _ _ => combine_eq_invalidParameters_iff, exists_combine_eq_corruptShare_iff,
    fun _ _ => combine_eq_insufficientShares_iff, fun hthreshold hcorrupt henough => ?_,
    fun _ => faultOf_of_combine, combine_ne_repeatedPoint shares threshold,
    fun others h => combine_congr h threshold⟩
  have hconsistent := not_corrupt_iff.1 hcorrupt
  obtain ⟨secret, hsecret, hvalue⟩ := combine_of_enough hthreshold hconsistent henough
  exact ⟨secret, hsecret, fun j => ⟨hconsistent.existsUnique_through j, hvalue j⟩⟩

end Sharing
end Quorum
