import Quorum.RandomSource

/-!
# What is read from a random source

Taking bytes moves the place in the stream and leaves the stream as it is, so what is read after
several steps is found by adding up how much these have taken.  A number below a bound is drawn
by attempts that read one after the other; drawing fails exactly if none of them reads a number
that is small enough.
-/

namespace Quorum
namespace RandomSource

theorem skip_skip (source : RandomSource) (m n : Nat) :
    (source.skip m).skip n = source.skip (m + n) := by
  simp only [skip, Nat.add_assoc]

/-- The source after byte strings that have been taken one after the other. -/
theorem takeMany_snd (source : RandomSource) (n count : Nat) :
    (source.takeMany n count).2 = source.skip (n * count) := by
  induction count generalizing source with
  | zero => rfl
  | succ count ih =>
      simp only [takeMany]
      rw [ih, skip_skip, Nat.mul_succ, Nat.add_comm]

/-- The number that is read by an attempt to draw one. -/
def candidate (source : RandomSource) (attempt : Nat) : Nat :=
  ofLittleEndian ((source.skip (32 * attempt)).next 32).toList % Nat.pow 2 255

/-- After a first attempt, the second is the first. -/
theorem candidate_skip (source : RandomSource) (attempt : Nat) :
    (source.skip 32).candidate attempt = source.candidate (attempt + 1) := by
  rw [candidate, candidate, skip_skip, Nat.mul_succ, Nat.add_comm]

theorem takeBelow_eq_none_iff {source : RandomSource} {bound attempts : Nat} :
    source.takeBelow bound attempts = none ↔
      ∀ attempt < attempts, bound ≤ source.candidate attempt := by
  induction attempts generalizing source with
  | zero => simp [takeBelow]
  | succ attempts ih =>
      -- The first attempt reads the first candidate; the others start after it.
      rw [takeBelow, Nat.forall_lt_succ_left]
      change (if h : source.candidate 0 < bound then _ else _) = none ↔ _
      by_cases hlt : source.candidate 0 < bound
      · rw [dif_pos hlt]
        refine iff_of_false (fun h => nomatch h) fun h => ?_
        exact absurd hlt (Nat.not_lt.2 h.1)
      · rw [dif_neg hlt, ih, and_iff_right (Nat.not_lt.1 hlt)]
        simp only [candidate_skip]

end RandomSource
end Quorum
