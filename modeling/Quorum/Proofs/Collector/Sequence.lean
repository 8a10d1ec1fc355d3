import Quorum.Proofs.Collector.Submission

/-!
# Sequences of submissions

Keys are submitted one after the other, and whatever the collector answers, the next one is
submitted as well, also after there are enough.  What is kept when a key is added holds
after the sequence if it held before; this is the only induction for invariants.

The servers from which the collector has a key in the end are those that it had before and
those for which one of the submissions verifies.  This does not depend on where in the
sequence that submission stands, nor on what else has been submitted for the server.
-/

namespace Quorum
namespace Collector

variable {suite : PairingSuite} {collector : Collector suite}

/-- The collector after all submissions, each of a key and the server that it is from. -/
def submitAll (collector : Collector suite) (submissions : List (ObjectId × Bytes 48)) :
    Collector suite :=
  submissions.foldl (fun collector submission => (collector.submit submission.1 submission.2).2)
    collector

theorem submitAll_cons (collector : Collector suite) (id : ObjectId) (encoded : Bytes 48)
    (rest : List (ObjectId × Bytes 48)) :
    collector.submitAll ((id, encoded) :: rest) =
      (collector.submit id encoded).2.submitAll rest := rfl

/-- What is kept when a key is added is kept by a sequence of submissions. -/
theorem submitAll_induction {motive : Collector suite → Prop}
    (hadd : ∀ collector id key, motive collector → collector.Accepts id key →
      motive (collector.add id key))
    (submissions : List (ObjectId × Bytes 48)) (hstart : motive collector) :
    motive (collector.submitAll submissions) := by
  induction submissions generalizing collector with
  | nil => exact hstart
  | cons submission rest ih =>
      obtain ⟨id, encoded⟩ := submission
      rw [submitAll_cons]
      exact ih (submit_induction (fun id key => hadd collector id key hstart) hstart id encoded)

theorem Consistent.submitAll (h : collector.Consistent)
    (submissions : List (ObjectId × Bytes 48)) : (collector.submitAll submissions).Consistent :=
  submitAll_induction (fun _ _ _ hconsistent haccepts => hconsistent.add haccepts) submissions h

/-- Submissions change neither what keys are collected for nor from whom. -/
theorem frame_submitAll (collector : Collector suite)
    (submissions : List (ObjectId × Bytes 48)) :
    (collector.submitAll submissions).identity = collector.identity ∧
      (collector.submitAll submissions).threshold = collector.threshold ∧
        (collector.submitAll submissions).publicKeys = collector.publicKeys := by
  let motive (after : Collector suite) : Prop :=
    after.identity = collector.identity ∧ after.threshold = collector.threshold ∧
      after.publicKeys = collector.publicKeys
  have hadd : ∀ before id key, motive before → before.Accepts id key →
      motive (before.add id key) := fun _ _ _ hbefore _ => hbefore
  exact submitAll_induction hadd submissions ⟨rfl, rfl, rfl⟩

/-- A collector that is ready stays so. -/
theorem state_submitAll_of_ready (hready : collector.state = .ready)
    (submissions : List (ObjectId × Bytes 48)) :
    (collector.submitAll submissions).state = .ready := by
  have hadd : ∀ before : Collector suite, ∀ id key, before.state = .ready →
      before.Accepts id key → (before.add id key).state = .ready := by
    intro before id key hbefore _
    by_cases henough : before.threshold ≤ (before.keys.insert id key).size
    · exact if_pos henough
    · exact (if_neg henough).trans hbefore
  exact submitAll_induction hadd submissions hready

/-! ## From whom there are keys -/

variable {id : ObjectId}

theorem mem_keys_submit_iff {sender : ObjectId} {encoded : Bytes 48} :
    id ∈ (collector.submit sender encoded).2.keys.keys ↔
      id ∈ collector.keys.keys ∨
        id = sender ∧ ∃ key, collector.contributed? (sender, .ok encoded) = some (sender, key) := by
  by_cases hmem : sender ∈ collector.keys.keys
  · -- Whatever is submitted for a server that has contributed already is refused.
    rcases submit_cases collector sender encoded with ⟨key, -, haccepts, -⟩ | ⟨-, hsubmit⟩
    · exact absurd hmem haccepts.not_mem_keys
    · rw [hsubmit, iff_self_or]
      rintro ⟨rfl, -⟩
      exact hmem
  · rcases submit_cases_of_not_mem hmem encoded with
      ⟨key, hcontributed, haccepts, hsubmit⟩ | ⟨hnone, hsubmit⟩
    · rw [hsubmit, keys_add haccepts, List.mem_append, List.mem_singleton, hcontributed]
      exact or_congr_right (iff_self_and.2 fun _ => ⟨key, rfl⟩)
    · rw [hsubmit, iff_self_or, hnone]
      rintro ⟨-, key, hkey⟩
      cases hkey

/-- After a sequence there are keys from the servers that there were keys from before, and
from those for which a submission contributes one. -/
theorem mem_keys_submitAll_iff {submissions : List (ObjectId × Bytes 48)} :
    id ∈ (collector.submitAll submissions).keys.keys ↔
      id ∈ collector.keys.keys ∨ ∃ encoded, (id, encoded) ∈ submissions ∧
        ∃ key, collector.contributed? (id, .ok encoded) = some (id, key) := by
  induction submissions generalizing collector with
  | nil => simp [submitAll]
  | cons submission rest ih =>
      obtain ⟨sender, first⟩ := submission
      have hframe : (collector.submit sender first).2.contributed? = collector.contributed? := by
        obtain ⟨hidentity, -, hpublicKeys⟩ := frame_submitAll collector [(sender, first)]
        rw [submitAll_cons] at hidentity hpublicKeys
        exact congrArg₂ (fun identity publicKeys =>
          contribution? suite identity (Table.get? publicKeys)) hidentity hpublicKeys
      rw [submitAll_cons, ih, mem_keys_submit_iff, hframe, or_assoc]
      refine or_congr_right ?_
      simp only [List.mem_cons, Prod.mk.injEq, or_and_right, exists_or, and_assoc,
        exists_and_left, exists_eq_left]
      refine or_congr_left (and_congr_right fun heq => ?_)
      rw [heq]

end Collector
end Quorum
