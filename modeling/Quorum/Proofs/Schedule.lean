import Quorum.Schedule

/-!
# Every request ends once

However few slots there are and however long requests take, the schedule of a list of
requests has one completion for each of them.  Whether a request is given up is decided by
how long it takes itself, not by how long it has waited for a slot.
-/

namespace Quorum

variable {α : Type}

/-- The result of a request, and whether it is given up. -/
def Job.outcome (timeout : Nat) (job : Job α) : α × Bool :=
  (job.result, decide (timeout < job.duration))

/-- The result of a request that has ended, and whether it was given up. -/
def Completion.outcome (completion : Completion α) : α × Bool :=
  (completion.result, completion.timedOut)

namespace Schedule

theorem insertTime_ne_nil (time : Nat) (slots : List Nat) : insertTime time slots ≠ [] := by
  cases slots with
  | nil => simp [insertTime]
  | cons first rest =>
      unfold insertTime
      split
      · exact List.cons_ne_nil _ _
      · exact List.cons_ne_nil _ _

/-- Requests that have a slot end in turn. -/
theorem map_outcome_assign (timeout : Nat) {slots : List Nat} (hslots : slots ≠ [])
    (jobs : List (Job α)) :
    (assign timeout slots jobs).map Completion.outcome = jobs.map (Job.outcome timeout) := by
  induction jobs generalizing slots with
  | nil => simp [assign]
  | cons job rest ih =>
      cases slots with
      | nil => exact absurd rfl hslots
      | cons free slots =>
          rw [assign, List.map_cons, List.map_cons, ih (insertTime_ne_nil _ _)]
          rfl

theorem perm_map_outcome_completions (concurrency timeout : Nat) (jobs : List (Job α)) :
    ((completions concurrency timeout jobs).map Completion.outcome).Perm
      (jobs.map (Job.outcome timeout)) := by
  have hassign : (assign timeout (List.replicate (min (max 1 concurrency) jobs.length) 0)
      jobs).map Completion.outcome = jobs.map (Job.outcome timeout) := by
    cases jobs with
    | nil => simp [assign]
    | cons job rest =>
        refine map_outcome_assign timeout (fun hnil => ?_) _
        rw [List.replicate_eq_nil_iff, List.length_cons] at hnil
        omega
  rw [← hassign]
  exact (List.mergeSort_perm _ _).map Completion.outcome

end Schedule
end Quorum
