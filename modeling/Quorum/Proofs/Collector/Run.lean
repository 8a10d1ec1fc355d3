import Quorum.Proofs.Collector.Start

/-!
# Runs of a collector

A run submits answers until enough keys have been collected, so it is a sequence of
submissions, and what holds after every sequence holds after a run.

If every server answers at most once, the keys that a run collects are the first ones that
the answers contribute, as many as are needed, and the run fails only if the answers
contribute fewer.  Answers without a key neither stop a run nor count.
-/

namespace Quorum
namespace Collector

variable {suite : PairingSuite} {collector : Collector suite}

/-- A run is a sequence of submissions: of the keys among the answers, up to the one that
makes the collector ready. -/
theorem exists_run_eq_submitAll (collector : Collector suite)
    (answers : List (ObjectId × Answer)) :
    ∃ submissions, (collector.run answers).1 = collector.submitAll submissions := by
  induction answers generalizing collector with
  | nil => exact ⟨[], rfl⟩
  | cons answer rest ih =>
      obtain ⟨id, result⟩ := answer
      cases result with
      | error failure => exact ih collector
      | ok encoded =>
          simp only [run]
          split
          · exact ⟨[(id, encoded)], rfl⟩
          · obtain ⟨submissions, hrest⟩ := ih (collector.submit id encoded).2
            exact ⟨(id, encoded) :: submissions, hrest⟩

theorem Consistent.run (h : collector.Consistent) (answers : List (ObjectId × Answer)) :
    (collector.run answers).1.Consistent := by
  obtain ⟨submissions, hrun⟩ := exists_run_eq_submitAll collector answers
  rw [hrun]
  exact h.submitAll submissions

/-- A run changes neither what keys are collected for nor from whom. -/
theorem frame_run (collector : Collector suite) (answers : List (ObjectId × Answer)) :
    (collector.run answers).1.identity = collector.identity ∧
      (collector.run answers).1.threshold = collector.threshold ∧
        (collector.run answers).1.publicKeys = collector.publicKeys := by
  obtain ⟨submissions, hrun⟩ := exists_run_eq_submitAll collector answers
  rw [hrun]
  exact frame_submitAll collector submissions

/-! ## Every server answers once -/

/-- A run adds the first keys that the answers contribute, as many as are missing. -/
theorem entries_run (hconsistent : collector.Consistent)
    (hwaiting : collector.keys.size < collector.threshold) {answers : List (ObjectId × Answer)}
    (hnodup : (answers.map Prod.fst).Nodup)
    (hnew : ∀ answer ∈ answers, answer.1 ∉ collector.keys.keys) :
    (collector.run answers).1.keys.entries = collector.keys.entries ++
      (answers.filterMap collector.contributed?).take
        (collector.threshold - collector.keys.size) := by
  induction answers generalizing collector with
  | nil => simp [run]
  | cons answer rest ih =>
      obtain ⟨id, result⟩ := answer
      obtain ⟨hid, hrest⟩ := List.nodup_cons.1 hnodup
      have hnewId : id ∉ collector.keys.keys := hnew (id, result) (by simp)
      have hnewRest : ∀ answer ∈ rest, answer.1 ∉ collector.keys.keys :=
        fun answer hanswer => hnew answer (by simp [hanswer])
      cases result with
      | error failure => exact ih hconsistent hwaiting hrest hnewRest
      | ok encoded =>
          rcases submit_cases_of_not_mem hnewId encoded with
            ⟨key, hcontributed, haccepts, hsubmit⟩ | ⟨hnone, hsubmit⟩
          · have hafter := hconsistent.add haccepts
            have hsize := size_add haccepts
            have hthreshold : (collector.add id key).threshold = collector.threshold := rfl
            simp only [run, hsubmit, hafter.ready_iff, hthreshold, hsize, List.filterMap_cons,
              hcontributed]
            by_cases henough : collector.threshold ≤ collector.keys.size + 1
            · -- This was the last key that was missing.
              have hone : collector.threshold - collector.keys.size = 1 := by omega
              rw [if_pos henough, hone, entries_add haccepts]
              rfl
            · have hmissing : collector.threshold - collector.keys.size =
                  collector.threshold - (collector.keys.size + 1) + 1 := by omega
              have hnewAfter : ∀ answer ∈ rest, answer.1 ∉ (collector.add id key).keys.keys := by
                intro answer hanswer
                rw [keys_add haccepts, List.mem_append, List.mem_singleton, not_or]
                exact ⟨hnewRest answer hanswer,
                  fun heq => hid (List.mem_map.2 ⟨answer, hanswer, heq⟩)⟩
              have hrun := ih hafter (by omega) hrest hnewAfter
              rw [if_neg henough, hrun, hmissing, List.take_succ_cons, entries_add haccepts,
                hthreshold, hsize, List.append_assoc]
              rfl
          · have hcollecting : ¬ collector.state = .ready := fun hready =>
              absurd (hconsistent.ready_iff.1 hready) (by omega)
            simp only [run, hsubmit, if_neg hcollecting, List.filterMap_cons, hnone]
            exact ih hconsistent hwaiting hrest hnewRest

/-! ## From the start -/

variable {object : SealedObject} {servers : ServerSet suite}

/-- A run from the start ends with the first keys that the answers contribute, or with
their number if they are not enough. -/
theorem Started.result_run (h : Started object servers collector) (hvalid : object.Valid)
    {answers : List (ObjectId × Answer)} (hnodup : (answers.map Prod.fst).Nodup) :
    let contributed := answers.filterMap collector.contributed?
    (object.threshold.toNat ≤ contributed.length →
      ∃ ring, (collector.run answers).1.result = .ok ring ∧
        ring.entries = contributed.take object.threshold.toNat) ∧
    (contributed.length < object.threshold.toNat →
      (collector.run answers).1.result =
        .error (.thresholdNotMet contributed.length object.threshold.toNat)) := by
  intro contributed
  have hnew : ∀ answer ∈ answers, answer.1 ∉ collector.keys.keys := by
    intro answer _
    rw [h.keys_eq]
    exact List.not_mem_nil
  have hentries : (collector.run answers).1.keys.entries =
      contributed.take object.threshold.toNat := by
    rw [entries_run (h.consistent hvalid) (h.size_lt hvalid) hnodup hnew, h.keys_eq,
      h.threshold_eq]
    rfl
  have hsize : (collector.run answers).1.keys.size =
      min object.threshold.toNat contributed.length := by
    rw [Table.size, hentries, List.length_take]
  have hthreshold : (collector.run answers).1.threshold = object.threshold.toNat := by
    rw [(frame_run collector answers).2.1, h.threshold_eq]
  have hready := ((h.consistent hvalid).run answers).ready_iff
  rw [hthreshold, hsize] at hready
  constructor
  · intro henough
    exact ⟨_, if_pos (hready.2 (by omega)), hentries⟩
  · intro hfew
    have hnot : ¬ (collector.run answers).1.state = .ready := fun hstate =>
      absurd (hready.1 hstate) (by omega)
    rw [result, if_neg hnot, collected, hsize, hthreshold, Nat.min_eq_right (Nat.le_of_lt hfew)]

end Collector
end Quorum
