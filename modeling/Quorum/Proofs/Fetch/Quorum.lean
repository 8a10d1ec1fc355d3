import Quorum.Proofs.Bls.Infinity
import Quorum.Proofs.Fetch.Plan

/-!
# Fetching decides by valid answers alone

Each target ends its request in some way, and the ends come in some order.  Whatever they
are, a fetch succeeds exactly if as many answers are valid as the threshold says, and it
then gives the first of them that came.  Requests that fail, time out or break off, and
keys that do not verify, neither count nor hinder.

The number of requests that may be under way at a time must be one that can be allowed;
with a larger one the fetch breaks off, although all answers may be valid.
-/

namespace Quorum
namespace Fetch

variable {suite : PairingSuite} {infos : List ServerInfo} {object : SealedObject}
  {limits : FetchLimits}

/-- A result is decided by the valid answers: if they are enough, it is a ring with the first
of them, and otherwise it says how many there are, or none if there are too few targets to
begin with. -/
def DecidedBy (object : SealedObject) (servers : ServerSet suite) (targets : List Target)
    (answers : List (ObjectId × Answer)) (result : Except RequestFailure (KeyRing suite)) : Prop :=
  let threshold := object.threshold.toNat
  let valid := answers.filterMap (contribution? suite object.identity servers.publicKey?)
  (threshold ≤ valid.length → ∃ ring, result = .ok ring ∧ ring.size = threshold ∧
    ring.entries = valid.take threshold) ∧
  (valid.length < threshold → result = .error (.error (.thresholdNotMet
    (if threshold ≤ targets.length then valid.length else 0) threshold)))

theorem Planned.decidedBy_keys {servers : ServerSet suite} {collector : Collector suite}
    {targets : List Target} (h : Planned infos object servers collector targets)
    (hvalid : object.Valid) (hlimits : limits.concurrency ≤ FetchLimits.maxConcurrency)
    (complete : List Target → List (ObjectId × Answer))
    (hperm : ((complete targets).map Prod.fst).Perm (targets.map Target.id)) :
    DecidedBy object servers targets (complete targets)
      (keys suite infos object limits complete) := by
  unfold DecidedBy
  intro threshold valid
  have hplan := h.plan_eq
  by_cases htoo : threshold ≤ targets.length
  · -- Only services of the object answer, so what they contribute is decided by the set.
    have hservice : ∀ answer ∈ complete targets,
        answer.1 ∈ object.services.map Service.server := fun answer hanswer =>
      (h.targetsOf.mem_ids_iff.1 (hperm.mem_iff.1 (List.mem_map_of_mem hanswer))).1
    have hcontributed : (complete targets).filterMap collector.contributed? = valid :=
      List.filterMap_congr fun answer hanswer =>
        h.started.contributed?_eq (hservice answer hanswer)
    have hnodup : ((complete targets).map Prod.fst).Nodup :=
      hperm.nodup_iff.2 h.targetsOf.nodup_ids
    obtain ⟨henough, hfew⟩ := h.started.result_run hvalid hnodup
    rw [hcontributed] at henough hfew
    rw [if_neg (Nat.not_lt.2 htoo)] at hplan
    rw [keys_eq_result_of_plan hplan hlimits, if_pos htoo]
    constructor
    · intro hle
      obtain ⟨ring, hring, hentries⟩ := henough hle
      refine ⟨ring, by rw [hring]; rfl, ?_, hentries⟩
      rw [Table.size, hentries, List.length_take_of_le hle]
    · intro hlt
      rw [hfew hlt]
      rfl
  · -- Nobody is asked then, but fewer answers would be valid in any case.
    have hlength : valid.length ≤ targets.length := by
      calc
        valid.length ≤ (complete targets).length := List.length_filterMap_le _ _
        _ = targets.length := by simpa using hperm.length_eq
    rw [if_pos (Nat.not_le.1 htoo)] at hplan
    rw [keys_eq_error_of_plan hplan, if_neg htoo]
    exact ⟨fun hle => absurd (Nat.le_trans hle hlength) htoo, fun _ => rfl⟩

/-- Fetching is decided by the valid answers, in whatever way and in whatever order the
targets end their requests; so it is on the virtual clock, whatever the client and the
request are. -/
theorem keys_of_valid_answers {servers : ServerSet suite}
    (hservers : ServerSet.ofInfos suite infos = .ok servers)
    (hvalidate : object.validate = .ok ())
    (hconcurrency : limits.concurrency ≤ FetchLimits.maxConcurrency) :
    ∃ targets, TargetsOf infos object targets ∧
      (∀ complete, ((complete targets).map Prod.fst).Perm (targets.map Target.id) →
        DecidedBy object servers targets (complete targets)
          (keys suite infos object limits complete)) ∧
      (∀ client request,
        DecidedBy object servers targets (answersInTime client request limits targets)
          (timed suite client infos object request limits).1) := by
  have hvalid := SealedObject.validate_eq_ok_iff.1 hvalidate
  obtain ⟨collector, targets, hplanned⟩ := exists_planned hservers hvalid
  refine ⟨targets, hplanned.targetsOf, fun complete hperm => ?_, fun client request => ?_⟩
  · exact hplanned.decidedBy_keys hvalid hconcurrency complete hperm
  · rw [timed_fst]
    exact hplanned.decidedBy_keys hvalid hconcurrency _
      (perm_answersInTime client request limits targets)

open PairingSuite in
/-- Three servers are asked for two keys.  One of the requests breaks off; a fourth
service of the object is not known, and one is listed twice. -/
theorem keys_of_valid_answers_two_of_three :
    let object : SealedObject := {
      version := 0
      packageId := idOf 7
      innerId := [1, 2]
      services := [⟨idOf 3, 2⟩, ⟨idOf 9, 4⟩, ⟨idOf 2, 1⟩, ⟨idOf 3, 7⟩, ⟨idOf 5, 3⟩]
      threshold := 2
      encapsulation := Vector.replicate 96 0
      shares := List.replicate 5 (Vector.replicate 32 0)
      ciphertext := .plain }
    let issued := fun id => Ibe.extract discreteLog (masterKeyOf id) object.identity
    let answers : List (ObjectId × Answer) := [(idOf 3, .error .crash),
      (idOf 5, .ok (discreteLog.encode1 (issued (idOf 5)))),
      (idOf 2, .ok (discreteLog.encode1 (issued (idOf 2))))]
    ∃ ring, keys discreteLog threeInfos object { concurrency := 0 } (fun _ => answers) = .ok ring ∧
      ring.entries = [(idOf 5, issued (idOf 5)), (idOf 2, issued (idOf 2))] := by
  intro object issued answers
  have hcontribution (id : ObjectId) (hid : id ∈ threeServers.servers.map KeyServer.id) :
      contribution? discreteLog object.identity threeServers.publicKey?
        (id, .ok (discreteLog.encode1 (issued id))) = some (id, issued id) :=
    contribution?_extract discreteLog_lawful (publicKey?_threeServers hid) object.identity
  have hvalid : answers.filterMap
      (contribution? discreteLog object.identity threeServers.publicKey?) =
        [(idOf 5, issued (idOf 5)), (idOf 2, issued (idOf 2))] := by
    have hfirst := hcontribution (idOf 5) (by decide)
    have hsecond := hcontribution (idOf 2) (by decide)
    have hbroken : contribution? discreteLog object.identity threeServers.publicKey?
        (idOf 3, .error .crash) = none := rfl
    simp only [answers, List.filterMap_cons, List.filterMap_nil, hbroken, hfirst, hsecond]
  have hcomplete : ∀ targets, TargetsOf threeInfos object targets →
      (answers.map Prod.fst).Perm (targets.map Target.id) := by
    intro targets htargets
    refine htargets.perm_ids (by decide) fun id => ?_
    constructor
    · intro hid
      simp only [answers, List.map_cons, List.map_nil, List.mem_cons, List.not_mem_nil,
        or_false] at hid
      rcases hid with rfl | rfl | rfl
      · decide
      · decide
      · decide
    · rintro ⟨-, hid⟩
      simp only [threeInfos, threeServers, List.map_cons, List.map_nil, List.mem_cons,
        List.not_mem_nil, or_false] at hid
      rcases hid with rfl | rfl | rfl
      · decide
      · decide
      · decide
  have hconcurrency : ({ concurrency := 0 } : FetchLimits).concurrency ≤
      FetchLimits.maxConcurrency := Nat.zero_le _
  have hvalidate : object.validate = .ok () := rfl
  obtain ⟨targets, htargets, hdecided, -⟩ :=
    keys_of_valid_answers ofInfos_threeInfos hvalidate hconcurrency
  have henough := (hdecided (fun _ => answers) (hcomplete targets htargets)).1
  rw [hvalid] at henough
  obtain ⟨ring, hring, -, hentries⟩ := henough (by decide)
  exact ⟨ring, hring, hentries⟩

open PairingSuite Bls in
/-- A fetch that breaks off because it allows `2 ^ 61` requests at a time, although its only
target gives a valid answer. -/
theorem keys_eq_crash_of_two_pow_concurrency :
    let object : SealedObject := {
      version := 0
      packageId := idOf 7
      innerId := [1, 2]
      services := [⟨idOf 1, 1⟩]
      threshold := 1
      encapsulation := G2.encode Member.infinity
      shares := [Vector.replicate 32 0]
      ciphertext := .plain }
    let infos : List ServerInfo :=
      [{ id := idOf 1, name := "", url := "u", publicKey := G2.encode Member.infinity }]
    let complete : List Target → List (ObjectId × Answer) := fun targets =>
      targets.map fun target => (target.id, .ok (G1.encode Member.infinity))
    ∃ servers, ServerSet.ofInfos Bls.suite infos = .ok servers ∧ object.validate = .ok () ∧
      (∀ targets, ((complete targets).map Prod.fst).Perm (targets.map Target.id)) ∧
      (∀ targets, TargetsOf infos object targets →
        object.threshold.toNat ≤ ((complete targets).filterMap
          (contribution? Bls.suite object.identity servers.publicKey?)).length) ∧
      keys Bls.suite infos object { concurrency := 2305843009213693952 } complete =
        .error .crash := by
  intro object infos complete
  let servers : ServerSet Bls.suite := {
    servers := [⟨idOf 1, Member.infinity⟩]
    size_pos := Nat.zero_lt_one
    size_le := by decide
    nodup_ids := List.nodup_singleton _ }
  have hservers : ServerSet.ofInfos Bls.suite infos = .ok servers :=
    ServerSet.ofInfos_eq_ok_iff.2 (.cons ⟨rfl, decode2?_infinity⟩ .nil)
  have htarget : ∀ targets, TargetsOf infos object targets →
      ∃ target ∈ targets, target.id = idOf 1 := by
    intro targets htargets
    exact List.mem_map.1 (htargets.mem_ids_iff.2 ⟨by simp [object], by simp [infos]⟩)
  have hverify : Ibe.verifyKey Bls.suite Member.infinity object.identity Member.infinity =
      .ok () :=
    Ibe.verifyKey_eq_ok_iff.2 ((pairing_infinity_left _).trans (pairing_infinity_right _).symm)
  refine ⟨servers, hservers, rfl, fun targets => ?_, fun targets htargets => ?_, ?_⟩
  · rw [List.map_map]
    exact .refl _
  · obtain ⟨target, hmem, hid⟩ := htarget targets htargets
    have hcontributed : contribution? Bls.suite object.identity servers.publicKey?
        (target.id, .ok (G1.encode Member.infinity)) = some (target.id, Member.infinity) :=
      contribution?_eq_some_iff.2 ⟨rfl, decode1?_infinity, Member.infinity,
        ServerSet.publicKey?_eq_some_iff.2
          ⟨⟨idOf 1, Member.infinity⟩, List.mem_singleton_self _, hid.symm, rfl⟩, hverify⟩
    exact List.length_pos_of_mem (List.mem_filterMap.2
      ⟨_, List.mem_map.2 ⟨target, hmem, rfl⟩, hcontributed⟩)
  · obtain ⟨collector, targets, hplanned⟩ :=
      exists_planned hservers (SealedObject.validate_eq_ok_iff.1 rfl : object.Valid)
    obtain ⟨target, hmem, -⟩ := htarget targets hplanned.targetsOf
    have hpos : ¬ targets.length < object.threshold.toNat :=
      Nat.not_lt.2 (List.length_pos_of_mem hmem)
    have hplan := hplanned.plan_eq
    rw [if_neg hpos] at hplan
    exact keys_eq_crash_of_plan hplan (by decide) complete

end Fetch
end Quorum
