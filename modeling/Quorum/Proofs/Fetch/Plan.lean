import Quorum.Proofs.Collector.Run
import Quorum.Proofs.Schedule

/-!
# Whom a fetch asks

The targets of a fetch are the services of the object that are among the given servers,
each of them once, however often the object lists it.  Once they are planned, fetching is
a run of a collector on their answers; on the virtual clock these come in an order that
the clock decides, and each target answers once.
-/

namespace Quorum
namespace Fetch

variable {suite : PairingSuite} {infos : List ServerInfo} {object : SealedObject}
  {limits : FetchLimits}

/-- The targets are the known services of an object, each of them once and at the address
that is given for it. -/
structure TargetsOf (infos : List ServerInfo) (object : SealedObject) (targets : List Target) :
    Prop where
  nodup_ids : (targets.map Target.id).Nodup
  mem_iff : ∀ target, target ∈ targets ↔ target.id ∈ object.services.map Service.server ∧
    ∃ info ∈ infos, info.id = target.id ∧ info.url = target.url

/-- The servers of the targets are the known services. -/
theorem TargetsOf.mem_ids_iff {targets : List Target} (h : TargetsOf infos object targets)
    {id : ObjectId} : id ∈ targets.map Target.id ↔
      id ∈ object.services.map Service.server ∧ id ∈ infos.map ServerInfo.id := by
  constructor
  · intro hid
    obtain ⟨target, htarget, rfl⟩ := List.mem_map.1 hid
    obtain ⟨hservice, info, hinfo, heq, -⟩ := (h.mem_iff target).1 htarget
    exact ⟨hservice, List.mem_map.2 ⟨info, hinfo, heq⟩⟩
  · rintro ⟨hservice, hid⟩
    obtain ⟨info, hinfo, rfl⟩ := List.mem_map.1 hid
    exact List.mem_map.2 ⟨⟨info.id, info.url⟩,
      (h.mem_iff ⟨info.id, info.url⟩).2 ⟨hservice, info, hinfo, rfl, rfl⟩, rfl⟩

/-- The known services, in any order, are those of the targets. -/
theorem TargetsOf.perm_ids {targets : List Target} (h : TargetsOf infos object targets)
    {ids : List ObjectId} (hnodup : ids.Nodup) (hids : ∀ id, id ∈ ids ↔
      id ∈ object.services.map Service.server ∧ id ∈ infos.map ServerInfo.id) :
    ids.Perm (targets.map Target.id) := by
  rw [List.perm_ext_iff_of_nodup hnodup h.nodup_ids]
  exact fun id => (hids id).trans h.mem_ids_iff.symm

theorem targetsOf_pending {servers : ServerSet suite}
    (hservers : ServerSet.ofInfos suite infos = .ok servers) {collector : Collector suite}
    (hstarted : Collector.Started object servers collector) :
    TargetsOf infos object (collector.pending.filterMap fun id =>
      ((Table.ofList (infos.map fun info => (info.id, info.url))).get? id).map fun url =>
        ⟨id, url⟩) := by
  have hids : servers.servers.map KeyServer.id = infos.map ServerInfo.id :=
    ServerSet.map_id_of_describes (ServerSet.ofInfos_eq_ok_iff.1 hservers)
  have hunambiguous : Table.Unambiguous (infos.map fun info => (info.id, info.url)) := by
    apply Table.unambiguous_of_nodup
    rw [List.map_map]
    exact hids ▸ servers.nodup_ids
  rw [hstarted.pending_eq]
  constructor
  · rw [List.map_filterMap]
    refine List.Nodup.filterMap ?_ collector.publicKeys.nodup_keys
    intro id id' found hfound hfound'
    simp only [Option.map_map, Option.mem_def, Option.map_eq_some_iff,
      Function.comp_apply] at hfound hfound'
    obtain ⟨-, -, rfl⟩ := hfound
    obtain ⟨-, -, rfl⟩ := hfound'
    rfl
  · rintro ⟨id, url⟩
    simp only [List.mem_filterMap, Option.map_eq_some_iff, Target.mk.injEq,
      Table.get?_ofList_eq_some_iff hunambiguous, hstarted.mem_keys_iff, hids]
    constructor
    · rintro ⟨id', ⟨hservice, -⟩, url', hinfo, rfl, rfl⟩
      obtain ⟨info, hmem, heq⟩ := List.mem_map.1 hinfo
      exact ⟨hservice, info, hmem, congrArg Prod.fst heq, congrArg Prod.snd heq⟩
    · rintro ⟨hservice, info, hmem, rfl, rfl⟩
      exact ⟨info.id, ⟨hservice, List.mem_map_of_mem hmem⟩, info.url,
        List.mem_map.2 ⟨info, hmem, rfl⟩, rfl, rfl⟩

/-- What is planned is to ask the known services of an object with a collector that has no
keys yet, unless they are fewer than the threshold says. -/
structure Planned (infos : List ServerInfo) (object : SealedObject) (servers : ServerSet suite)
    (collector : Collector suite) (targets : List Target) : Prop where
  started : Collector.Started object servers collector
  targetsOf : TargetsOf infos object targets
  plan_eq : plan suite infos object =
    if targets.length < object.threshold.toNat then
      .error (.thresholdNotMet 0 object.threshold.toNat)
    else .ok (collector, targets)

theorem exists_planned {servers : ServerSet suite}
    (hservers : ServerSet.ofInfos suite infos = .ok servers) (hvalid : object.Valid) :
    ∃ collector targets, Planned infos object servers collector targets := by
  obtain ⟨collector, hstart, hstarted⟩ := Collector.exists_start_eq_ok hvalid servers
  refine ⟨collector, _, hstarted, targetsOf_pending hservers hstarted, ?_⟩
  have hlift {α : Type} {x : Except SealingError α} {a : α} (hx : x = .ok a) :
      (liftM x : Except ServiceError α) = .ok a := Outcome.mapError_eq_ok_iff.2 hx
  rw [plan, hlift hservers, Outcome.ok_bind, hlift hstart, Outcome.ok_bind,
    hstarted.threshold_eq]
  simp only [Outcome.throw_eq_error, Outcome.error_bind, Outcome.pure_eq_ok]

/-! ## From the plan to the keys -/

theorem keys_eq_error_of_plan {error : ServiceError}
    (hplan : plan suite infos object = .error error) (limits : FetchLimits)
    (complete : List Target → List (ObjectId × Answer)) :
    keys suite infos object limits complete = .error (.error error) := by
  rw [keys, planWithin, hplan]
  rfl

/-- Nothing is fetched if more requests are allowed at a time than can be. -/
theorem keys_eq_crash_of_plan {planned : Collector suite × List Target}
    (hplan : plan suite infos object = .ok planned)
    (hlimits : FetchLimits.maxConcurrency < limits.concurrency)
    (complete : List Target → List (ObjectId × Answer)) :
    keys suite infos object limits complete = .error .crash := by
  rw [keys, planWithin, hplan]
  change (if FetchLimits.maxConcurrency < limits.concurrency then _ else _) >>= _ = _
  rw [if_pos hlimits]
  rfl

theorem keys_eq_result_of_plan {collector : Collector suite} {targets : List Target}
    (hplan : plan suite infos object = .ok (collector, targets))
    (hlimits : limits.concurrency ≤ FetchLimits.maxConcurrency)
    (complete : List Target → List (ObjectId × Answer)) :
    keys suite infos object limits complete =
      (collector.run (complete targets)).1.result.mapError .error := by
  rw [keys, planWithin, hplan]
  change (if FetchLimits.maxConcurrency < limits.concurrency then _ else _) >>= _ = _
  rw [if_neg (Nat.not_lt.2 hlimits)]
  rfl

/-! ## The virtual clock -/

/-- The answers to a request on the virtual clock, in the order in which they come. -/
def answersInTime (client : Client) (request : KeyRequest) (limits : FetchLimits)
    (targets : List Target) : List (ObjectId × Answer) :=
  (completions client request limits targets).map (answer limits)

theorem timed_fst (client : Client) (request : KeyRequest) :
    (timed suite client infos object request limits).1 =
      keys suite infos object limits (answersInTime client request limits) := by
  rw [timed, keys]
  cases planWithin suite infos object limits with
  | error failure => rfl
  | ok planned => rfl

/-- The answer of a target on the virtual clock. -/
def answerInTime (client : Client) (request : KeyRequest) (limits : FetchLimits)
    (target : Target) : ObjectId × Answer :=
  let reply := client.requestKey target.url request
  (target.id, if limits.timeout < reply.delay then
    .error (.error (.timeout target.url limits.timeout)) else reply.answer)

/-- On the virtual clock every target gives its answer once. -/
theorem answersInTime_perm (client : Client) (request : KeyRequest) (limits : FetchLimits)
    (targets : List Target) :
    (answersInTime client request limits targets).Perm
      (targets.map (answerInTime client request limits)) := by
  let job (target : Target) : Job (Target × Reply) :=
    let reply := client.requestKey target.url request
    { duration := reply.delay, result := (target, reply) }
  let toAnswer (outcome : (Target × Reply) × Bool) : ObjectId × Answer :=
    (outcome.1.1.id, if outcome.2 then
      .error (.error (.timeout outcome.1.1.url limits.timeout)) else outcome.1.2.answer)
  have hanswers : answersInTime client request limits targets =
      ((Schedule.completions limits.concurrency limits.timeout (targets.map job)).map
        Completion.outcome).map toAnswer := by
    rw [List.map_map]
    rfl
  have hdirect : targets.map (answerInTime client request limits) =
      ((targets.map job).map (Job.outcome limits.timeout)).map toAnswer := by
    simp [answerInTime, Job.outcome, job, toAnswer]
  rw [hanswers, hdirect]
  exact (Schedule.perm_map_outcome_completions _ _ _).map toAnswer

theorem perm_answersInTime (client : Client) (request : KeyRequest) (limits : FetchLimits)
    (targets : List Target) :
    ((answersInTime client request limits targets).map Prod.fst).Perm
      (targets.map Target.id) := by
  have hperm := (answersInTime_perm client request limits targets).map Prod.fst
  simpa [answerInTime, Function.comp_def] using hperm

end Fetch
end Quorum
