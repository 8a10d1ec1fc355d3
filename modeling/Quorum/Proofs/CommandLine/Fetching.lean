import Quorum.Proofs.CommandLine.Serving
import Quorum.Proofs.Fetch.Quorum
import Quorum.Proofs.Sealing.Opening

/-!
# Fetching from the servers of key files

The services of an object that have a key file are the targets of a fetch, and each of them
answers with the key that it extracts.  All these answers are valid, so the fetch succeeds
exactly if as many services have a file as the threshold says; nobody is asked otherwise.

In which order the answers come does not matter, and neither do files of other servers.
-/

namespace Quorum
namespace CommandLine

variable {suite : PairingSuite} {servers covered : ServerSet suite}
  {files : List (KeyFile × suite.Scalar)} {object : SealedObject} {infos : List ServerInfo}

/-- Key files of different servers at different addresses.  Those that are for servers of the
set hold the master keys of these. -/
structure KeyFilesFor (servers : ServerSet suite) (files : List (KeyFile × suite.Scalar)) :
    Prop where
  nodup_ids : (idsOf files).Nodup
  nodup_urls : (urlsOf files).Nodup
  publicKey_eq : ∀ file ∈ files, ∀ server ∈ servers.servers, server.id = file.1.id →
    server.publicKey = Ibe.publicKey suite file.2

/-! ## The services that have a file -/

/-- A set consists of those servers of another that have a key file. -/
def Covered (servers : ServerSet suite) (files : List (KeyFile × suite.Scalar))
    (covered : ServerSet suite) : Prop :=
  covered.servers = servers.servers.filter fun server => server.id ∈ idsOf files

theorem map_id_filter_idsOf (hservices : object.services.map Service.server =
      servers.servers.map KeyServer.id) :
    (servers.servers.filter fun server => server.id ∈ idsOf files).map KeyServer.id =
      coveredIds object files := by
  rw [coveredIds, hservices, List.filter_map]
  rfl

theorem exists_covered (hservices : object.services.map Service.server =
      servers.servers.map KeyServer.id) (hpos : 0 < (coveredIds object files).length) :
    ∃ covered : ServerSet suite, Covered servers files covered := by
  have hsublist : (servers.servers.filter fun server => server.id ∈ idsOf files).Sublist
      servers.servers := List.filter_sublist
  refine ⟨⟨_, ?_, hsublist.length_le.trans servers.size_le,
    (hsublist.map KeyServer.id).nodup servers.nodup_ids⟩, rfl⟩
  rwa [← List.length_map KeyServer.id, map_id_filter_idsOf hservices]

theorem Covered.map_id (h : Covered servers files covered)
    (hservices : object.services.map Service.server = servers.servers.map KeyServer.id) :
    covered.servers.map KeyServer.id = coveredIds object files := by
  rw [h, map_id_filter_idsOf hservices]

theorem Covered.mem_iff (h : Covered servers files covered) {server : KeyServer suite} :
    server ∈ covered.servers ↔ server ∈ servers.servers ∧ server.id ∈ idsOf files := by
  rw [h, List.mem_filter, decide_eq_true_iff]

/-- The entries that are served, which make up the set of the servers that have a file. -/
structure Served (files : List (KeyFile × suite.Scalar)) (object : SealedObject)
    (covered : ServerSet suite) (infos : List ServerInfo) : Prop where
  served_eq : servedServices suite object files = .ok infos
  set_eq : ServerSet.ofInfos suite infos = .ok covered
  ids_eq : infos.map ServerInfo.id = coveredIds object files
  exists_file : ∀ info ∈ infos, ∃ file ∈ files, entryOf file = info

theorem exists_served (hsuite : suite.Lawful) (hfiles : KeyFilesFor servers files)
    (hservices : object.services.map Service.server = servers.servers.map KeyServer.id)
    (hcovered : Covered servers files covered) :
    ∃ infos, Served files object covered infos := by
  -- The registered public key is that of the set, so the entry of the file describes the server.
  have hentry : ∀ server ∈ covered.servers, ∃ info, ServerSet.Describes info server ∧
      ∃ file ∈ files, file.1.id = server.id ∧ entryOf file = info := by
    intro server hserver
    obtain ⟨hmem, hid⟩ := hcovered.mem_iff.1 hserver
    obtain ⟨file, hfile, hid⟩ := List.mem_map.1 hid
    refine ⟨entryOf file, ⟨hid.symm, ?_⟩, file, hfile, hid, rfl⟩
    rw [hfiles.publicKey_eq file hfile server hmem hid.symm]
    exact hsuite.decode2_encode2 _
  obtain ⟨infos, hinfos⟩ := Outcome.exists_forall₂ hentry
  have hset : List.Forall₂ ServerSet.Describes infos covered.servers :=
    List.Forall₂.flip (hinfos.imp fun _ _ => And.left)
  refine ⟨infos, servedServices_eq_ok hsuite hfiles.nodup_ids hfiles.nodup_urls ?_,
    ServerSet.ofInfos_eq_ok_iff.2 hset, ?_, fun info hinfo => ?_⟩
  · rw [← hcovered.map_id hservices, List.forall₂_map_left_iff]
    exact hinfos.imp fun _ _ => And.right
  · rw [← hcovered.map_id hservices, ServerSet.map_id_of_describes hset]
  · obtain ⟨server, -, -, file, hfile, -, hentry⟩ := Outcome.exists_item_of_mem hinfos hinfo
    exact ⟨file, hfile, hentry⟩

/-- The targets are the services that have a file. -/
theorem Served.length_targets (h : Served files object covered infos)
    {targets : List Target} (htargets : Fetch.TargetsOf infos object targets) :
    targets.length = (coveredIds object files).length := by
  have hids : (coveredIds object files).Nodup := by
    rw [← h.ids_eq, ← ServerSet.map_id_of_describes (ServerSet.ofInfos_eq_ok_iff.1 h.set_eq)]
    exact covered.nodup_ids
  have hperm : (coveredIds object files).Perm (targets.map Target.id) := by
    refine htargets.perm_ids hids fun id => ?_
    rw [h.ids_eq]
    exact (and_iff_right_of_imp List.mem_of_mem_filter).symm
  rw [hperm.length_eq, List.length_map]

/-! ## The answers -/

/-- The answers of the targets to a request for the key of an object, in their order. -/
def directAnswers (client : Client) (object : SealedObject) (targets : List Target) :
    List (ObjectId × Answer) :=
  targets.map fun target =>
    (target.id, (client.requestKey target.url { identity := object.identity }).answer)

theorem map_fst_directAnswers (client : Client) (targets : List Target) :
    (directAnswers client object targets).map Prod.fst = targets.map Target.id := by
  rw [directAnswers, List.map_map]
  rfl

/-- No answer of an honest server comes too late, even if there is no time at all. -/
theorem completeInTime_perm (hurls : (urlsOf files).Nodup) (limits : FetchLimits)
    (targets : List Target) :
    (completeInTime object limits (serve suite files).1.client targets).Perm
      (directAnswers (serve suite files).1.client object targets) := by
  have hperm := Fetch.answersInTime_perm (serve suite files).1.client
    { identity := object.identity } limits targets
  have hdirect : targets.map (Fetch.answerInTime (serve suite files).1.client
      { identity := object.identity } limits) =
        directAnswers (serve suite files).1.client object targets := by
    apply List.map_congr_left
    intro target _
    have hdelay := LocalServers.delay_requestKey_of_honest (behavior_serve hurls) target.url
      { identity := object.identity }
    simp [Fetch.answerInTime, hdelay]
  rwa [hdirect] at hperm

/-- Every target contributes the key that is extracted with the master key of its file. -/
theorem Served.contribution?_eq_some (h : Served files object covered infos)
    (hsuite : suite.Lawful) (hfiles : KeyFilesFor servers files)
    (hcovered : Covered servers files covered) {targets : List Target}
    (htargets : Fetch.TargetsOf infos object targets) {answer : ObjectId × Answer}
    (hanswer : answer ∈ directAnswers (serve suite files).1.client object targets) :
    ∃ file ∈ files, file.1.id ∈ object.services.map Service.server ∧
      contribution? suite object.identity covered.publicKey? answer =
        some (file.1.id, Ibe.extract suite file.2 object.identity) := by
  obtain ⟨⟨id, url⟩, htarget, rfl⟩ := List.mem_map.1 hanswer
  obtain ⟨hservice, info, hinfo, rfl, rfl⟩ := (htargets.mem_iff _).1 htarget
  obtain ⟨file, hfile, rfl⟩ := h.exists_file info hinfo
  have hids := ServerSet.map_id_of_describes (ServerSet.ofInfos_eq_ok_iff.1 h.set_eq)
  obtain ⟨server, hserver, hid⟩ := List.mem_map.1 (hids ▸ List.mem_map_of_mem hinfo)
  have hpublicKey : covered.publicKey? file.1.id = some (Ibe.publicKey suite file.2) :=
    ServerSet.publicKey?_eq_some_iff.2 ⟨server, hserver, hid,
      hfiles.publicKey_eq file hfile server (hcovered.mem_iff.1 hserver).1 hid⟩
  let request : KeyRequest := { identity := object.identity }
  have hidentity : request.identity ≠ [] := object.identity_ne_nil
  have hreply := LocalServers.client_requestKey_of_honest (get?_serve hfiles.nodup_urls hfile)
    hidentity
  refine ⟨file, hfile, hservice, ?_⟩
  rw [show (entryOf file).url = file.1.url from rfl, hreply]
  exact contribution?_extract hsuite hpublicKey object.identity

/-- All answers are valid. -/
theorem Served.length_contributions (h : Served files object covered infos)
    (hsuite : suite.Lawful) (hfiles : KeyFilesFor servers files)
    (hcovered : Covered servers files covered) {targets : List Target}
    (htargets : Fetch.TargetsOf infos object targets) {answers : List (ObjectId × Answer)}
    (hanswers : answers.Perm (directAnswers (serve suite files).1.client object targets)) :
    (answers.filterMap (contribution? suite object.identity covered.publicKey?)).length =
      (coveredIds object files).length := by
  have hsome : ∀ answer ∈ answers,
      (contribution? suite object.identity covered.publicKey? answer).isSome = true := by
    intro answer hanswer
    obtain ⟨file, -, -, hcontributed⟩ := h.contribution?_eq_some hsuite hfiles hcovered htargets
      (hanswers.mem_iff.1 hanswer)
    rw [hcontributed]
    rfl
  rw [List.filterMap_length_eq_length.2 hsome, hanswers.length_eq, directAnswers,
    List.length_map, h.length_targets htargets]

/-! ## The keys -/

/-- Keys that the services of an object extract for it with the master keys of their files. -/
def ExtractedFrom (files : List (KeyFile × suite.Scalar)) (object : SealedObject)
    (ring : KeyRing suite) : Prop :=
  ∀ id key, ring.get? id = some key → ∃ file ∈ files, file.1.id = id ∧
    id ∈ object.services.map Service.server ∧ key = Ibe.extract suite file.2 object.identity

/-- Such a ring has keys of services only, so its size counts services that have one. -/
theorem ExtractedFrom.size_le_countP {ring : KeyRing suite}
    (h : ExtractedFrom files object ring) :
    ring.size ≤ (object.services.map Service.server).countP ring.contains := by
  refine Table.size_le_countP fun id hid => ?_
  obtain ⟨key, hget⟩ := Table.mem_keys_iff.1 hid
  obtain ⟨-, -, -, hservice, -⟩ := h id key hget
  exact hservice

theorem fetchFromFiles_of_served (h : servedServices suite object files = .ok infos)
    (limits : FetchLimits) (complete : Client → List Target → List (ObjectId × Answer)) :
    fetchFromFiles suite object files limits complete =
      (Fetch.keys suite infos object limits (complete (serve suite files).1.client)).mapError
        .ofRequest := by
  rw [fetchFromFiles, h]
  rfl

/-- A fetch from the servers of key files is decided by the number of services that have a
file, in whatever order the servers answer. -/
theorem fetchFromFiles_of_covered (hsuite : suite.Lawful) (hfiles : KeyFilesFor servers files)
    (hvalid : object.Valid)
    (hservices : object.services.map Service.server = servers.servers.map KeyServer.id)
    (hpos : 0 < (coveredIds object files).length) {limits : FetchLimits}
    (hlimits : limits.concurrency ≤ FetchLimits.maxConcurrency)
    {complete : Client → List Target → List (ObjectId × Answer)}
    (hcomplete : ∀ targets, (complete (serve suite files).1.client targets).Perm
      (directAnswers (serve suite files).1.client object targets)) :
    (object.threshold.toNat ≤ (coveredIds object files).length →
      ∃ ring, fetchFromFiles suite object files limits complete = .ok ring ∧
        ring.size = object.threshold.toNat ∧ ExtractedFrom files object ring) ∧
    ((coveredIds object files).length < object.threshold.toNat →
      fetchFromFiles suite object files limits complete =
        .error (.service (.thresholdNotMet 0 object.threshold.toNat))) := by
  obtain ⟨covered, hcovered⟩ := exists_covered hservices hpos
  obtain ⟨infos, hserved⟩ := exists_served hsuite hfiles hservices hcovered
  obtain ⟨collector, targets, hplanned⟩ := Fetch.exists_planned hserved.set_eq hvalid
  have htargets := hplanned.targetsOf
  have hanswers := hcomplete targets
  have hfirst : ((complete (serve suite files).1.client targets).map Prod.fst).Perm
      (targets.map Target.id) := by
    rw [← map_fst_directAnswers]
    exact hanswers.map Prod.fst
  obtain ⟨henough, hfew⟩ := hplanned.decidedBy_keys hvalid hlimits
    (complete (serve suite files).1.client) hfirst
  -- Every target answers validly, so the quorum is met exactly if there are targets for it.
  rw [hserved.length_contributions hsuite hfiles hcovered htargets hanswers] at henough hfew
  rw [hserved.length_targets htargets] at hfew
  rw [fetchFromFiles_of_served hserved.served_eq]
  constructor
  · intro hle
    obtain ⟨ring, hring, hsize, hentries⟩ := henough hle
    refine ⟨ring, by rw [hring]; rfl, hsize, fun id key hget => ?_⟩
    -- The ring has nothing but what the answers contribute.
    have hmem := Table.get?_eq_some_iff.1 hget
    rw [hentries] at hmem
    obtain ⟨answer, hanswer, hsome⟩ := List.mem_filterMap.1 (List.mem_of_mem_take hmem)
    obtain ⟨file, hfile, hservice, hcontributed⟩ := hserved.contribution?_eq_some hsuite hfiles
      hcovered htargets (hanswers.mem_iff.1 hanswer)
    cases hsome.symm.trans hcontributed
    exact ⟨file, hfile, rfl, hservice, rfl⟩
  · intro hlt
    rw [hfew hlt, if_neg (Nat.not_le.2 hlt)]
    rfl

end CommandLine
end Quorum
