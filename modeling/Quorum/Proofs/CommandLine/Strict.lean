import Quorum.Proofs.CommandLine.Keys
import Quorum.Proofs.CommandLine.Steps
import Quorum.Proofs.Fetch.Opening
import Quorum.Proofs.Sealing.Sufficiency

/-!
# Whose keys a command is given

A command opens an object with keys of the servers that its arguments name, or of those whose
key files it is given.  Whatever else happens, as many services are among these servers as the
threshold says.

With `strict`, arguments must name all services.  Key files are not asked for that: they are
used in the same way with and without it, so an object is opened as soon as enough services
have a file.
-/

namespace Quorum
namespace CommandLine

variable {suite : PairingSuite} {object : SealedObject} {entries : List (ObjectId × suite.G1)}
  {files : List (KeyFile × suite.Scalar)} {bytes : List UInt8}

/-! ## Keys that are given as arguments -/

theorem exists_of_openWithArguments {arguments : List String} {strict : Bool}
    (h : openWithArguments suite object arguments strict = .ok bytes) :
    ∃ entries, parseKeys suite arguments = .ok entries := by
  obtain ⟨entries, hparse, -⟩ := Outcome.bind_eq_ok_iff.1 h
  exact ⟨entries, hparse⟩

/-- Where all keys are asked for, arguments that open an object name all of its services. -/
theorem mem_of_openWithArguments_all {arguments : List String}
    (hparse : parseKeys suite arguments = .ok entries)
    (h : openWithArguments suite object arguments true = .ok bytes) :
    object.Valid ∧ ∀ service ∈ object.services, service.server ∈ entries.map Prod.fst := by
  rw [openWithArguments, hparse, Outcome.ok_bind, if_pos rfl] at h
  obtain ⟨ordered, hkeys, hopen⟩ := Outcome.bind_eq_ok_iff.1 h
  refine ⟨Sealing.valid_of_decryptAll (Outcome.mapError_eq_ok_iff.1 hopen), ?_⟩
  intro service hservice
  obtain ⟨key, -, hkey⟩ :=
    Outcome.exists_result_of_mem (keysOfServices_eq_ok_iff.1 hkeys) hservice
  exact Table.exists_lookup?_iff.1 ⟨key, hkey⟩

theorem countP_eq_length_iff {supplied : List ObjectId} :
    (object.services.map Service.server).countP (· ∈ supplied) = object.services.length ↔
      ∀ service ∈ object.services, service.server ∈ supplied := by
  have hlength : object.services.length = (object.services.map Service.server).length :=
    (List.length_map _).symm
  rw [hlength, List.countP_eq_length, List.forall_mem_map]
  simp only [decide_eq_true_iff]

/-- Arguments that open an object name enough of its services. -/
theorem le_countP_of_openWithArguments {arguments : List String} {strict : Bool}
    (hparse : parseKeys suite arguments = .ok entries)
    (h : openWithArguments suite object arguments strict = .ok bytes) :
    object.threshold.toNat ≤
      (object.services.map Service.server).countP (· ∈ entries.map Prod.fst) := by
  cases strict with
  | true =>
      obtain ⟨hvalid, hall⟩ := mem_of_openWithArguments_all hparse h
      rw [countP_eq_length_iff.2 hall]
      exact hvalid.threshold_le
  | false =>
      rw [openWithArguments_some hparse, Outcome.mapError_eq_ok_iff] at h
      obtain ⟨hvalid, henough⟩ := Sealing.le_available_of_decrypt h
      rw [Sealing.length_available hvalid] at henough
      refine henough.trans_eq (List.countP_congr fun id _ => ?_)
      rw [Table.contains_ofList_iff, decide_eq_true_iff]

/-! ## Key files -/

variable {limits : FetchLimits} {complete : Client → List Target → List (ObjectId × Answer)}

/-- Keys are fetched only if enough services have a file. -/
theorem le_length_coveredIds_of_fetchFromFiles (hvalid : object.Valid) {ring : KeyRing suite}
    (h : fetchFromFiles suite object files limits complete = .ok ring) :
    object.threshold.toNat ≤ (coveredIds object files).length := by
  obtain ⟨infos, hserved, hfetched⟩ := Outcome.bind_eq_ok_iff.1 h
  -- The fetched keys are enough, and each of them is of a server with an entry.
  rw [Outcome.mapError_eq_ok_iff] at hserved hfetched
  obtain ⟨servers, hservers⟩ := Fetch.exists_ofInfos_of_keys hfetched
  have hids := ServerSet.map_id_of_describes (ServerSet.ofInfos_eq_ok_iff.1 hservers)
  calc
    object.threshold.toNat
    _ ≤ (servers.servers.map KeyServer.id).countP ring.contains :=
      (Fetch.suffices_of_keys_eq_ok hservers hvalid hfetched).quorum
    _ ≤ (servers.servers.map KeyServer.id).length := List.countP_le_length
    _ = (coveredIds object files).length := by rw [hids, map_id_of_servedServices hserved]

theorem le_countP_of_openWithFiles
    (h : openWithFiles suite object files limits complete = .ok bytes) :
    object.threshold.toNat ≤
      (object.services.map Service.server).countP (· ∈ idsOf files) := by
  obtain ⟨ring, hring, hopen⟩ := Outcome.bind_eq_ok_iff.1 h
  obtain ⟨hvalid, -⟩ := Sealing.le_available_of_decrypt (Outcome.mapError_eq_ok_iff.1 hopen)
  rw [List.countP_eq_length_filter]
  exact le_length_coveredIds_of_fetchFromFiles hvalid hring

/-! ## The command -/

/-- The servers of which a command is given keys: those that its arguments name, or those of
its key files, if it is given any. -/
inductive Supplied (suite : PairingSuite) (options : Decrypt) (store : FileStore) :
    List ObjectId → Prop where
  | arguments {entries : List (ObjectId × suite.G1)} (hnone : options.keyFiles = [])
      (hparse : parseKeys suite options.keys = .ok entries) :
      Supplied suite options store (entries.map Prod.fst)
  | keyFiles {files : List (KeyFile × suite.Scalar)} (hsome : options.keyFiles ≠ [])
      (hload : List.Forall₂ (fun path file =>
        ((KeyFile.load (m := StateM FileStore) suite path).run.run store).1 = .ok file)
        options.keyFiles files) :
      Supplied suite options store (idsOf files)

variable {options : Decrypt} {before after : FileStore}

/-- An object is opened with the keys of servers that are enough, and of all if `strict` asks
for that. -/
theorem exists_supplied_of_opened
    (h : (options.opened (m := StateM FileStore) suite object).run.run before =
      (.ok bytes, after)) :
    ∃ supplied, Supplied suite options before supplied ∧
      object.threshold.toNat ≤ (object.services.map Service.server).countP (· ∈ supplied) ∧
      (options.strict = true → options.keyFiles = [] →
        ∀ service ∈ object.services, service.server ∈ supplied) := by
  by_cases hkeyFiles : options.keyFiles = []
  · rw [run_opened_of_keyFiles_nil hkeyFiles, Prod.mk.injEq] at h
    obtain ⟨entries, hparse⟩ := exists_of_openWithArguments h.1
    refine ⟨_, .arguments hkeyFiles hparse, le_countP_of_openWithArguments hparse h.1, ?_⟩
    intro hstrict _
    rw [hstrict] at h
    exact (mem_of_openWithArguments_all hparse h.1).2
  · obtain ⟨files, hload, hopen⟩ := exists_of_run_opened hkeyFiles h
    exact ⟨_, .keyFiles hkeyFiles hload, le_countP_of_openWithFiles hopen,
      fun _ hnone => absurd hnone hkeyFiles⟩

theorem readOnly_readObject (path : String) :
    ReadOnly (readObject (m := StateM FileStore) path) :=
  (readOnly_onFiles (FileAccess.readOnly_loadText _ _)).bind fun _ => .known _

/-- With key files, it makes no difference whether `strict` asks for all keys. -/
theorem run_eq_of_keyFiles (hkeyFiles : options.keyFiles ≠ []) (strict : Bool) :
    { options with strict }.run (m := StateM FileStore) suite = options.run suite := by
  have hopened (object : SealedObject) :
      { options with strict }.opened (m := StateM FileStore) suite object =
        options.opened suite object := by
    rw [Decrypt.opened, Decrypt.opened, if_neg hkeyFiles, if_neg hkeyFiles]
  simp only [decrypt_run_eq, hopened]

/-- If a command that asks for all keys opens an object, it is given keys of enough of its
services: of all of them, unless the keys come from key files and not all are needed.  Then it
is not told apart from a command that does not ask for all keys. -/
theorem supplied_of_run_strict {printed : List UInt8} (hstrict : options.strict = true)
    (h : (options.run (m := StateM FileStore) suite).run.run before = (.ok printed, after)) :
    ∃ object supplied,
      (readObject (m := StateM FileStore) options.object).run.run before = (.ok object, before) ∧
      Supplied suite options before supplied ∧
      object.threshold.toNat ≤ (object.services.map Service.server).countP (· ∈ supplied) ∧
      ((∀ service ∈ object.services, service.server ∈ supplied) ∨
        options.keyFiles ≠ [] ∧ object.threshold.toNat < object.services.length ∧
          ({ options with strict := false }.run (m := StateM FileStore) suite).run.run before =
            (.ok printed, after)) := by
  have hrun := h
  rw [decrypt_run_eq] at h
  obtain ⟨object, middle, hread, hrest⟩ := Outcome.run_bind_eq_ok_iff.1 h
  obtain rfl : middle = before :=
    (congrArg Prod.snd hread).symm.trans (readOnly_readObject _ before)
  obtain ⟨bytes, _, hopened, -⟩ := Outcome.run_bind_eq_ok_iff.1 hrest
  obtain ⟨supplied, hsupplied, henough, hall⟩ := exists_supplied_of_opened hopened
  refine ⟨object, supplied, hread, hsupplied, henough, ?_⟩
  by_cases hkeyFiles : options.keyFiles = []
  · exact .inl (hall hstrict hkeyFiles)
  · rcases lt_or_ge object.threshold.toNat object.services.length with hlt | hge
    · exact .inr ⟨hkeyFiles, hlt, by rwa [run_eq_of_keyFiles hkeyFiles]⟩
    · -- All are needed then, so no service is left out.
      have hle : (object.services.map Service.server).countP (· ∈ supplied) ≤
          object.services.length := by
        rw [← List.length_map Service.server]
        exact List.countP_le_length
      exact .inl (countP_eq_length_iff.1 (by omega))

section OneOfThree

open PairingSuite FileStore

/-- An object for three servers, each of which can release its key. -/
def oneOfThreeObject : SealedObject where
  version := 0
  packageId := idOf 7
  innerId := [1, 2]
  services := [⟨idOf 2, 1⟩, ⟨idOf 3, 2⟩, ⟨idOf 5, 3⟩]
  threshold := 1
  encapsulation := discreteLog.encode2 discreteLog.generator
  shares := List.replicate 3 (Vector.replicate 32 0)
  ciphertext := .plain

/-- The key file of the last of the servers. -/
def lastKeyFile : KeyFile :=
  KeyFile.ofMasterKey discreteLog (idOf 5) "" "" (masterKeyOf (idOf 5))

/-- The object and the key file, in two files. -/
def twoFiles : FileStore :=
  flat ((Table.empty.insert ["o"] (utf8 (Base64.encode oneOfThreeObject.encode))).insert ["k"]
    (utf8 lastKeyFile.toJson.pretty))

theorem valid_oneOfThreeObject : oneOfThreeObject.Valid :=
  SealedObject.validate_eq_ok_iff.1 rfl

theorem decode2?_oneOfThreeObject :
    discreteLog.decode2? oneOfThreeObject.encapsulation = some discreteLog.generator :=
  discreteLog_lawful.decode2_encode2 _

theorem read_object_twoFiles :
    twoFiles.read "o" = .ok (utf8 (Base64.encode oneOfThreeObject.encode)) := by
  refine read_flat (by decide +kernel) ?_
  rw [Table.get?_insert, if_neg (by decide), Table.get?_insert, if_pos rfl]

theorem parseObject_oneOfThreeObject :
    parseObject (Base64.encode oneOfThreeObject.encode) = .ok oneOfThreeObject := by
  have hfits : oneOfThreeObject.Fits := ⟨by decide, fun _ _ _ h => nomatch h⟩
  exact parseObject_of_surrounded valid_oneOfThreeObject hfits (surrounded_self _)

theorem run_readObject_twoFiles :
    (readObject (m := StateM FileStore) "o").run.run twoFiles =
      (.ok oneOfThreeObject, twoFiles) :=
  run_readObject_of_read read_object_twoFiles parseObject_oneOfThreeObject

/-- A command that is to print what was sealed in the object. -/
theorem run_decrypt_twoFiles {bytes : List UInt8} (hobject : options.object = "o")
    (hout : options.out = none)
    (hopened : (options.opened (m := StateM FileStore) discreteLog oneOfThreeObject).run.run
      twoFiles = (.ok bytes, twoFiles)) :
    (options.run (m := StateM FileStore) discreteLog).run.run twoFiles =
      (.ok bytes, twoFiles) := by
  have hread : twoFiles.read options.object =
      .ok (utf8 (Base64.encode oneOfThreeObject.encode)) := by
    rw [hobject]
    exact read_object_twoFiles
  exact (outputs_of_opened hread parseObject_oneOfThreeObject hopened).1 hout

theorem masksDefined_oneOfThreeObject {keys : List discreteLog.G1}
    (h : ∀ key ∈ keys, discreteLog.compress? (discreteLog.pairing key discreteLog.generator) ≠
      none) : Sealing.MasksDefined oneOfThreeObject keys := by
  intro y hy
  obtain rfl := Option.some.inj (decode2?_oneOfThreeObject.symm.trans hy)
  exact h

/-- Three keys with masks open the object. -/
theorem exists_decryptAll_replicate {key : discreteLog.G1}
    (hvalue : discreteLog.compress? (discreteLog.pairing key discreteLog.generator) ≠ none) :
    ∃ bytes, Sealing.decryptAll oneOfThreeObject (List.replicate 3 key) = .ok bytes := by
  have hvalid := valid_oneOfThreeObject
  have hlength : (List.replicate 3 key).length = oneOfThreeObject.services.length := rfl
  have hservices := Sealing.map_service_openings hvalid hlength
  have hmasks : Sealing.MasksDefined oneOfThreeObject
      ((Sealing.openings oneOfThreeObject (List.replicate 3 key)).map Sealing.Opening.key) := by
    rw [Sealing.map_key_openings hvalid hlength]
    refine masksDefined_oneOfThreeObject fun other hother => ?_
    rwa [(List.mem_replicate.1 hother).2]
  have henough : oneOfThreeObject.threshold.toNat ≤
      (Sealing.openings oneOfThreeObject (List.replicate 3 key)).length := by
    rw [← List.length_map Sealing.Opening.service, hservices]
    exact hvalid.threshold_le
  rw [Sealing.decryptAll_eq_openWith hvalid hlength]
  exact Sealing.exists_openWith_eq_ok_of_plain hvalid rfl (by rw [hservices]) henough
    (by simp [decode2?_oneOfThreeObject]) hmasks

/-- Keys of all three servers, in any order and with one of another server, are all that is
asked for. -/
theorem supplied_of_run_strict_three_keys :
    let key : discreteLog.G1 := Ibe.hashIdentity discreteLog []
    let entries := [5, 9, 2, 3].map fun byte => (idOf byte, key)
    let options : Decrypt := {
      object := "o", keys := entries.map fun entry => keyLine discreteLog entry.1 entry.2,
      keyFiles := [], strict := true, timeoutSeconds := 10, out := none }
    ∃ bytes supplied,
      (options.run (m := StateM FileStore) discreteLog).run.run twoFiles =
        (.ok bytes, twoFiles) ∧
      Supplied discreteLog options twoFiles supplied ∧
        ∀ service ∈ oneOfThreeObject.services, service.server ∈ supplied := by
  intro key entries options
  have hparse : parseKeys discreteLog options.keys = .ok entries :=
    parseKeys_keyLines discreteLog_lawful.decode1_encode1 entries
  have hkeys : keysOfServices oneOfThreeObject entries = .ok (List.replicate 3 key) := rfl
  obtain ⟨bytes, hopen⟩ := exists_decryptAll_replicate
    (by decide +kernel : discreteLog.compress? (discreteLog.pairing key _) ≠ none)
  have hopened : (options.opened (m := StateM FileStore) discreteLog oneOfThreeObject).run.run
      twoFiles = (.ok bytes, twoFiles) := by
    have hall := openWithArguments_all hparse hkeys
    rw [hopen] at hall
    rw [run_opened_of_keyFiles_nil rfl]
    exact congrArg (·, twoFiles) hall
  have hrun := run_decrypt_twoFiles rfl rfl hopened
  obtain ⟨object, supplied, hread, hsupplied, -, hall⟩ := supplied_of_run_strict rfl hrun
  obtain rfl : oneOfThreeObject = object :=
    Except.ok.inj (congrArg Prod.fst (run_readObject_twoFiles.symm.trans hread))
  exact ⟨bytes, supplied, hrun, hsupplied, hall.resolve_right fun h => h.1 rfl⟩

theorem run_load_lastKeyFile :
    (KeyFile.load (m := StateM FileStore) discreteLog "k").run.run twoFiles =
      (.ok (lastKeyFile, masterKeyOf (idOf 5)), twoFiles) := by
  refine KeyFile.run_load_of_saved (KeyFile.saved_flat _ (by decide +kernel) ?_)
  rw [Table.get?_insert, if_pos rfl]
  rfl

/-- The key that is fetched from the one server with a key file opens the object. -/
theorem exists_openWithFiles_lastKeyFile :
    ∃ bytes, openWithFiles discreteLog oneOfThreeObject [(lastKeyFile, masterKeyOf (idOf 5))]
      (limitsOf 10) (completeInTime oneOfThreeObject (limitsOf 10)) = .ok bytes := by
  have hvalid := valid_oneOfThreeObject
  have hfiles : KeyFilesFor threeServers [(lastKeyFile, masterKeyOf (idOf 5))] := by
    refine ⟨List.nodup_singleton _, List.nodup_singleton _, fun file hfile server hserver hid => ?_⟩
    obtain rfl := List.mem_singleton.1 hfile
    rw [threeServers_publicKey server hserver, hid]
    rfl
  have hcovered :
      (coveredIds oneOfThreeObject [(lastKeyFile, masterKeyOf (idOf 5))]).length = 1 := by
    decide +kernel
  obtain ⟨hfetch, -⟩ := fetchFromFiles_of_covered discreteLog_lawful hfiles hvalid rfl (by omega)
    (concurrency_limitsOf 10) fun targets =>
      completeInTime_perm hfiles.nodup_urls (limitsOf 10) targets
  obtain ⟨ring, hring, hsize, hextracted⟩ := hfetch hcovered.ge
  -- All that was fetched was extracted with the master key of the file.
  have hmasks : Sealing.MasksDefined oneOfThreeObject
      (Sealing.usedKeys oneOfThreeObject ring) := by
    refine masksDefined_oneOfThreeObject fun key hkey => ?_
    obtain ⟨opening, hopening, rfl⟩ := List.mem_map.1 hkey
    have hget := (Sealing.mem_available_iff.1 (List.mem_of_mem_take hopening)).2
    obtain ⟨file, hfile, -, -, hissued⟩ := hextracted _ _ hget
    obtain rfl := List.mem_singleton.1 hfile
    rw [hissued]
    decide +kernel
  have henough : oneOfThreeObject.threshold.toNat ≤
      (Sealing.available oneOfThreeObject ring).length := by
    rw [Sealing.length_available hvalid, ← hsize]
    exact hextracted.size_le_countP
  obtain ⟨bytes, hopen⟩ := Sealing.exists_decrypt_eq_ok_of_plain hvalid rfl henough
    (by simp [decode2?_oneOfThreeObject]) hmasks
  exact ⟨bytes, by rw [openWithFiles, hring, Outcome.ok_bind, hopen]; rfl⟩

/-- The key file of one of three servers is enough, although the command asks for keys of all
of them. -/
theorem run_strict_of_one_key_file :
    let options : Decrypt := {
      object := "o", keys := [], keyFiles := ["k"], strict := true, timeoutSeconds := 10,
      out := none }
    (readObject (m := StateM FileStore) options.object).run.run twoFiles =
        (.ok oneOfThreeObject, twoFiles) ∧
      Supplied discreteLog options twoFiles [idOf 5] ∧
      (∃ service ∈ oneOfThreeObject.services, service.server ∉ [idOf 5]) ∧
      ∃ bytes, (options.run (m := StateM FileStore) discreteLog).run.run twoFiles =
        (.ok bytes, twoFiles) := by
  intro options
  have hsome : options.keyFiles ≠ [] := by decide
  have hload : List.Forall₂ (fun path file =>
      ((KeyFile.load (m := StateM FileStore) discreteLog path).run.run twoFiles).1 = .ok file)
      options.keyFiles [(lastKeyFile, masterKeyOf (idOf 5))] :=
    .cons (congrArg Prod.fst run_load_lastKeyFile) .nil
  obtain ⟨bytes, hopen⟩ := exists_openWithFiles_lastKeyFile
  have hopened : (options.opened (m := StateM FileStore) discreteLog oneOfThreeObject).run.run
      twoFiles = (.ok bytes, twoFiles) := by
    rw [run_opened_eq hsome hload]
    exact congrArg (·, twoFiles) hopen
  exact ⟨run_readObject_twoFiles, .keyFiles hsome hload, ⟨⟨idOf 2, 1⟩, by decide, by decide⟩,
    bytes, run_decrypt_twoFiles rfl rfl hopened⟩

end OneOfThree

end CommandLine
end Quorum
