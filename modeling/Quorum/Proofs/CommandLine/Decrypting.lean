import Quorum.Proofs.CommandLine.Fetching
import Quorum.Proofs.Document
import Quorum.Proofs.Sealing.RoundTrip

/-!
# Opening with key files

What was sealed for a set of servers is opened with key files of enough of them.  No two of
the files may be for one server or for one address; files of servers for which nothing was
sealed may be among them, and neither the order of the files nor that of the answers matters.
With too few files the fetch is refused before any server is asked for a key.

This holds for the files as values and for a command that reads them; that it reads them
changes nothing else.
-/

namespace Quorum
namespace CommandLine

variable {suite : PairingSuite} {servers : ServerSet suite}
  {files : List (KeyFile × suite.Scalar)} {threshold : UInt8} {payload : Payload}

/-- Keys that were extracted with the master keys of enough files open what was sealed. -/
theorem decrypt_of_extractedFrom (hsuite : suite.Lawful) (hfiles : KeyFilesFor servers files)
    {rows : List Key} {r : suite.Scalar} {object : SealedObject} {key : Key}
    (h : Sealing.SealedFor servers threshold payload rows r object key) {ring : KeyRing suite}
    (hsize : ring.size = object.threshold.toNat) (hring : ExtractedFrom files object ring) :
    Sealing.decrypt object ring = .ok (payload.contents key) := by
  refine h.decrypt_of_keyRing hsuite.decode2_encode2 (fun server hserver issued hget => ?_) ?_
  · obtain ⟨file, hfile, hid, -, rfl⟩ := hring server.id issued hget
    rw [hfiles.publicKey_eq file hfile server hserver hid.symm]
    exact Ibe.unmasks_of_verifyKey hsuite (Ibe.verifyKey_extract hsuite file.2 object.identity)
  · rw [← h.threshold_eq, ← hsize, ← h.servers_eq]
    exact hring.size_le_countP

theorem concurrency_limitsOf (timeoutSeconds : Nat) :
    (limitsOf timeoutSeconds).concurrency ≤ FetchLimits.maxConcurrency := by
  change 32 ≤ FetchLimits.maxConcurrency
  decide

/-- Opening with the servers of key files is decided by the number of services that have
one. -/
theorem openWithFiles_eq (hsuite : suite.Lawful) (hfiles : KeyFilesFor servers files)
    {rows : List Key} {r : suite.Scalar} {object : SealedObject} {key : Key}
    (h : Sealing.SealedFor servers threshold payload rows r object key)
    (hpos : 0 < (coveredIds object files).length) (timeoutSeconds : Nat)
    {complete : Client → List Target → List (ObjectId × Answer)}
    (hcomplete : ∀ targets, (complete (serve suite files).1.client targets).Perm
      (directAnswers (serve suite files).1.client object targets)) :
    openWithFiles suite object files (limitsOf timeoutSeconds) complete =
      if threshold.toNat ≤ (coveredIds object files).length then .ok (payload.contents key)
      else .error (.service (.thresholdNotMet 0 threshold.toNat)) := by
  obtain ⟨henough, hfew⟩ := fetchFromFiles_of_covered hsuite hfiles h.valid h.servers_eq hpos
    (concurrency_limitsOf timeoutSeconds) hcomplete
  rw [h.threshold_eq] at henough hfew
  unfold openWithFiles
  split
  · rename_i hle
    obtain ⟨ring, hring, hsize, hextracted⟩ := henough hle
    rw [hring, Outcome.ok_bind]
    rw [decrypt_of_extractedFrom hsuite hfiles h (h.threshold_eq ▸ hsize) hextracted]
    rfl
  · rename_i hlt
    rw [hfew (Nat.not_le.1 hlt), Outcome.error_bind]

/-! ## The command -/

theorem run_onFiles {α : Type} (step : ExceptT DocumentError (StateM FileStore) α)
    (store : FileStore) : (onFiles step).run.run store =
      ((step.run.run store).1.mapError .document, (step.run.run store).2) := rfl

theorem readOnly_onFiles {α : Type} {step : ExceptT DocumentError (StateM FileStore) α}
    (h : ReadOnly step) : ReadOnly (onFiles step) := fun store => h store

/-- Key files are loaded exactly if each of them is, and nothing changes. -/
theorem run_loadKeyFiles_eq_ok_iff {paths : List String} {before after : FileStore} :
    (paths.mapM fun path => onFiles (KeyFile.load (m := StateM FileStore) suite path)).run.run
        before = (.ok files, after) ↔
      List.Forall₂ (fun path file =>
        ((KeyFile.load (m := StateM FileStore) suite path).run.run before).1 = .ok file)
        paths files ∧ after = before := by
  have hload (path : String) (file : KeyFile × suite.Scalar) :
      ((onFiles (KeyFile.load (m := StateM FileStore) suite path)).run.run before).1 = .ok file ↔
        ((KeyFile.load (m := StateM FileStore) suite path).run.run before).1 = .ok file := by
    rw [run_onFiles, Outcome.mapError_eq_ok_iff]
  rw [ReadOnly.run_mapM_eq_ok_iff fun path => readOnly_onFiles (KeyFile.readOnly_load suite path)]
  simp only [hload]

/-- Reading key files that can be read changes nothing, and opening is what is left. -/
theorem run_opened_eq {object : SealedObject} {options : Decrypt} {store : FileStore}
    (hne : options.keyFiles ≠ [])
    (hload : List.Forall₂ (fun path file =>
      ((KeyFile.load (m := StateM FileStore) suite path).run.run store).1 = .ok file)
      options.keyFiles files) :
    (options.opened (m := StateM FileStore) suite object).run.run store =
      (openWithFiles suite object files (limitsOf options.timeoutSeconds)
        (completeInTime object (limitsOf options.timeoutSeconds)), store) := by
  have hloaded := run_loadKeyFiles_eq_ok_iff.2 ⟨hload, rfl⟩
  rw [Decrypt.opened, if_neg hne, Outcome.run_bind_of_ok hloaded]
  rfl

/-- Opening with key files succeeds only if all of them can be read. -/
theorem exists_of_run_opened {object : SealedObject} {options : Decrypt}
    {before after : FileStore} {bytes : List UInt8} (hne : options.keyFiles ≠ [])
    (h : (options.opened (m := StateM FileStore) suite object).run.run before =
      (.ok bytes, after)) :
    ∃ files, List.Forall₂ (fun path file =>
        ((KeyFile.load (m := StateM FileStore) suite path).run.run before).1 = .ok file)
        options.keyFiles files ∧
      openWithFiles suite object files (limitsOf options.timeoutSeconds)
        (completeInTime object (limitsOf options.timeoutSeconds)) = .ok bytes := by
  rw [Decrypt.opened, if_neg hne] at h
  obtain ⟨files, middle, hloaded, -⟩ := Outcome.run_bind_eq_ok_iff.1 h
  obtain ⟨hload, rfl⟩ := run_loadKeyFiles_eq_ok_iff.1 hloaded
  rw [Outcome.run_bind_of_ok hloaded] at h
  exact ⟨files, hload, congrArg Prod.fst h⟩

/-- What was sealed is opened with key files for enough of its services, by whatever order of
the files and of the answers; with a file for one but too few services, the fetch is refused.
A command that reads the files ends in the same way and leaves them as they are. -/
theorem opened_of_keyFiles (hsuite : suite.Lawful) {packageId : ObjectId} {innerId : List UInt8}
    {random : RandomSource} {result : Sealing.Sealed}
    (hencrypt : Sealing.encrypt packageId innerId servers threshold payload random = .ok result)
    (hfiles : KeyFilesFor servers files) (hpos : 0 < (coveredIds result.object files).length) :
    let expected : Except CommandError (List UInt8) :=
      if threshold.toNat ≤ (coveredIds result.object files).length then
        .ok (payload.contents result.key)
      else .error (.service (.thresholdNotMet 0 threshold.toNat))
    (∀ timeoutSeconds complete,
      (∀ targets, (complete (serve suite files).1.client targets).Perm
        (directAnswers (serve suite files).1.client result.object targets)) →
      openWithFiles suite result.object files (limitsOf timeoutSeconds) complete = expected) ∧
    ∀ (options : Decrypt) (store : FileStore),
      List.Forall₂ (fun path file =>
        ((KeyFile.load (m := StateM FileStore) suite path).run.run store).1 = .ok file)
        options.keyFiles files →
      (options.opened (m := StateM FileStore) suite result.object).run.run store =
        (expected, store) := by
  intro expected
  obtain ⟨-, -, rows, r, h⟩ := Sealing.exists_sealedFor_of_encrypt hencrypt
  refine ⟨fun timeoutSeconds complete hcomplete =>
    openWithFiles_eq hsuite hfiles h hpos timeoutSeconds hcomplete, fun options store hload => ?_⟩
  have hne : options.keyFiles ≠ [] := by
    intro hnil
    -- Without a file no service would have one.
    rw [hnil, List.forall₂_nil_left_iff] at hload
    subst hload
    simp [coveredIds, idsOf] at hpos
  rw [run_opened_eq hne hload, openWithFiles_eq hsuite hfiles h hpos _
    fun targets => completeInTime_perm hfiles.nodup_urls _ targets]

open PairingSuite in
/-- Three bytes are sealed for three servers, two of which are needed.  There are files of two
of them and of another server, then of one of them and of another server. -/
theorem opened_of_keyFiles_two_of_three :
    let fileOf (byte : UInt8) (url : String) : KeyFile × discreteLog.Scalar :=
      (KeyFile.ofMasterKey discreteLog (idOf byte) "" url (masterKeyOf (idOf byte)),
        masterKeyOf (idOf byte))
    let enough := [fileOf 5 "c", fileOf 9 "a", fileOf 2 "b"]
    let few := [fileOf 9 "a", fileOf 3 "b"]
    ∃ result,
      Sealing.encrypt (idOf 7) [1, 2] threeServers 2 (.data [10, 20, 30])
        { byteAt := fun _ => 1 } = .ok result ∧
      let complete := fun client targets => (directAnswers client result.object targets).reverse
      openWithFiles discreteLog result.object enough (limitsOf 0) complete = .ok [10, 20, 30] ∧
        openWithFiles discreteLog result.object few (limitsOf 10) complete =
          .error (.service (.thresholdNotMet 0 2)) := by
  intro fileOf enough few
  have hbytes : ([10, 20, 30] : List UInt8).length ≤ Aes256Gcm.maxPlaintext := by decide
  obtain ⟨result, hencrypt⟩ := Sealing.exists_encrypt_threeServers hbytes
  obtain ⟨-, -, rows, r, hsealed⟩ := Sealing.exists_sealedFor_of_encrypt hencrypt
  have hcovered (files : List (KeyFile × discreteLog.Scalar)) :
      coveredIds result.object files =
        [idOf 2, idOf 3, idOf 5].filter fun id => id ∈ idsOf files := by
    rw [coveredIds, hsealed.servers_eq]
    rfl
  have hmasterKey (byte : UInt8) (url : String) : (fileOf byte url).2 =
      masterKeyOf (fileOf byte url).1.id := rfl
  have hfiles (files : List (KeyFile × discreteLog.Scalar)) (hids : (idsOf files).Nodup)
      (hurls : (urlsOf files).Nodup)
      (hmasterKeys : ∀ file ∈ files, file.2 = masterKeyOf file.1.id) :
      KeyFilesFor threeServers files := by
    refine ⟨hids, hurls, fun file hfile server hserver hid => ?_⟩
    rw [threeServers_publicKey server hserver, hid, hmasterKeys file hfile]
  have henough : KeyFilesFor threeServers enough :=
    hfiles enough (by decide +kernel) (by decide +kernel) (by simp [enough, hmasterKey])
  have hfew : KeyFilesFor threeServers few :=
    hfiles few (by decide +kernel) (by decide +kernel) (by simp [few, hmasterKey])
  have htwo : (coveredIds result.object enough).length = 2 := by
    rw [hcovered]
    decide +kernel
  have hone : (coveredIds result.object few).length = 1 := by
    rw [hcovered]
    decide +kernel
  have htwoPos : 0 < (coveredIds result.object enough).length := by omega
  have honePos : 0 < (coveredIds result.object few).length := by omega
  obtain ⟨hopened, -⟩ := opened_of_keyFiles discreteLog_lawful hencrypt henough htwoPos
  obtain ⟨hrefused, -⟩ := opened_of_keyFiles discreteLog_lawful hencrypt hfew honePos
  rw [htwo] at hopened
  rw [hone] at hrefused
  refine ⟨result, hencrypt, ?_⟩
  intro complete
  exact ⟨hopened 0 complete fun _ => List.reverse_perm _,
    hrefused 10 complete fun _ => List.reverse_perm _⟩

end CommandLine
end Quorum
