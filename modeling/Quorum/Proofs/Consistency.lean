import Quorum.Proofs.Ibe.Verification
import Quorum.Proofs.KeyFile
import Quorum.Proofs.Writable

/-!
# Consistent key files

A key file is loaded exactly if its master key is written in 32 bytes that stand for a number
below the order of the groups, and its public key is that of this number.  So of the two keys
neither can be changed alone: the file is refused, unless both master keys have one public key.

The file that is made for a master key is consistent, and it proves possession.
-/

namespace Quorum
namespace KeyFile

variable {suite : PairingSuite} {file : KeyFile} {masterKey : suite.Scalar} {path : String}
  {store after : FileStore}

/-! ## Master keys -/

/-- A master key is decoded from its own bytes only. -/
theorem decodeMasterKey_eq_ok_iff {bytes : Bytes 32} :
    Ibe.decodeMasterKey suite bytes = .ok masterKey ↔ bytes.toNat = masterKey.val := by
  unfold Ibe.decodeMasterKey
  split
  · rw [Except.ok.injEq, Fin.ext_iff]
  · rename_i hlarge
    refine iff_of_false (by simp) fun heq => hlarge ?_
    rw [heq]
    exact masterKey.isLt

theorem masterKey_of_decode {bytes : Bytes 32}
    (h : Hex.decode file.masterKeyText = .ok bytes.toList) :
    file.masterKey suite = (Ibe.decodeMasterKey suite bytes).mapError .masterKeyValue := by
  rw [KeyFile.masterKey, h]
  simp

/-- The digits of a master key are those of 32 bytes, in either case. -/
theorem masterKey_eq_ok_iff : file.masterKey suite = .ok masterKey ↔
    ∃ bytes : Bytes 32, Hex.decode file.masterKeyText = .ok bytes.toList ∧
      bytes.toNat = masterKey.val := by
  constructor
  · intro h
    cases hdigits : Hex.decode file.masterKeyText with
    | error fault => simp [KeyFile.masterKey, hdigits] at h
    | ok read =>
        cases hbytes : Bytes.ofList? 32 read with
        | none => simp [KeyFile.masterKey, hdigits, hbytes] at h
        | some bytes =>
            obtain rfl := Bytes.ofList?_eq_some_iff.1 hbytes
            rw [masterKey_of_decode hdigits, Outcome.mapError_eq_ok_iff] at h
            exact ⟨bytes, rfl, decodeMasterKey_eq_ok_iff.1 h⟩
  · rintro ⟨bytes, hdigits, hvalue⟩
    rw [masterKey_of_decode hdigits, Outcome.mapError_eq_ok_iff]
    exact decodeMasterKey_eq_ok_iff.2 hvalue

/-! ## The check of the public key -/

theorem checked_of_masterKey (h : file.masterKey suite = .ok masterKey) (path : String) :
    file.checked suite path =
      if suite.encode2 (Ibe.publicKey suite masterKey) = file.publicKey then .ok masterKey
      else .error (.publicKeyMismatch path) := by
  rw [checked, h]
  rfl

theorem checked_eq_ok_iff : file.checked suite path = .ok masterKey ↔
    file.masterKey suite = .ok masterKey ∧
      suite.encode2 (Ibe.publicKey suite masterKey) = file.publicKey := by
  constructor
  · intro h
    obtain ⟨key, hkey, -⟩ := Outcome.bind_eq_ok_iff.1 h
    rw [checked_of_masterKey hkey] at h
    split at h
    · rename_i hpublic
      cases h
      exact ⟨hkey, hpublic⟩
    · cases h
  · rintro ⟨hkey, hpublic⟩
    rw [checked_of_masterKey hkey, if_pos hpublic]

/-! ## What is loaded -/

theorem run_load_eq_ok_iff :
    (load (m := StateM FileStore) suite path).run.run store = (.ok (file, masterKey), after) ↔
      FileAccess.Holds ofJson? path file store ∧ file.checked suite path = .ok masterKey ∧
        after = store := by
  constructor
  · intro h
    obtain ⟨found, middle, hfound, -⟩ := Outcome.run_bind_eq_ok_iff.1 h
    obtain ⟨hholds, -⟩ := FileAccess.run_loadJson_eq_ok_iff.1 hfound
    rw [run_load_of_holds hholds] at h
    cases hchecked : found.checked suite path with
    | error error =>
        rw [hchecked] at h
        cases h
    | ok key =>
        rw [hchecked] at h
        cases h
        exact ⟨hholds, hchecked, rfl⟩
  · rintro ⟨hholds, hchecked, rfl⟩
    rw [run_load_of_holds hholds, hchecked]
    rfl

/-- A key file is loaded exactly if it is consistent. -/
theorem run_load_eq_ok_iff_consistent :
    (load (m := StateM FileStore) suite path).run.run store = (.ok (file, masterKey), after) ↔
      FileAccess.Holds ofJson? path file store ∧
        (∃ bytes : Bytes 32, Hex.decode file.masterKeyText = .ok bytes.toList ∧
          bytes.toNat < suite.order ∧ masterKey.val = bytes.toNat) ∧
        file.publicKey = suite.encode2 (Ibe.publicKey suite masterKey) ∧ after = store := by
  rw [run_load_eq_ok_iff, checked_eq_ok_iff, masterKey_eq_ok_iff, and_assoc,
    @eq_comm _ (suite.encode2 _)]
  refine and_congr_right fun _ => and_congr_left fun _ => exists_congr fun bytes =>
    and_congr_right fun _ => ?_
  rw [eq_comm]
  refine (and_iff_right_of_imp fun heq => ?_).symm
  rw [← heq]
  exact masterKey.isLt

/-- Encodings are told apart by what is decoded from them. -/
theorem encode2_inj (hdecode2 : ∀ y, suite.decode2? (suite.encode2 y) = some y) {y z : suite.G2} :
    suite.encode2 y = suite.encode2 z ↔ y = z := by
  refine ⟨fun heq => ?_, congrArg suite.encode2⟩
  have hdecoded := congrArg suite.decode2? heq
  rw [hdecode2, hdecode2] at hdecoded
  exact Option.some.inj hdecoded

/-! ## Changed fields -/

section Fields

variable {id name url key publicKey proof : Json} {json : Json}

/-- A key file is what its six fields hold. -/
theorem ofJson?_eq_some_iff
    (h : json.record? fieldNames = some [id, name, url, key, publicKey, proof]) :
    ofJson? json = some file ↔
      ObjectId.ofJson? id = some file.id ∧ name.asText? = some file.name ∧
        url.asText? = some file.url ∧ key.asText? = some file.masterKeyText ∧
        Bytes.ofJson? 96 publicKey = some file.publicKey ∧
        Bytes.ofJson? 48 proof = some file.proofOfPossession := by
  rw [ofJson?, h]
  simp only [Option.bind_eq_bind, Option.bind_some, Option.bind_eq_some_iff, Option.pure_def,
    Option.some.injEq]
  constructor
  · rintro ⟨a, ha, b, hb, c, hc, d, hd, e, he, f, hf, rfl⟩
    exact ⟨ha, hb, hc, hd, he, hf⟩
  · rintro ⟨ha, hb, hc, hd, he, hf⟩
    exact ⟨_, ha, _, hb, _, hc, _, hd, _, he, _, hf, rfl⟩

/-- A file with these six fields holds what they hold. -/
theorem holds_iff_of_fields (h : FileAccess.Holds (Json.record? fieldNames) path
    [id, name, url, key, publicKey, proof] store) :
    FileAccess.Holds ofJson? path file store ↔
      ObjectId.ofJson? id = some file.id ∧ name.asText? = some file.name ∧
        url.asText? = some file.url ∧ key.asText? = some file.masterKeyText ∧
        Bytes.ofJson? 96 publicKey = some file.publicKey ∧
        Bytes.ofJson? 48 proof = some file.proofOfPossession := by
  obtain ⟨contents, text, hread, htext, hvalues⟩ := h
  obtain ⟨json, hjson, hrecord⟩ := Option.bind_eq_some_iff.1 hvalues
  rw [← ofJson?_eq_some_iff hrecord]
  constructor
  · rintro ⟨contents', text', hread', htext', hfile⟩
    cases hread.symm.trans hread'
    cases htext.symm.trans htext'
    rwa [hjson] at hfile
  · intro hfile
    exact ⟨contents, text, hread, htext, by rwa [hjson]⟩

variable {changed : FileStore} {publicKey' key' : Json}

/-- With another public key a file is refused. -/
theorem run_load_of_other_publicKey
    (hload : (load (m := StateM FileStore) suite path).run.run store =
      (.ok (file, masterKey), after))
    (hfields : FileAccess.Holds (Json.record? fieldNames) path
      [id, name, url, key, publicKey, proof] store)
    (hchanged : FileAccess.Holds (Json.record? fieldNames) path
      [id, name, url, key, publicKey', proof] changed)
    (hne : Bytes.ofJson? 96 publicKey' ≠ some file.publicKey) :
    (load (m := StateM FileStore) suite path).run.run changed =
      (.error (if (Bytes.ofJson? 96 publicKey').isSome then .publicKeyMismatch path else .notJson),
        changed) := by
  obtain ⟨hholds, hchecked, -⟩ := run_load_eq_ok_iff.1 hload
  obtain ⟨hkey, hpublic⟩ := checked_eq_ok_iff.1 hchecked
  obtain ⟨hid, hname, hurl, htext, -, hproof⟩ := (holds_iff_of_fields hfields).1 hholds
  cases hbytes : Bytes.ofJson? 96 publicKey' with
  | none =>
      -- The field is no public key, so the file holds no key file.
      refine Outcome.run_bind_eq_error_iff.2 (.inl ?_)
      refine FileAccess.run_loadJson_eq_notJson hchanged fun other hother => ?_
      have hsome := ((holds_iff_of_fields hchanged).1 hother).2.2.2.2.1
      rw [hbytes] at hsome
      cases hsome
  | some bytes =>
      have hother : FileAccess.Holds ofJson? path { file with publicKey := bytes } changed :=
        (holds_iff_of_fields hchanged).2 ⟨hid, hname, hurl, htext, hbytes, hproof⟩
      have hkey' : ({ file with publicKey := bytes } : KeyFile).masterKey suite =
          .ok masterKey := hkey
      have hbytesNe : ¬ suite.encode2 (Ibe.publicKey suite masterKey) = bytes := by
        rintro rfl
        exact hne (hbytes.trans (congrArg some hpublic))
      rw [run_load_of_holds hother, checked_of_masterKey hkey', if_neg hbytesNe]
      rfl

/-- With a master key that has another public key a file is refused. -/
theorem run_load_of_other_masterKey
    (hdecode2 : ∀ y, suite.decode2? (suite.encode2 y) = some y)
    (hload : (load (m := StateM FileStore) suite path).run.run store =
      (.ok (file, masterKey), after))
    (hfields : FileAccess.Holds (Json.record? fieldNames) path
      [id, name, url, key, publicKey, proof] store)
    (hchanged : FileAccess.Holds (Json.record? fieldNames) path
      [id, name, url, key', publicKey, proof] changed) {text : String}
    (htext : key'.asText? = some text) {bytes : Bytes 32}
    (hdigits : Hex.decode text = .ok bytes.toList) {other : suite.Scalar}
    (hvalue : bytes.toNat = other.val)
    (hne : Ibe.publicKey suite other ≠ Ibe.publicKey suite masterKey) :
    (load (m := StateM FileStore) suite path).run.run changed =
      (.error (.publicKeyMismatch path), changed) := by
  obtain ⟨hholds, hchecked, -⟩ := run_load_eq_ok_iff.1 hload
  obtain ⟨-, hpublic⟩ := checked_eq_ok_iff.1 hchecked
  obtain ⟨hid, hname, hurl, -, hbytes, hproof⟩ := (holds_iff_of_fields hfields).1 hholds
  have hother : FileAccess.Holds ofJson? path { file with masterKeyText := text } changed :=
    (holds_iff_of_fields hchanged).2 ⟨hid, hname, hurl, htext, hbytes, hproof⟩
  have hkey : ({ file with masterKeyText := text } : KeyFile).masterKey suite = .ok other :=
    masterKey_eq_ok_iff.2 ⟨bytes, hdigits, hvalue⟩
  have hpublicNe : ¬ suite.encode2 (Ibe.publicKey suite other) = file.publicKey := fun heq =>
    hne ((encode2_inj hdecode2).1 (heq.trans hpublic.symm))
  rw [run_load_of_holds hother, checked_of_masterKey hkey, if_neg hpublicNe]
  rfl

end Fields

/-! ## Key files that are made for a master key -/

/-- Where a file can be written, a key file is saved, and then it is loaded with its master
key. -/
theorem exists_run_save (h : store.Writable path) (id : ObjectId) (name url : String)
    (masterKey : suite.Scalar) : ∃ after,
      ((ofMasterKey suite id name url masterKey).save (m := StateM FileStore) path).run.run store =
        (.ok (), after) ∧
      (load (m := StateM FileStore) suite path).run.run after =
        (.ok (ofMasterKey suite id name url masterKey, masterKey), after) := by
  obtain ⟨after, hsave⟩ := FileAccess.exists_run_storeJson_iff.2 h
  exact ⟨after, hsave, run_load_of_saved ⟨store, after, hsave, rfl⟩⟩

/-- What is saved for a master key is loaded as it was, with this master key and with a proof
that verifies.  A key file is loaded exactly if its master key is written in 32 bytes, is below
the order of the groups and has the stored public key, so that with another public key, or with
a master key that has another public key, it is refused. -/
theorem load_saved_and_consistent (hpairing : suite.Balanced)
    (hdecode1 : ∀ x, suite.decode1? (suite.encode1 x) = some x)
    (hdecode2 : ∀ y, suite.decode2? (suite.encode2 y) = some y) (path : String) :
    (∀ (id : ObjectId) (name url : String) (masterKey : suite.Scalar) (store : FileStore),
      store.Writable path → ∃ after file,
        ((ofMasterKey suite id name url masterKey).save (m := StateM FileStore) path).run.run
          store = (.ok (), after) ∧
        (load (m := StateM FileStore) suite path).run.run after =
          (.ok (file, masterKey), after) ∧
        file.id = id ∧ file.name = name ∧ file.url = url ∧
        file.publicKey = suite.encode2 (Ibe.publicKey suite masterKey) ∧
        file.proofOfPossession = suite.encode1 (Ibe.provePossession suite masterKey id url) ∧
        file.masterKey suite = .ok masterKey ∧
        ∃ publicKey proof, suite.decode2? file.publicKey = some publicKey ∧
          suite.decode1? file.proofOfPossession = some proof ∧
          Ibe.verifyPossession suite publicKey file.id file.url proof = .ok ()) ∧
    (∀ (store after : FileStore) (file : KeyFile) (masterKey : suite.Scalar),
      (load (m := StateM FileStore) suite path).run.run store = (.ok (file, masterKey), after) ↔
        FileAccess.Holds ofJson? path file store ∧
          (∃ bytes : Bytes 32, Hex.decode file.masterKeyText = .ok bytes.toList ∧
            bytes.toNat < suite.order ∧ masterKey.val = bytes.toNat) ∧
          file.publicKey = suite.encode2 (Ibe.publicKey suite masterKey) ∧ after = store) ∧
    ∀ (store after changed : FileStore) (file : KeyFile) (masterKey : suite.Scalar)
      (id name url key publicKey proof : Json),
      (load (m := StateM FileStore) suite path).run.run store = (.ok (file, masterKey), after) →
      FileAccess.Holds (Json.record? fieldNames) path [id, name, url, key, publicKey, proof]
        store →
      (∀ publicKey' : Json,
        FileAccess.Holds (Json.record? fieldNames) path [id, name, url, key, publicKey', proof]
          changed →
        Bytes.ofJson? 96 publicKey' ≠ some file.publicKey →
        (load (m := StateM FileStore) suite path).run.run changed =
          (.error (if (Bytes.ofJson? 96 publicKey').isSome then .publicKeyMismatch path
            else .notJson), changed)) ∧
      ∀ (key' : Json) (text : String) (bytes : Bytes 32) (other : suite.Scalar),
        FileAccess.Holds (Json.record? fieldNames) path [id, name, url, key', publicKey, proof]
          changed →
        key'.asText? = some text → Hex.decode text = .ok bytes.toList →
        bytes.toNat = other.val → Ibe.publicKey suite other ≠ Ibe.publicKey suite masterKey →
        (load (m := StateM FileStore) suite path).run.run changed =
          (.error (.publicKeyMismatch path), changed) := by
  refine ⟨fun id name url masterKey store hwritable => ?_,
    fun store after file masterKey => run_load_eq_ok_iff_consistent,
    fun store after changed file masterKey id name url key publicKey proof hload hfields =>
      ⟨fun publicKey' hchanged hne => run_load_of_other_publicKey hload hfields hchanged hne,
        fun key' text bytes other hchanged htext hdigits hvalue hne =>
          run_load_of_other_masterKey hdecode2 hload hfields hchanged htext hdigits hvalue hne⟩⟩
  obtain ⟨after, hsave, hload⟩ := exists_run_save hwritable id name url masterKey
  exact ⟨after, _, hsave, hload, rfl, rfl, rfl, rfl, rfl,
    masterKey_ofMasterKey suite id name url masterKey, _, _, hdecode2 _, hdecode1 _,
    Ibe.verifyPossession_of_balanced hpairing masterKey id url⟩

open PairingSuite FileStore in
/-- A file for the master key five, and what becomes of it when the public key or the master key
is replaced by that of another server. -/
theorem load_saved_and_consistent_five :
    let five : discreteLog.Scalar := Fin.ofNat Bls.groupOrder 5
    let made := ofMasterKey discreteLog (idOf 4) "\"" "u" five
    let six : discreteLog.Scalar := Fin.ofNat Bls.groupOrder 6
    let other := ofMasterKey discreteLog (idOf 4) "\"" "u" six
    ∃ store file,
      (made.save (m := StateM FileStore) "k").run.run (flat Table.empty) = (.ok (), store) ∧
      (load (m := StateM FileStore) discreteLog "k").run.run store = (.ok (file, five), store) ∧
      file.name = "\"" ∧
      (∃ publicKey proof, discreteLog.decode2? file.publicKey = some publicKey ∧
        discreteLog.decode1? file.proofOfPossession = some proof ∧
        Ibe.verifyPossession discreteLog publicKey file.id file.url proof = .ok ()) ∧
      (∃ bytes : Bytes 32, Hex.decode file.masterKeyText = .ok bytes.toList ∧
        bytes.toNat = 5) ∧
      (∃ changed, ({ made with publicKey := other.publicKey }.save
          (m := StateM FileStore) "k").run.run store = (.ok (), changed) ∧
        (load (m := StateM FileStore) discreteLog "k").run.run changed =
          (.error (.publicKeyMismatch "k"), changed)) ∧
      ∃ changed, ({ made with masterKeyText := other.masterKeyText }.save
          (m := StateM FileStore) "k").run.run store = (.ok (), changed) ∧
        (load (m := StateM FileStore) discreteLog "k").run.run changed =
          (.error (.publicKeyMismatch "k"), changed) := by
  intro five made six other
  have hplain : Plain "k" := by decide +kernel
  obtain ⟨hsaved, hloaded, hchanged⟩ := load_saved_and_consistent
    discreteLog_lawful.bilinear.balanced discreteLog_lawful.decode1_encode1
    discreteLog_lawful.decode2_encode2 "k"
  obtain ⟨store, file, hsave, hload, -, hname, -, hpublic, -, -, hproof⟩ :=
    hsaved (idOf 4) "\"" "u" five (flat Table.empty) (hplain.writable _)
  obtain ⟨hholds, ⟨bytes, hdigits, -, hbytes⟩, -, -⟩ := (hloaded _ _ _ _).1 hload
  have hfields := FileAccess.holds_of_run_storeJson hsave made.parse?_pretty_values
  have hne : Ibe.publicKey discreteLog six ≠ Ibe.publicKey discreteLog five := by
    decide +kernel
  have hencoded : other.publicKey ≠ file.publicKey := fun heq =>
    hne ((encode2_inj discreteLog_lawful.decode2_encode2).1 (heq.trans hpublic))
  obtain ⟨forged, hforged⟩ := FileAccess.exists_run_storeJson_iff.2 hholds.writable
  obtain ⟨mixed, hmixed⟩ := FileAccess.exists_run_storeJson_iff.2 hholds.writable
  refine ⟨store, file, hsave, hload, hname, hproof, ⟨bytes, hdigits, hbytes.symm⟩,
    ⟨forged, hforged, ?_⟩, mixed, hmixed, ?_⟩
  · have hrefused := (hchanged _ _ forged _ _ _ _ _ _ _ _ hload hfields).1
      (Bytes.toJson other.publicKey)
      (FileAccess.holds_of_run_storeJson hforged (parse?_pretty_values _))
    rw [Bytes.ofJson?_toJson] at hrefused
    exact hrefused fun heq => hencoded (Option.some.inj heq)
  · obtain ⟨bytes, hdigits, hvalue⟩ :=
      masterKey_eq_ok_iff.1 (masterKey_ofMasterKey discreteLog (idOf 4) "\"" "u" six)
    exact (hchanged _ _ mixed _ _ _ _ _ _ _ _ hload hfields).2 (.ofText other.masterKeyText) _
      bytes six (FileAccess.holds_of_run_storeJson hmixed (parse?_pretty_values _))
      (Json.asText?_ofText _) hdigits hvalue hne

end KeyFile
end Quorum
