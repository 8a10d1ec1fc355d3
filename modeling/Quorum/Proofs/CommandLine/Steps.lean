import Quorum.Proofs.Base64
import Quorum.Proofs.CommandLine.Decrypting
import Quorum.Proofs.KeyFile
import Quorum.Proofs.ServerList

/-!
# The steps of commands that succeed

A command is a sequence of steps that read files, steps whose results are known, and steps that
write a file.  Where it succeeds, all its steps do, and what it leaves can be told from them.
-/

namespace Quorum
namespace CommandLine

variable {α : Type} {suite : PairingSuite} {before after : FileStore} {printed : List UInt8}

theorem run_onFiles_eq_ok_iff {step : ExceptT DocumentError (StateM FileStore) α} {a : α} :
    (onFiles step).run.run before = (.ok a, after) ↔ step.run.run before = (.ok a, after) := by
  rw [run_onFiles]
  rcases step.run.run before with ⟨result, store⟩
  rw [Prod.mk.injEq, Prod.mk.injEq, Outcome.mapError_eq_ok_iff]

theorem run_known_eq_ok_iff {result : Except CommandError α} {a : α} :
    (known (m := StateM FileStore) result).run.run before = (.ok a, after) ↔
      result = .ok a ∧ after = before := by
  change (result, before) = _ ↔ _
  rw [Prod.mk.injEq, @eq_comm _ before]

/-! ## The end of a command -/

/-- Writes a result to a file and reports that, or prints the result. -/
def deliver (out : Option String) (contents : List UInt8) (report : String → List UInt8)
    (shown : List UInt8) : ExceptT CommandError (StateM FileStore) (List UInt8) :=
  match out with
  | some path => do
    onFiles (FileAccess.store path contents)
    return report path
  | none => return shown

section Deliver

variable {contents shown : List UInt8} {report : String → List UInt8}

theorem run_deliver_some_eq_ok_iff {path : String} :
    (deliver (some path) contents report shown).run.run before = (.ok printed, after) ↔
      before.write path contents = .ok after ∧ printed = report path := by
  rw [deliver, Outcome.run_bind_eq_ok_iff]
  constructor
  · rintro ⟨_, middle, hstore, hreturn⟩
    obtain ⟨rfl, rfl⟩ := Outcome.run_pure_eq_ok_iff.1 hreturn
    exact ⟨FileAccess.run_store_eq_ok_iff.1 (run_onFiles_eq_ok_iff.1 hstore), rfl⟩
  · rintro ⟨hwrite, rfl⟩
    exact ⟨(), after, run_onFiles_eq_ok_iff.2 (FileAccess.run_store_eq_ok_iff.2 hwrite),
      Outcome.run_pure_eq_ok_iff.2 ⟨rfl, rfl⟩⟩

theorem run_deliver_none_eq_ok_iff :
    (deliver none contents report shown).run.run before = (.ok printed, after) ↔
      printed = shown ∧ after = before :=
  Outcome.run_pure_eq_ok_iff

end Deliver

/-! ## Sealing -/

/-- What is sealed is what a file holds, or nothing but the key. -/
inductive PayloadOf (options : Encrypt) (store : FileStore) : Payload → Prop where
  | data {path : String} {bytes : List UInt8} (hinput : options.input = some path)
      (hread : store.read path = .ok bytes) : PayloadOf options store (.data bytes)
  | keyOnly (hinput : options.input = none) : PayloadOf options store .keyOnly

variable {options : Encrypt} {infos : List ServerInfo} {random : RandomSource}

namespace PayloadOf

variable {store : FileStore} {payload : Payload}

/-- The contents of the input file are sealed. -/
theorem read_eq_contents (h : PayloadOf options store payload) {path : String}
    (hpath : options.input = some path) (key : Key) :
    store.read path = .ok (payload.contents key) := by
  cases h with
  | data hinput hread =>
      obtain rfl := Option.some.inj (hinput.symm.trans hpath)
      exact hread
  | keyOnly hinput => exact absurd (hinput.symm.trans hpath) (by simp)

/-- Without an input file, the key is what is opened in the end. -/
theorem contents_eq_key (h : PayloadOf options store payload) (hnone : options.input = none)
    (key : Key) : payload.contents key = key.toList := by
  cases h with
  | data hinput hread => exact absurd (hinput.symm.trans hnone) (by simp)
  | keyOnly hinput => rfl

theorem length_le (h : PayloadOf options store payload) {limit : Nat}
    (hlimit : ∀ path bytes, options.input = some path → store.read path = .ok bytes →
      bytes.length ≤ limit) (bytes : List UInt8) (hbytes : payload = .data bytes) :
    bytes.length ≤ limit := by
  cases h with
  | data hinput hread =>
      obtain rfl := Payload.data.inj hbytes
      exact hlimit _ _ hinput hread
  | keyOnly hinput => cases hbytes

end PayloadOf

theorem payloadOf_of_run {payload : Payload}
    (h : (options.payload (m := StateM FileStore)).run.run before = (.ok payload, after)) :
    PayloadOf options before payload ∧ after = before := by
  unfold Encrypt.payload at h
  split at h
  · rename_i path hinput
    obtain ⟨bytes, middle, hload, hreturn⟩ := Outcome.run_bind_eq_ok_iff.1 h
    obtain ⟨rfl, rfl⟩ := Outcome.run_pure_eq_ok_iff.1 hreturn
    rw [run_onFiles_eq_ok_iff, FileAccess.run_load, Prod.mk.injEq] at hload
    obtain ⟨hread, rfl⟩ := hload
    split at hread
    · rename_i contents hcontents
      cases hread
      exact ⟨.data hinput hcontents, rfl⟩
    · cases hread
  · rename_i hinput
    obtain ⟨rfl, rfl⟩ := Outcome.run_pure_eq_ok_iff.1 h
    exact ⟨.keyOnly hinput, rfl⟩

/-- An object is sealed for the set that the list describes. -/
theorem exists_encrypt_of_run_sealed {done : Sealing.Sealed}
    (h : (options.sealed (m := StateM FileStore) suite infos random).run.run before =
      (.ok done, after)) :
    after = before ∧ ∃ servers payload innerId, ServerSet.ofInfos suite infos = .ok servers ∧
      PayloadOf options before payload ∧ parseInnerId options.innerId = .ok innerId ∧
        Sealing.encrypt options.packageId innerId servers options.threshold payload random =
          .ok done := by
  rw [Encrypt.sealed, Outcome.run_check_eq_ok_iff, Outcome.run_bind_eq_ok_iff] at h
  obtain ⟨-, servers, _, hset, hsealed⟩ := h
  obtain ⟨hservers, rfl⟩ := run_known_eq_ok_iff.1 hset
  obtain ⟨payload, _, hinput, hrest⟩ := Outcome.run_bind_eq_ok_iff.1 hsealed
  obtain ⟨hpayload, rfl⟩ := payloadOf_of_run hinput
  obtain ⟨innerId, _, hdigits, hlast⟩ := Outcome.run_bind_eq_ok_iff.1 hrest
  obtain ⟨hinnerId, rfl⟩ := run_known_eq_ok_iff.1 hdigits
  obtain ⟨hencrypt, rfl⟩ := run_known_eq_ok_iff.1 hlast
  exact ⟨rfl, servers, payload, innerId, Outcome.mapError_eq_ok_iff.1 hservers, hpayload,
    hinnerId, Outcome.mapError_eq_ok_iff.1 hencrypt⟩

theorem run_payload_of_read {path : String} {bytes : List UInt8}
    (hinput : options.input = some path) (hread : before.read path = .ok bytes) :
    (options.payload (m := StateM FileStore)).run.run before = (.ok (.data bytes), before) := by
  unfold Encrypt.payload
  rw [hinput]
  have hload := FileAccess.run_load_of_read hread .input
  exact Outcome.run_bind_eq_ok_iff.2
    ⟨bytes, before, run_onFiles_eq_ok_iff.2 hload, Outcome.run_pure_eq_ok_iff.2 ⟨rfl, rfl⟩⟩

theorem run_sealed_of_encrypt {servers : ServerSet suite} {payload : Payload}
    {innerId : List UInt8} {done : Sealing.Sealed} (hne : infos ≠ [])
    (hservers : ServerSet.ofInfos suite infos = .ok servers)
    (hpayload : (options.payload (m := StateM FileStore)).run.run before = (.ok payload, before))
    (hinnerId : parseInnerId options.innerId = .ok innerId)
    (hencrypt : Sealing.encrypt options.packageId innerId servers options.threshold payload random =
      .ok done) :
    (options.sealed (m := StateM FileStore) suite infos random).run.run before =
      (.ok done, before) := by
  rw [Encrypt.sealed, Outcome.run_check_eq_ok_iff]
  refine ⟨hne, ?_⟩
  refine Outcome.run_bind_eq_ok_iff.2 ⟨servers, before, run_known_eq_ok_iff.2 ⟨?_, rfl⟩, ?_⟩
  · exact Outcome.mapError_eq_ok_iff.2 hservers
  refine Outcome.run_bind_eq_ok_iff.2 ⟨payload, before, hpayload, ?_⟩
  refine Outcome.run_bind_eq_ok_iff.2 ⟨innerId, before, run_known_eq_ok_iff.2 ⟨hinnerId, rfl⟩, ?_⟩
  exact run_known_eq_ok_iff.2 ⟨Outcome.mapError_eq_ok_iff.2 hencrypt, rfl⟩

/-- Writes the key of an object to a file, if there is to be one. -/
def keepKey (keyOut : Option String) (key : Key) : ExceptT CommandError (StateM FileStore) Unit :=
  match keyOut with
  | some path => onFiles (FileAccess.store path (utf8 (Hex.encode key.toList)))
  | none => pure ()

theorem encrypt_run_eq : options.run suite random = (do
    let infos ← onFiles (ServerList.load options.servers)
    let done ← options.sealed suite infos random
    keepKey options.keyOut done.key
    let text := Base64.encode done.object.encode
    deliver options.out (utf8 text)
      (fun path => utf8 (Encrypt.report path infos.length options.threshold.toNat
        done.object.encode.length))
      (utf8 (text ++ "\n"))) := by
  rw [Encrypt.run]
  congr
  funext infos
  congr
  funext done
  cases options.keyOut with
  | none => rfl
  | some path => rfl

/-- The key is in its file, if there is to be one, before the text of the object is written to
its file or printed. -/
def Leaves (options : Encrypt) (key : Key) (text : String) (printed : List UInt8)
    (after : FileStore) : Prop :=
  -- The object may be written over the key, so it is asked what the file held before.
  ∃ middle : FileStore,
    (∀ path, options.keyOut = some path →
      middle.read path = .ok (utf8 (Hex.encode key.toList))) ∧
    (∀ path, options.out = some path →
      middle.write path (utf8 text) = .ok after ∧ after.read path = .ok (utf8 text)) ∧
    (options.out = none → after = middle ∧ printed = utf8 (text ++ "\n"))

/-- Without files to write to, the text of the object is printed. -/
theorem run_encrypt_of_sealed {done : Sealing.Sealed}
    (hload : (ServerList.load (m := StateM FileStore) options.servers).run.run before =
      (.ok infos, before))
    (hsealed : (options.sealed (m := StateM FileStore) suite infos random).run.run before =
      (.ok done, before))
    (hkeyOut : options.keyOut = none) (hout : options.out = none) :
    (options.run (m := StateM FileStore) suite random).run.run before =
      (.ok (utf8 (Base64.encode done.object.encode ++ "\n")), before) := by
  rw [encrypt_run_eq, Outcome.run_bind_of_ok (run_onFiles_eq_ok_iff.2 hload),
    Outcome.run_bind_of_ok hsealed, hkeyOut, hout]
  rfl

theorem read_of_run_keepKey {keyOut : Option String} {key : Key} {u : Unit}
    (h : (keepKey keyOut key).run.run before = (.ok u, after)) {path : String}
    (hkeyOut : keyOut = some path) : after.read path = .ok (utf8 (Hex.encode key.toList)) := by
  subst hkeyOut
  rw [keepKey, run_onFiles_eq_ok_iff, FileAccess.run_store_eq_ok_iff] at h
  exact FileStore.read_write h

/-- A command that seals for the servers of a list leaves the object and its key. -/
theorem exists_leaves_of_run
    (hload : (ServerList.load (m := StateM FileStore) options.servers).run.run before =
      (.ok infos, before))
    (h : (options.run (m := StateM FileStore) suite random).run.run before =
      (.ok printed, after)) :
    ∃ servers payload innerId done, ServerSet.ofInfos suite infos = .ok servers ∧
      PayloadOf options before payload ∧ parseInnerId options.innerId = .ok innerId ∧
        Sealing.encrypt options.packageId innerId servers options.threshold payload random =
          .ok done ∧
        Leaves options done.key (Base64.encode done.object.encode) printed after := by
  rw [encrypt_run_eq, Outcome.run_bind_of_ok (run_onFiles_eq_ok_iff.2 hload),
    Outcome.run_bind_eq_ok_iff] at h
  obtain ⟨done, _, hsealed, hwrite⟩ := h
  obtain ⟨rfl, servers, payload, innerId, hservers, hpayload, hinnerId, hencrypt⟩ :=
    exists_encrypt_of_run_sealed hsealed
  obtain ⟨_, middle, hkey, hobject⟩ := Outcome.run_bind_eq_ok_iff.1 hwrite
  refine ⟨servers, payload, innerId, done, hservers, hpayload, hinnerId, hencrypt,
    middle, fun path hpath => read_of_run_keepKey hkey hpath, fun path hout => ?_, fun hout => ?_⟩
  · rw [hout, run_deliver_some_eq_ok_iff] at hobject
    exact ⟨hobject.1, FileStore.read_write hobject.1⟩
  · rw [hout, run_deliver_none_eq_ok_iff] at hobject
    exact ⟨hobject.2, hobject.1⟩

/-! ## Reading and opening objects -/

variable {object : SealedObject}

/-- A text with white space around it. -/
def Surrounded (text whole : String) : Prop :=
  ∃ front back : List Char, (∀ c ∈ front, isBlank c = true) ∧ (∀ c ∈ back, isBlank c = true) ∧
    whole = String.ofList (front ++ (text.toList ++ back))

theorem surrounded_self (text : String) : Surrounded text text :=
  ⟨[], [], by simp, by simp, by simp⟩

theorem surrounded_newline (text : String) : Surrounded text (text ++ "\n") := by
  refine ⟨[], ['\n'], by simp, List.forall_mem_singleton.2 rfl, ?_⟩
  apply String.toList_inj.1
  simp

/-- A valid object that can be encoded is read from its text, whatever white space surrounds
it. -/
theorem parseObject_of_surrounded (hvalid : object.Valid) (hfits : object.Fits) {whole : String}
    (h : Surrounded (Base64.encode object.encode) whole) : parseObject whole = .ok object := by
  obtain ⟨front, back, hfront, hback, rfl⟩ := h
  have htext : ∀ c ∈ (Base64.encode object.encode).toList, isBlank c = false :=
    fun _ => Base64.isBlank_of_mem_encode
  rw [parseObject, trim_surrounded hfront htext hback, String.ofList_toList, Base64.decode_encode]
  exact Outcome.mapError_eq_ok_iff.2 (SealedObject.decode_encode hvalid hfits)

theorem run_readObject_of_read {path text : String} (hread : before.read path = .ok (utf8 text))
    (hparse : parseObject text = .ok object) :
    (readObject (m := StateM FileStore) path).run.run before = (.ok object, before) := by
  have hload := FileAccess.run_loadText_of_read hread .object
  rw [readObject, Outcome.run_bind_of_ok (run_onFiles_eq_ok_iff.2 hload)]
  exact run_known_eq_ok_iff.2 ⟨hparse, rfl⟩

theorem decrypt_run_eq (opening : Decrypt) : opening.run (m := StateM FileStore) suite = (do
    let object ← readObject opening.object
    let bytes ← opening.opened suite object
    deliver opening.out bytes
      (fun path => utf8 ("Decrypted " ++ toString bytes.length ++ " bytes to " ++ path ++ "\n"))
      bytes) := rfl

theorem run_opened_of_keyFiles_nil {opening : Decrypt} (hkeyFiles : opening.keyFiles = []) :
    (opening.opened (m := StateM FileStore) suite object).run.run before =
      (openWithArguments suite object opening.keys opening.strict, before) := by
  rw [Decrypt.opened, if_pos hkeyFiles]
  rfl

/-- A command that opens an object outputs bytes: it prints them, or writes them to its file,
if that can be written. -/
def Outputs (suite : PairingSuite) (opening : Decrypt) (store : FileStore)
    (bytes : List UInt8) : Prop :=
  (opening.out = none →
    (opening.run (m := StateM FileStore) suite).run.run store = (.ok bytes, store)) ∧
  ∀ path later, opening.out = some path → store.write path bytes = .ok later →
    (∃ report, (opening.run (m := StateM FileStore) suite).run.run store = (.ok report, later)) ∧
      later.read path = .ok bytes

theorem outputs_of_opened {opening : Decrypt} {text : String} {bytes : List UInt8}
    (hread : before.read opening.object = .ok (utf8 text)) (hparse : parseObject text = .ok object)
    (hopened : (opening.opened (m := StateM FileStore) suite object).run.run before =
      (.ok bytes, before)) : Outputs suite opening before bytes := by
  rw [Outputs, decrypt_run_eq, Outcome.run_bind_of_ok (run_readObject_of_read hread hparse),
    Outcome.run_bind_of_ok hopened]
  refine ⟨fun hout => ?_, fun path later hout hwrite => ?_⟩
  · rw [hout]
    exact run_deliver_none_eq_ok_iff.2 ⟨rfl, rfl⟩
  · rw [hout]
    exact ⟨⟨_, run_deliver_some_eq_ok_iff.2 ⟨hwrite, rfl⟩⟩, FileStore.read_write hwrite⟩

end CommandLine
end Quorum
