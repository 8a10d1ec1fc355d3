import Quorum.KeyFile
import Quorum.Proofs.DiscreteLog
import Quorum.Proofs.Document
import Quorum.Proofs.Json.Fields

/-!
# Key files that were saved are loaded

A master key is written as 32 bytes in hexadecimal digits.  All scalars fit, so each is read
back, and with it the check of the public key is passed.
-/

namespace Quorum

variable (suite : PairingSuite)

theorem Ibe.decodeMasterKey_encodeMasterKey (masterKey : suite.Scalar) :
    decodeMasterKey suite (encodeMasterKey suite masterKey) = .ok masterKey := by
  have hfits : Nat.pow 2 255 ≤ Nat.pow 256 32 := by decide
  have htoNat : (encodeMasterKey suite masterKey).toNat = masterKey.val := by
    refine Bytes.toNat_ofNat ?_
    calc
      masterKey.val
      _ < suite.order := masterKey.isLt
      _ ≤ Nat.pow 2 255 := suite.order_le
      _ ≤ Nat.pow 256 32 := hfits
  simp [decodeMasterKey, htoNat]

namespace KeyFile

variable (id : ObjectId) (name url : String) (key : suite.Scalar)

theorem masterKey_ofMasterKey : (ofMasterKey suite id name url key).masterKey suite = .ok key := by
  simp [masterKey, ofMasterKey, Hex.decode_encode, Ibe.decodeMasterKey_encodeMasterKey,
    Except.mapError]

theorem checked_ofMasterKey (path : String) :
    (ofMasterKey suite id name url key).checked suite path = .ok key := by
  rw [checked, masterKey_ofMasterKey, Outcome.ok_bind, if_pos (by rfl)]
  rfl

/-- The file at a path holds what was written when a key file was saved there. -/
def Saved (file : KeyFile) (path : String) (store : FileStore) : Prop :=
  ∃ before after, (file.save (m := StateM FileStore) path).run.run before = (.ok (), after) ∧
    store.read path = after.read path

variable {suite id name url key}

/-- The result of loading a file that holds a key file. -/
theorem run_load_of_holds {file : KeyFile} {path : String} {store : FileStore}
    (h : FileAccess.Holds ofJson? path file store) :
    (load (m := StateM FileStore) suite path).run.run store =
      ((file.checked suite path).map fun masterKey => (file, masterKey), store) := by
  rw [load, Outcome.run_bind_of_ok (FileAccess.run_loadJson_eq_ok_iff.2 ⟨h, rfl⟩)]
  cases file.checked suite path with
  | error error => rfl
  | ok masterKey => rfl

/-- A key file that was made for a master key is loaded with that master key. -/
theorem run_load_of_saved {path : String} {store : FileStore}
    (h : Saved (ofMasterKey suite id name url key) path store) :
    (load (m := StateM FileStore) suite path).run.run store =
      (.ok (ofMasterKey suite id name url key, key), store) := by
  obtain ⟨before, after, hsave, hkept⟩ := h
  have hread := hkept.trans (FileAccess.read_of_run_storeJson hsave)
  rw [run_load_of_holds (FileAccess.holds_of_read hread (parse?_pretty_toJson _)),
    checked_ofMasterKey]
  rfl

/-- A file under a plain name that holds the text of a key file. -/
theorem saved_flat (file : KeyFile) {path : String} (h : FileStore.Plain path)
    {files : Table (List String) (List UInt8)}
    (hget : files.get? [path] = some (utf8 file.toJson.pretty)) :
    Saved file path (.flat files) := by
  refine ⟨.flat files, _,
    FileAccess.run_storeJson_of_write h.folder_eq (FileStore.write_flat h _), ?_⟩
  rw [FileStore.read_flat h hget, FileStore.read_flat h]
  rw [Table.get?_insert, if_pos rfl]

/-- A key file can be saved under any plain name. -/
theorem exists_saved (file : KeyFile) {path : String} (h : FileStore.Plain path) :
    ∃ store, Saved file path store := by
  refine ⟨.flat (Table.empty.insert [path] (utf8 file.toJson.pretty)), saved_flat file h ?_⟩
  rw [Table.get?_insert, if_pos rfl]

end KeyFile
end Quorum
