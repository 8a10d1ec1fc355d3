import Quorum.Proofs.Document
import Quorum.Proofs.Json.Fields
import Quorum.ServerList

/-!
# Lists of registered servers

Registrations are made one after the other in a file that is absent at first.  After each of
them, the file holds the list that the entries make when they are registered in their order;
entries of different servers are simply listed.
-/

namespace Quorum
namespace ServerList

/-- The list that a sequence of registrations makes. -/
def ofEntries (entries : List ServerInfo) : List ServerInfo :=
  entries.foldl (fun infos info => register info infos) []

theorem ofEntries_concat (entries : List ServerInfo) (info : ServerInfo) :
    ofEntries (entries ++ [info]) = register info (ofEntries entries) := by
  simp [ofEntries]

theorem register_of_not_mem {info : ServerInfo} {infos : List ServerInfo}
    (h : info.id ∉ infos.map ServerInfo.id) : register info infos = infos ++ [info] := by
  induction infos with
  | nil => rfl
  | cons first rest ih =>
      rw [List.map_cons, List.mem_cons, not_or] at h
      rw [register, if_neg (Ne.symm h.1), ih h.2, List.cons_append]

/-- Entries of different servers are listed as they come. -/
theorem ofEntries_of_nodup {entries : List ServerInfo}
    (h : (entries.map ServerInfo.id).Nodup) : ofEntries entries = entries := by
  induction entries using List.reverseRecOn with
  | nil => rfl
  | append_singleton entries info ih =>
      rw [List.map_append, List.nodup_append] at h
      obtain ⟨hentries, -, hdisjoint⟩ := h
      rw [ofEntries_concat, ih hentries, register_of_not_mem]
      intro hmem
      exact hdisjoint _ hmem _ (by simp) rfl

variable {path : String} {infos : List ServerInfo} {store : FileStore}

theorem run_isPresent (path : String) (store : FileStore) :
    (FileAccess.isPresent (m := ExceptT DocumentError (StateM FileStore)) path).run.run store =
      (.ok (store.contains path), store) := rfl

theorem run_load_of_absent (h : store.contains path = false) :
    (load (m := StateM FileStore) path).run.run store = (.ok [], store) := by
  rw [load, Outcome.run_bind_of_ok (run_isPresent path store), h]
  rfl

theorem run_load_of_holds (h : FileAccess.Holds ServerInfo.listOfJson? path infos store) :
    (load (m := StateM FileStore) path).run.run store = (.ok infos, store) := by
  obtain ⟨contents, text, hread, -⟩ := id h
  rw [load, Outcome.run_bind_of_ok (run_isPresent path store), FileStore.contains_of_read hread]
  exact FileAccess.run_loadJson_eq_ok_iff.2 ⟨h, rfl⟩

/-- A registration gives and writes the list that was loaded, with the entry in it. -/
theorem of_run_update {info : ServerInfo} {list : List ServerInfo} {before after : FileStore}
    (hload : (load (m := StateM FileStore) path).run.run before = (.ok infos, before))
    (h : (update (m := StateM FileStore) path info).run.run before = (.ok list, after)) :
    list = register info infos ∧
      after.read path = .ok (utf8 (ServerInfo.listToJson list).pretty) := by
  rw [update, Outcome.run_bind_of_ok hload] at h
  obtain ⟨_, middle, hstore, hreturn⟩ := Outcome.run_bind_eq_ok_iff.1 h
  obtain ⟨rfl, rfl⟩ := Outcome.run_pure_eq_ok_iff.1 hreturn
  exact ⟨rfl, FileAccess.read_of_run_storeJson hstore⟩

theorem run_update_of_write {info : ServerInfo} {before after : FileStore}
    (hload : (load (m := StateM FileStore) path).run.run before = (.ok infos, before))
    (hfolder : Path.folder path = "")
    (hwrite : before.write path (utf8 (ServerInfo.listToJson (register info infos)).pretty) =
      .ok after) :
    (update (m := StateM FileStore) path info).run.run before =
      (.ok (register info infos), after) := by
  rw [update, Outcome.run_bind_of_ok hload,
    Outcome.run_bind_of_ok (FileAccess.run_storeJson_of_write hfolder hwrite)]
  rfl

/-- The file at a path holds what a sequence of registrations has left there; other files may
change between them. -/
inductive Registered (path : String) : List ServerInfo → FileStore → Prop where
  | absent {store : FileStore} (h : store.contains path = false) : Registered path [] store
  | update {entries : List ServerInfo} {info : ServerInfo} {list : List ServerInfo}
      {before after store : FileStore} (hbefore : Registered path entries before)
      (hrun : (ServerList.update (m := StateM FileStore) path info).run.run before =
        (.ok list, after))
      (hkept : store.read path = after.read path) : Registered path (entries ++ [info]) store

/-- After registrations, the list is loaded that they make. -/
theorem Registered.run_load {entries : List ServerInfo} (h : Registered path entries store) :
    (load (m := StateM FileStore) path).run.run store = (.ok (ofEntries entries), store) := by
  induction h with
  | absent h => exact run_load_of_absent h
  | update hbefore hrun hkept ih =>
      obtain ⟨rfl, hread⟩ := of_run_update ih hrun
      rw [run_load_of_holds (FileAccess.holds_of_read (hkept.trans hread)
        (ServerInfo.parse?_pretty_listToJson _)), ofEntries_concat]

/-- Entries can be registered under any plain name that is free; other files stay as they
are. -/
theorem exists_registered (h : FileStore.Plain path)
    (files : Table (List String) (List UInt8)) (hfree : files.get? [path] = none)
    (entries : List ServerInfo) : ∃ after : Table (List String) (List UInt8),
      Registered path entries (.flat after) ∧
        ∀ place, [path] ≠ place → after.get? place = files.get? place := by
  induction entries using List.reverseRecOn with
  | nil => exact ⟨files, .absent (FileStore.contains_flat_of_none h hfree), fun _ _ => rfl⟩
  | append_singleton entries info ih =>
      obtain ⟨middle, hregistered, hkept⟩ := ih
      obtain ⟨after, hwrite⟩ : ∃ after, after = middle.insert [path] (utf8 (ServerInfo.listToJson
          (register info (ofEntries entries))).pretty) := ⟨_, rfl⟩
      have hrun := run_update_of_write hregistered.run_load h.folder_eq
        (hwrite ▸ FileStore.write_flat h _)
      refine ⟨after, .update hregistered hrun rfl, fun place hne => ?_⟩
      subst hwrite
      rw [Table.get?_insert, if_neg hne, hkept place hne]

end ServerList
end Quorum
