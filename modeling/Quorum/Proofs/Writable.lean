import Quorum.Proofs.Document
import Quorum.Proofs.Path

/-!
# Where files can be written

A JSON value is written in two steps: the folder of the file is created if it is missing, and
then the file is written.  Where both can be done, they can be done whatever is to be written.
That is so at every path from which something can be read: its folder is there, so creating it
changes nothing.
-/

namespace Quorum

namespace FileStore

variable {store : FileStore} {path : String} {contents : List UInt8} {spot : Spot}
  {place : List String}

/-! ## The folder of a path that can be followed -/

/-- The folders that a path passes are all there, so none is created. -/
theorem create_of_follow {folder outer inner : List String}
    (h : store.follow folder (outer ++ inner) = .ok spot)
    (hname : ∃ name ∈ inner, Path.isHere name = false) (created : Bool) :
    store.create created folder outer = (.ok (), store) := by
  induction outer generalizing folder with
  | nil => rfl
  | cons name outer ih =>
      rw [List.cons_append, follow] at h
      rw [create]
      by_cases hhere : Path.isHere name = true
      · rw [if_pos hhere] at h ⊢
        exact ih h
      rw [if_neg hhere] at h ⊢
      by_cases hup : name = ".."
      · rw [if_pos hup] at h ⊢
        exact ih h
      rw [if_neg hup] at h ⊢
      -- The path does not end here, because something is named further on.
      have hlast : ¬ (outer ++ inner).all (· = "") = true := by
        obtain ⟨last, hmem, hlast⟩ := hname
        intro hall
        have hempty : last = "" :=
          of_decide_eq_true (List.all_eq_true.1 hall last (List.mem_append_right _ hmem))
        rw [hempty] at hlast
        cases hlast
      rw [if_neg hlast] at h
      by_cases hlong : Path.isTooLong name = true
      · rw [if_pos hlong] at h
        cases h
      rw [if_neg hlong] at h ⊢
      by_cases hfolder : folder ++ [name] ∈ store.folders
      · rw [if_pos hfolder] at h
        dsimp only
        rw [if_pos hfolder]
        exact ih h
      · rw [if_neg hfolder] at h
        split at h <;> cases h

theorem checkPath_of_isPrefix {folder : String} (h : checkPath path = .ok ()) (hne : folder ≠ "")
    (hstart : folder.toList <+: path.toList) : checkPath folder = .ok () := by
  unfold checkPath at h ⊢
  split at h
  · cases h
  rename_i hzero
  split at h
  · cases h
  split at h
  · cases h
  rename_i hlength
  have hsize : (utf8 folder).length ≤ (utf8 path).length := by
    obtain ⟨rest, hrest⟩ := hstart
    rw [utf8, utf8, ← hrest, List.flatMap_append, List.length_append]
    exact Nat.le_add_right _ _
  rw [if_neg, if_neg hne, if_neg (by omega)]
  rw [List.contains_iff_mem] at hzero ⊢
  exact fun hmem => hzero (hstart.subset hmem)

/-- The folder of a path that can be followed is there. -/
theorem createFolders_folder (h : store.spot path = .ok spot) (hne : Path.folder path ≠ "") :
    store.createFolders (Path.folder path) = (.ok (), store) := by
  obtain ⟨⟨⟩, hcheck, hfollow⟩ := Outcome.bind_eq_ok_iff.1 h
  obtain ⟨outer, inner, hparts, houter, hname, hfolder⟩ :=
    (Path.folder_cases path).resolve_left hne
  rw [createFolders, checkPath_of_isPrefix hcheck hne (Path.folder_isPrefix path)]
  by_cases hroot : outer = [""]
  · rw [hfolder, if_pos hroot]
    rfl
  · have hstart : store.start (Path.folder path) = store.start path := by
      rw [start, start, Path.isAbsolute_of_isPrefix hne (Path.folder_isPrefix path)]
    have houterParts : Path.parts (Path.folder path) = outer := by
      rw [hfolder, if_neg hroot]
      exact Path.parts_intercalate houter fun name hmem =>
        Path.slash_not_mem_of_mem_parts (hparts ▸ List.mem_append_left inner hmem)
    rw [hparts] at hfollow
    dsimp only
    rw [hstart, houterParts]
    exact create_of_follow hfollow hname false

/-! ## Where files can be written -/

/-- The store in which the folder of a path has been created. -/
def prepare (store : FileStore) (path : String) : Except FileFault Unit × FileStore :=
  if Path.folder path = "" then (.ok (), store) else store.createFolders (Path.folder path)

/-- A file can be written at a path, whatever it is to hold, once its folder has been created. -/
def Writable (store : FileStore) (path : String) : Prop :=
  ∃ prepared, store.prepare path = (.ok (), prepared) ∧
    ∀ contents, ∃ later, prepared.write path contents = .ok later

theorem prepare_of_spot (h : store.spot path = .ok spot) :
    store.prepare path = (.ok (), store) := by
  unfold prepare
  split
  · rfl
  · rename_i hne
    exact createFolders_folder h hne

/-- What can be read is a file that no slash follows. -/
theorem exists_place_of_read (h : store.read path = .ok contents) :
    ∃ place, store.spot path = .ok (.name place false) ∧
      store.look place = .ok (.file contents) := by
  obtain ⟨found, hlocate, h⟩ := Outcome.bind_eq_ok_iff.1 h
  obtain ⟨spot, hspot, hfound⟩ := Outcome.bind_eq_ok_iff.1 hlocate
  cases spot with
  | folder =>
      cases hfound
      cases h
  | name place slash =>
      obtain ⟨seen, hlook, hfound⟩ := Outcome.bind_eq_ok_iff.1 hfound
      cases seen with
      | folder =>
          cases hfound
          cases h
      | nothing =>
          cases hfound
          cases h
      | file seen =>
          cases slash with
          | true => cases hfound
          | false =>
              cases hfound
              cases h
              exact ⟨place, hspot, hlook⟩

/-- What is written replaces a file or comes where nothing is. -/
theorem exists_found_of_write {later : FileStore} (h : store.write path contents = .ok later) :
    ∃ place found, store.spot path = .ok (.name place false) ∧ store.look place = .ok found ∧
      found ≠ .folder := by
  obtain ⟨spot, hspot, h⟩ := Outcome.bind_eq_ok_iff.1 h
  cases spot with
  | folder => cases h
  | name place slash =>
      cases slash with
      | true => cases h
      | false =>
          obtain ⟨found, hlook, h⟩ := Outcome.bind_eq_ok_iff.1 h
          refine ⟨place, found, hspot, hlook, ?_⟩
          rintro rfl
          cases h

theorem exists_write_of_found {found : Found} (hspot : store.spot path = .ok (.name place false))
    (hlook : store.look place = .ok found) (hfound : found ≠ .folder) (contents : List UInt8) :
    ∃ later, store.write path contents = .ok later := by
  refine ⟨{ store with files := store.files.insert place contents }, ?_⟩
  rw [write, hspot, Outcome.ok_bind]
  dsimp only
  rw [hlook]
  cases found with
  | folder => exact absurd rfl hfound
  | file held => rfl
  | nothing => rfl

/-- Where something can be read, anything can be written. -/
theorem writable_of_read (h : store.read path = .ok contents) : store.Writable path := by
  obtain ⟨place, hspot, hlook⟩ := exists_place_of_read h
  exact ⟨store, prepare_of_spot hspot, exists_write_of_found hspot hlook (by simp)⟩

theorem Plain.writable (h : Plain path) (files : Table (List String) (List UInt8)) :
    (flat files).Writable path :=
  ⟨flat files, if_pos h.folder_eq, fun contents => ⟨_, write_flat h contents⟩⟩

end FileStore

/-! ## JSON values in files -/

namespace FileAccess

variable {α : Type} {before after : FileStore} {path : String} {json : Json} {value : α}
  {ofJson? : Json → Option α}

theorem run_createFolders {later : FileStore} {result : Except FileFault Unit}
    (h : before.createFolders path = (result, later)) :
    (createFolders (m := ExceptT DocumentError (StateM FileStore)) path).run.run before =
      (.ok result, later) := by
  change (fun created : Except FileFault Unit × FileStore => (Except.ok created.1, created.2))
    (before.createFolders path) = _
  rw [h]

/-- Writing a JSON value succeeds exactly where a file can be written. -/
theorem exists_run_storeJson_iff :
    (∃ after, (storeJson (m := StateM FileStore) path json).run.run before = (.ok (), after)) ↔
      before.Writable path := by
  -- Both are about the same two steps, of which the first one may have nothing to do.
  have hsteps : (∃ after, (storeJson (m := StateM FileStore) path json).run.run before =
      (.ok (), after)) ↔ ∃ prepared, before.prepare path = (.ok (), prepared) ∧
        ∃ after, prepared.write path (utf8 json.pretty) = .ok after := by
    unfold storeJson FileStore.prepare
    dsimp only
    by_cases hfolder : Path.folder path = ""
    · rw [if_neg (not_not.2 hfolder), if_pos hfolder]
      simp [run_store_eq_ok_iff]
    · rw [if_pos hfolder, if_neg hfolder]
      rcases hcreated : before.createFolders (Path.folder path) with ⟨fault | ⟨⟨⟩⟩, prepared⟩
      · rw [Outcome.run_bind_of_ok (run_createFolders hcreated)]
        refine iff_of_false ?_ (by simp)
        rintro ⟨after, hthrow⟩
        obtain ⟨_, _, hthrow, -⟩ := Outcome.run_bind_eq_ok_iff.1 hthrow
        exact Outcome.run_throw_ne_ok hthrow
      · rw [Outcome.run_bind_of_ok (run_createFolders hcreated)]
        simp [run_store_eq_ok_iff]
  rw [hsteps]
  refine exists_congr fun prepared => and_congr_right fun _ => ⟨?_, fun hwrite => hwrite _⟩
  rintro ⟨after, hwrite⟩
  obtain ⟨place, found, hspot, hlook, hfound⟩ := FileStore.exists_found_of_write hwrite
  exact FileStore.exists_write_of_found hspot hlook hfound

theorem holds_of_run_storeJson
    (h : (storeJson (m := StateM FileStore) path json).run.run before = (.ok (), after))
    (hvalue : (Json.parse? json.pretty).bind ofJson? = some value) :
    Holds ofJson? path value after :=
  holds_of_read (read_of_run_storeJson h) hvalue

theorem Holds.writable {store : FileStore} (h : Holds ofJson? path value store) :
    store.Writable path := by
  obtain ⟨contents, _, hread, -⟩ := h
  exact FileStore.writable_of_read hread

end FileAccess
end Quorum
