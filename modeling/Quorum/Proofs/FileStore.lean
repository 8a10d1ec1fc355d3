import Quorum.FileStore
import Quorum.Proofs.Outcome

/-!
# Files hold what was written

Writing changes no folder, so a path that could be followed before leads to the same place
afterwards, and there it finds the new contents.
-/

namespace Quorum
namespace FileStore

variable {store later : FileStore} {path : String} {contents : List UInt8}

/-- A path that can be followed leads to the same place wherever there are the same folders. -/
theorem follow_congr {folder names : List String} {spot : Spot}
    (h : store.follow folder names = .ok spot) (hfolders : later.folders = store.folders) :
    later.follow folder names = .ok spot := by
  -- Only folders are looked up on the way, except for a file that stands in it; then the path
  -- cannot be followed.
  induction folder, names using follow.induct store with
  | case1 folder => exact h
  | case2 folder name rest hhere ih =>
      rw [follow, if_pos hhere] at h ⊢
      exact ih h
  | case3 folder rest hhere ih =>
      rw [follow, if_neg hhere, if_pos rfl] at h ⊢
      exact ih h
  | case4 folder name rest hhere hup hlast =>
      rw [follow, if_neg hhere, if_neg hup, if_pos hlast] at h ⊢
      exact h
  | case5 folder name rest hhere hup hlast hlong => simp [follow, *] at h
  | case6 folder name rest hhere hup hlast hlong hfolder ih =>
      rw [follow, if_neg hhere, if_neg hup, if_neg hlast, if_neg hlong] at h ⊢
      rw [if_pos hfolder] at h
      rw [if_pos (hfolders ▸ hfolder)]
      exact ih h
  | case7 folder name rest hhere hup hlast hlong hfolder hfile => simp [follow, *] at h
  | case8 folder name rest hhere hup hlast hlong hfolder hfile => simp [follow, *] at h

theorem spot_congr {spot : Spot} (h : store.spot path = .ok spot)
    (hfolders : later.folders = store.folders) (hcurrent : later.current = store.current) :
    later.spot path = .ok spot := by
  obtain ⟨checked, hcheck, hfollow⟩ := Outcome.bind_eq_ok_iff.1 h
  have hstart : later.start path = store.start path := by rw [start, start, hcurrent]
  refine Outcome.bind_eq_ok_iff.2 ⟨checked, hcheck, ?_⟩
  rw [hstart]
  exact follow_congr hfollow hfolders

/-- A file is written at a place that is no folder. -/
theorem exists_place_of_write (h : store.write path contents = .ok later) :
    ∃ place, store.spot path = .ok (.name place false) ∧
      Path.isTooLong (place.getLast?.getD "") = false ∧ place ∉ store.folders ∧
      later = { store with files := store.files.insert place contents } := by
  obtain ⟨spot, hspot, h⟩ := Outcome.bind_eq_ok_iff.1 h
  cases spot with
  | folder => cases h
  | name place slash =>
      cases slash with
      | true => cases h
      | false =>
          obtain ⟨found, hlook, h⟩ := Outcome.bind_eq_ok_iff.1 h
          refine ⟨place, hspot, ?_⟩
          unfold look at hlook
          split at hlook
          · cases hlook
          · rename_i hlong
            split at hlook
            · cases hlook
              cases h
            · rename_i hfolder
              refine ⟨by simpa using hlong, hfolder, ?_⟩
              split at hlook <;> cases hlook <;> cases h <;> rfl

/-- What was written to a path is read from it. -/
theorem read_write (h : store.write path contents = .ok later) :
    later.read path = .ok contents := by
  obtain ⟨place, hspot, hlong, hfolder, rfl⟩ := exists_place_of_write h
  have hlater : ({ store with files := store.files.insert place contents }).spot path =
      .ok (.name place false) := spot_congr hspot rfl rfl
  have hlook : ({ store with files := store.files.insert place contents }).look place =
      .ok (.file contents) := by
    rw [look, hlong]
    simp [hfolder, Table.get?_insert]
  simp [read, locate, hlater, hlook]

/-- A path from which something is read leads somewhere. -/
theorem contains_of_read (h : store.read path = .ok contents) : store.contains path = true := by
  obtain ⟨found, hlocate, h⟩ := Outcome.bind_eq_ok_iff.1 h
  cases found with
  | folder => cases h
  | file contents => rw [contains, hlocate]
  | nothing => cases h

/-! ## Files without folders -/

/-- A path that is one name, and one that files can have. -/
structure Plain (path : String) : Prop where
  slash_not_mem : '/' ∉ path.toList
  check_eq : checkPath path = .ok ()
  isHere_eq : Path.isHere path = false
  ne_up : path ≠ ".."
  isTooLong_eq : Path.isTooLong path = false

instance (path : String) : Decidable (Plain path) :=
  decidable_of_iff
    ('/' ∉ path.toList ∧ checkPath path = .ok () ∧ Path.isHere path = false ∧ path ≠ ".." ∧
      Path.isTooLong path = false)
    ⟨fun ⟨hslash, hcheck, hhere, hup, hlong⟩ => ⟨hslash, hcheck, hhere, hup, hlong⟩,
      fun ⟨hslash, hcheck, hhere, hup, hlong⟩ => ⟨hslash, hcheck, hhere, hup, hlong⟩⟩

theorem Plain.parts_eq (h : Plain path) : Path.parts path = [path] := by
  have hname : path.toList.splitOn '/' = [path.toList] := by
    apply List.splitOnP_eq_singleton
    rintro c hc
    exact beq_false_of_ne (ne_of_mem_of_not_mem hc h.slash_not_mem)
  rw [Path.parts, hname, List.map_singleton, String.ofList_toList]

theorem Plain.folder_eq (h : Plain path) : Path.folder path = "" := by
  simp [Path.folder, h.parts_eq, Path.trimEnd]

/-- The store of files that are in no folder but the root. -/
def flat (files : Table (List String) (List UInt8)) : FileStore := { files }

variable {files : Table (List String) (List UInt8)}

theorem spot_flat (h : Plain path) : (flat files).spot path = .ok (.name [path] false) := by
  simp [spot, h.check_eq, start, flat, h.parts_eq, follow, h.isHere_eq, h.ne_up]

theorem look_flat (h : Plain path) : (flat files).look [path] =
    .ok (match files.get? [path] with
      | some contents => .file contents
      | none => .nothing) := by
  simp only [look, flat, List.getLast?_singleton, Option.getD_some, h.isTooLong_eq]
  cases files.get? [path] with
  | none => rfl
  | some contents => rfl

theorem write_flat (h : Plain path) (contents : List UInt8) :
    (flat files).write path contents = .ok (flat (files.insert [path] contents)) := by
  rw [write, spot_flat h, Outcome.ok_bind]
  simp only [look_flat h]
  cases files.get? [path] with
  | none => rfl
  | some contents => rfl

theorem read_flat (h : Plain path) (hget : files.get? [path] = some contents) :
    (flat files).read path = .ok contents := by
  simp [read, locate, spot_flat h, look_flat h, hget]

theorem contains_flat_of_none (h : Plain path) (hget : files.get? [path] = none) :
    (flat files).contains path = false := by
  simp [contains, locate, spot_flat h, look_flat h, hget]

end FileStore
end Quorum
