import Mathlib.Data.List.DropRight
import Quorum.Path

/-!
# The folder of a path

A path is its parts with slashes between them.  Its folder consists of some of the first parts,
and what it leaves out names something: the file.  So the text of the folder is the beginning of
the path, and it starts at the root if the path does.
-/

namespace Quorum
namespace Path

variable {path : String} {outer inner : List String}

theorem slash_not_mem_of_mem_parts {name : String} (h : name ∈ parts path) :
    '/' ∉ name.toList := by
  have hsplit (text : List Char) : ∀ part ∈ text.splitOn '/', '/' ∉ part := by
    induction text with
    | nil => simp
    | cons c text ih =>
        intro part hpart
        rw [List.splitOn_cons_eq_if_modifyHead] at hpart
        split at hpart
        · rcases List.mem_cons.1 hpart with rfl | hpart
          · exact List.not_mem_nil
          · exact ih part hpart
        · -- A character that is no slash stands in front of the first part.
          rename_i hc
          obtain ⟨first, others, htext⟩ := List.exists_cons_of_ne_nil (List.splitOn_ne_nil '/' text)
          rw [htext, List.modifyHead_cons] at hpart
          rw [htext] at ih
          rcases List.mem_cons.1 hpart with rfl | hpart
          · rw [List.mem_cons, not_or]
            exact ⟨fun heq => hc (beq_iff_eq.2 heq.symm), ih first List.mem_cons_self⟩
          · exact ih part (List.mem_cons_of_mem _ hpart)
  obtain ⟨part, hpart, rfl⟩ := List.mem_map.1 h
  rw [String.toList_ofList]
  exact hsplit _ part hpart

theorem intercalate_parts (path : String) : "/".intercalate (parts path) = path := by
  have hparts : (parts path).map String.toList = path.toList.splitOn '/' := by
    simp [parts, Function.comp_def]
  rw [← String.toList_inj, String.toList_intercalate, hparts]
  exact List.intercalate_splitOn '/'

theorem parts_intercalate (hne : outer ≠ []) (h : ∀ name ∈ outer, '/' ∉ name.toList) :
    parts ("/".intercalate outer) = outer := by
  have hsplit : ("/".intercalate outer).toList.splitOn '/' = outer.map String.toList := by
    rw [String.toList_intercalate]
    exact List.splitOn_intercalate '/' (List.forall_mem_map.2 h) (mt List.map_eq_nil_iff.1 hne)
  rw [parts, hsplit, List.map_map]
  simp [Function.comp_def]

/-- The first parts of a path and the others, with a slash between them. -/
theorem eq_append_of_parts (hparts : parts path = outer ++ inner) (houter : outer ≠ [])
    (hinner : inner ≠ []) : path = "/".intercalate outer ++ "/" ++ "/".intercalate inner := by
  rw [← String.intercalate_append_of_ne_nil houter hinner, ← hparts, intercalate_parts]

theorem trimEnd_eq (names : List String) : trimEnd names = names.rdropWhile isHere := rfl

/-- A path has no folder, or its folder is made of its first parts, and the others name
something. -/
theorem folder_cases (path : String) : folder path = "" ∨ ∃ outer inner,
    parts path = outer ++ inner ∧ outer ≠ [] ∧ (∃ name ∈ inner, isHere name = false) ∧
      folder path = if outer = [""] then "/" else "/".intercalate outer := by
  unfold folder
  split
  · exact .inl rfl
  · rename_i first rest hparts
    split
    · exact .inl rfl
    · rename_i hnames
      have hne : rest.rdropWhile isHere ≠ [] := hnames
      -- Up to the last name, and then up to the one before that names something.
      obtain ⟨after, hafter⟩ := List.rdropWhile_prefix isHere rest
      obtain ⟨between, hbetween⟩ :=
        List.rdropWhile_prefix isHere (rest.rdropWhile isHere).dropLast
      have hlast := List.dropLast_append_getLast hne
      rw [← hbetween] at hlast
      refine .inr ⟨first :: trimEnd (trimEnd rest).dropLast,
        between ++ (rest.rdropWhile isHere).getLast hne :: after, ?_, List.cons_ne_nil _ _,
        ⟨_, List.mem_append_right _ List.mem_cons_self,
          by simpa using List.rdropWhile_last_not isHere rest hne⟩, rfl⟩
      rw [trimEnd_eq rest, trimEnd_eq, hparts, List.cons_append, ← List.append_assoc,
        List.append_cons, hlast, hafter]

/-- The text of a folder is the beginning of the path. -/
theorem folder_isPrefix (path : String) : (folder path).toList <+: path.toList := by
  rcases folder_cases path with hnone | ⟨outer, inner, hparts, houter, ⟨name, hname, -⟩, hfolder⟩
  · rw [hnone]
    exact List.nil_prefix
  · have hpath := eq_append_of_parts hparts houter (List.ne_nil_of_mem hname)
    rw [hfolder, hpath]
    split
    · rename_i hroot
      rw [hroot, String.intercalate_singleton, String.empty_append, String.toList_append]
      exact List.prefix_append _ _
    · rw [String.append_assoc, String.toList_append]
      exact List.prefix_append _ _

/-- A path starts where its beginning starts. -/
theorem isAbsolute_of_isPrefix {folder : String} (hne : folder ≠ "")
    (h : folder.toList <+: path.toList) : isAbsolute folder = isAbsolute path := by
  have htext : folder.toList ≠ [] := fun heq => hne (String.toList_inj.1 heq)
  obtain ⟨c, text, htext⟩ := List.exists_cons_of_ne_nil htext
  obtain ⟨rest, hrest⟩ := h
  rw [isAbsolute, isAbsolute, ← hrest, htext, List.cons_append, List.head?_cons, List.head?_cons]

end Path
end Quorum
