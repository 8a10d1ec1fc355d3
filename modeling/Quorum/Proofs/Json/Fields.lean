import Quorum.Json.Fields
import Quorum.KeyFile
import Quorum.Proofs.Json.Reading
import Quorum.Proofs.ObjectId
import Quorum.Proofs.Outcome

/-!
# Records in JSON

A record that is written field by field is taken apart into the same fields, whatever names
they have, as long as no name is used twice.  So entries of servers, lists of them, and key
files are what their JSON values hold, and also what the texts of these values hold.
-/

namespace Quorum

namespace Json

/-! ## Fields -/

@[simp]
theorem asText?_ofText (text : String) : (ofText text).asText? = some text :=
  text?_symbols text

theorem member?_of_mem {members : List (String × Json)} (hnodup : (members.map Prod.fst).Nodup)
    {name : String} {value : Json} (h : (name, value) ∈ members) :
    member? name members = some value := by
  have hfilter : members.filter (fun member => member.1 = name) = [(name, value)] := by
    induction members with
    | nil => cases h
    | cons first members ih =>
        obtain ⟨hfirst, hnodup⟩ := List.nodup_cons.1 hnodup
        rcases List.mem_cons.1 h with rfl | hmem
        · have hnone : members.filter (fun member => member.1 = name) = [] := by
            rw [List.filter_eq_nil_iff]
            intro member hmember
            have hne : member.1 ≠ name := by
              rintro rfl
              exact hfirst (List.mem_map.2 ⟨member, hmember, rfl⟩)
            simpa using hne
          rw [List.filter_cons_of_pos (by simp), hnone]
        · have hne : first.1 ≠ name := fun heq => hfirst (heq ▸ List.mem_map_of_mem hmem)
          rw [List.filter_cons_of_neg (by simpa using hne), ih hnodup hmem]
  rw [member?, hfilter]

/-- The fields of a record are what its JSON value holds. -/
theorem record?_ofMembers {names : List String} (hnodup : names.Nodup) {values : List Json}
    (hlength : names.length = values.length) :
    (ofMembers (names.zip values)).record? names = some values := by
  have hfst : (names.zip values).map Prod.fst = names := List.map_fst_zip hlength.le
  have hfields : names.mapM (fun name => member? name (names.zip values)) = some values := by
    rw [Outcome.mapM_eq_some_iff, List.forall₂_iff_zip]
    exact ⟨hlength, fun hmem => member?_of_mem (hfst.symm ▸ hnodup) hmem⟩
  rw [ofMembers, record?]
  refine Option.bind_eq_some_iff.2 ⟨names.zip values, ?_, hfields⟩
  rw [Outcome.mapM_eq_some_iff, List.forall₂_map_left_iff, List.forall₂_same]
  intro member _
  simp [text?_symbols]

end Json

/-! ## Identifiers and byte strings -/

@[simp]
theorem ObjectId.ofJson?_toJson (id : ObjectId) : ofJson? id.toJson = some id := by
  simp [ofJson?, toJson, parse_text, Except.toOption]

@[simp]
theorem Bytes.ofJson?_toJson {n : Nat} (bytes : Bytes n) :
    ofJson? n (toJson bytes) = some bytes := by
  simp [ofJson?, toJson, Hex.decode_encode, Except.toOption]

/-! ## Entries of servers -/

namespace ServerInfo

theorem ofJson?_toJson (info : ServerInfo) : ofJson? info.toJson = some info := by
  have hfields : info.toJson.record? fieldNames =
      some [info.id.toJson, .ofText info.name, .ofText info.url, Bytes.toJson info.publicKey] :=
    Json.record?_ofMembers (by decide) rfl
  rw [ofJson?, hfields]
  simp

theorem listOfJson?_listToJson (infos : List ServerInfo) :
    listOfJson? (listToJson infos) = some infos := by
  have hitems : (infos.map toJson).mapM ofJson? = some infos := by
    rw [Outcome.mapM_eq_some_iff, List.forall₂_map_left_iff, List.forall₂_same]
    exact fun info _ => ofJson?_toJson info
  exact hitems

theorem readBack_toJson (info : ServerInfo) : Json.ReadBack info.toJson := by
  refine Json.readBack_ofMembers fun member hmember => ?_
  simp [fieldNames] at hmember
  obtain rfl | rfl | rfl | rfl := hmember
  all_goals exact Json.readBack_ofText _

/-- A list of entries is what the text of its JSON value holds. -/
theorem parse?_pretty_listToJson (infos : List ServerInfo) :
    (Json.parse? (listToJson infos).pretty).bind listOfJson? = some infos := by
  have hread : Json.ReadBack (listToJson infos) := by
    refine Json.readBack_array fun item hitem => ?_
    obtain ⟨info, -, rfl⟩ := List.mem_map.1 hitem
    exact readBack_toJson info
  rw [Json.parse?_pretty hread, Option.bind_some, listOfJson?_listToJson]

end ServerInfo

/-! ## Key files -/

namespace KeyFile

/-- The values of the six fields. -/
def values (file : KeyFile) : List Json :=
  [file.id.toJson, .ofText file.name, .ofText file.url, .ofText file.masterKeyText,
    Bytes.toJson file.publicKey, Bytes.toJson file.proofOfPossession]

theorem record?_toJson (file : KeyFile) : file.toJson.record? fieldNames = some file.values :=
  Json.record?_ofMembers (by decide) rfl

theorem ofJson?_toJson (file : KeyFile) : ofJson? file.toJson = some file := by
  rw [ofJson?, record?_toJson]
  simp [values]

theorem readBack_toJson (file : KeyFile) : Json.ReadBack file.toJson := by
  refine Json.readBack_ofMembers fun member hmember => ?_
  simp [fieldNames] at hmember
  obtain rfl | rfl | rfl | rfl | rfl | rfl := hmember
  all_goals exact Json.readBack_ofText _

/-- A key file is what the text of its JSON value holds. -/
theorem parse?_pretty_toJson (file : KeyFile) :
    (Json.parse? file.toJson.pretty).bind ofJson? = some file := by
  rw [Json.parse?_pretty file.readBack_toJson, Option.bind_some, ofJson?_toJson]

theorem parse?_pretty_values (file : KeyFile) :
    (Json.parse? file.toJson.pretty).bind (Json.record? fieldNames) = some file.values := by
  rw [Json.parse?_pretty file.readBack_toJson, Option.bind_some, record?_toJson]

end KeyFile

end Quorum
