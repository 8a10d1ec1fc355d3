import Quorum.CommandLine.Run
import Quorum.Proofs.LocalServers

/-!
# The servers of key files

Servers are put at their addresses and registered under their identifiers, one key file after
the other.  Where no two files share an identifier or an address, nothing is replaced: every
file has its own server and its own entry, in whatever order the files come.  All of them are
verified then, so of the services of an object exactly those with a file are served.
-/

namespace Quorum
namespace CommandLine

variable {suite : PairingSuite}

/-- The entry of the server of a key file with its master key. -/
def entryOf (file : KeyFile × suite.Scalar) : ServerInfo :=
  LocalServers.describe file.1.id file.1.name file.1.url file.2

/-- The server of a key file with its master key, and its address. -/
def placeOf (file : KeyFile × suite.Scalar) : String × LocalServer suite :=
  (file.1.url, ⟨file.1.id, file.2, .honest⟩)

/-- The identifiers of the servers of key files. -/
def idsOf (files : List (KeyFile × suite.Scalar)) : List ObjectId :=
  files.map fun file => file.1.id

/-- The addresses of the servers of key files. -/
def urlsOf (files : List (KeyFile × suite.Scalar)) : List String :=
  files.map fun file => file.1.url

theorem serve_eq (files : List (KeyFile × suite.Scalar)) :
    serve suite files = ({ servers := Table.ofList (files.map placeOf) },
      Directory.ofList (files.map entryOf)) := by
  -- The fold puts the last file in last, so files are taken off the end.
  induction files using List.reverseRecOn with
  | nil => rfl
  | append_singleton files file ih =>
      have hlast : serve suite (files ++ [file]) =
          ((serve suite files).1.add file.1.id file.1.name file.1.url file.2 |>.2,
            (serve suite files).2.insert (entryOf file)) := by
        rw [serve, List.foldl_concat]
        rfl
      rw [hlast, ih, List.map_append, List.map_append]
      simp only [Directory.ofList, List.map_append, List.map_cons, List.map_nil,
        Table.ofList_concat]
      rfl

variable {files : List (KeyFile × suite.Scalar)}

theorem get?_serve_iff (hurls : (urlsOf files).Nodup) {url : String}
    {server : LocalServer suite} :
    (serve suite files).1.servers.get? url = some server ↔
      ∃ file ∈ files, placeOf file = (url, server) := by
  have hunambiguous : Table.Unambiguous (files.map placeOf) := by
    apply Table.unambiguous_of_nodup
    rwa [List.map_map]
  rw [serve_eq, ← List.mem_map]
  exact Table.get?_ofList_eq_some_iff hunambiguous

theorem behavior_serve (hurls : (urlsOf files).Nodup) (url : String)
    (server : LocalServer suite)
    (hserver : (serve suite files).1.servers.get? url = some server) :
    server.behavior = .honest := by
  obtain ⟨file, -, hplace⟩ := (get?_serve_iff hurls).1 hserver
  cases hplace
  rfl

theorem get?_serve (hurls : (urlsOf files).Nodup) {file : KeyFile × suite.Scalar}
    (hfile : file ∈ files) : (serve suite files).1.servers.get? file.1.url =
      some ⟨file.1.id, file.2, .honest⟩ :=
  (get?_serve_iff hurls).2 ⟨file, hfile, rfl⟩

theorem resolve_serve (hids : (idsOf files).Nodup) {file : KeyFile × suite.Scalar}
    (hfile : file ∈ files) : (serve suite files).2.resolve file.1.id = .ok (entryOf file) := by
  have hnodup : ((files.map entryOf).map ServerInfo.id).Nodup := by
    rwa [List.map_map]
  rw [serve_eq]
  exact Directory.resolve_ofList hnodup (List.mem_map_of_mem hfile)

theorem isSome_get?_serve_iff {id : ObjectId} :
    ((serve suite files).2.get? id).isSome = true ↔ id ∈ idsOf files := by
  have hkeys : ((files.map entryOf).map fun info => (info.id, info)).map Prod.fst =
      idsOf files := by
    rw [List.map_map, List.map_map]
    rfl
  rw [serve_eq, ← hkeys]
  exact Table.contains_ofList_iff

/-- The server of every key file is verified: what it proves is what is registered. -/
theorem verifiedAlways_serve (hsuite : suite.Lawful) (hids : (idsOf files).Nodup)
    (hurls : (urlsOf files).Nodup) {file : KeyFile × suite.Scalar} (hfile : file ∈ files) :
    Verification.VerifiedAlways suite
      (fun id => ((serve suite files).2.resolve id).mapError .error)
      (serve suite files).1.client.provePossession file.1.id (entryOf file) := by
  have hresolve : ((serve suite files).2.resolve file.1.id).mapError RequestFailure.error =
      .ok (entryOf file) := Outcome.mapError_eq_ok_iff.2 (resolve_serve hids hfile)
  exact ⟨hresolve, rfl, _, LocalServers.client_provePossession_of_honest (get?_serve hurls hfile),
    LocalServers.proves_describe hsuite _ _ _ _⟩

/-- The services of an object that have a key file, in their order. -/
def coveredIds (object : SealedObject) (files : List (KeyFile × suite.Scalar)) :
    List ObjectId :=
  (object.services.map Service.server).filter fun id => id ∈ idsOf files

/-- The served services are those with a key file, where these can be verified. -/
theorem servedServices_eq_ok_iff {object : SealedObject} {infos : List ServerInfo} :
    servedServices suite object files = .ok infos ↔
      List.Forall₂ (Verification.VerifiedAlways suite
        (fun id => ((serve suite files).2.resolve id).mapError .error)
        (serve suite files).1.client.provePossession) (coveredIds object files) infos := by
  have hcovered : ((object.services.map Service.server).filter fun id =>
      ((serve suite files).2.get? id).isSome) = coveredIds object files := by
    apply List.filter_congr
    intro id _
    rw [Bool.eq_iff_iff, isSome_get?_serve_iff, decide_eq_true_iff]
  rw [← hcovered]
  exact Verification.verifyServers_eq_ok_iff

theorem map_id_of_servedServices {object : SealedObject} {infos : List ServerInfo}
    (h : servedServices suite object files = .ok infos) :
    infos.map ServerInfo.id = coveredIds object files := by
  have hids : List.Forall₂ (· = ·) (coveredIds object files) (infos.map ServerInfo.id) := by
    rw [List.forall₂_map_right_iff]
    exact (servedServices_eq_ok_iff.1 h).imp fun id info hverified => hverified.2.1.symm
  rw [List.forall₂_eq_eq_eq] at hids
  exact hids.symm

/-- Where no two files share an identifier or an address, each service with a file is served
with the entry of its file. -/
theorem servedServices_eq_ok (hsuite : suite.Lawful) (hids : (idsOf files).Nodup)
    (hurls : (urlsOf files).Nodup) {object : SealedObject} {infos : List ServerInfo}
    (hinfos : List.Forall₂ (fun id info => ∃ file ∈ files, file.1.id = id ∧ entryOf file = info)
      (coveredIds object files) infos) :
    servedServices suite object files = .ok infos := by
  refine servedServices_eq_ok_iff.2 (hinfos.imp ?_)
  rintro _ _ ⟨file, hfile, rfl, rfl⟩
  exact verifiedAlways_serve hsuite hids hurls hfile

end CommandLine
end Quorum
