import Quorum.Proofs.CommandLine.Keys
import Quorum.Proofs.CommandLine.Steps

/-!
# From a server list to the opened object

Servers are created with key files of their own and registered in a list.  What a command seals
for the list is text, and so are the lines with keys that other commands print; a command that
is given the text and enough of the lines outputs what was sealed.

Nothing is asked of the files but that each holds what was written to it when it is read.  Which
folders there are, and what happens to other files in between, does not matter.
-/

namespace Quorum
namespace CommandLine

variable {suite : PairingSuite}

/-- A server with its master key. -/
structure Host (suite : PairingSuite) where
  id : ObjectId
  name : String
  url : String
  masterKey : suite.Scalar

namespace Host

/-- The key file of a server. -/
def keyFile (host : Host suite) : KeyFile :=
  KeyFile.ofMasterKey suite host.id host.name host.url host.masterKey

/-- The key that a server issues. -/
def key (host : Host suite) (packageId : ObjectId) (innerId : List UInt8) : suite.G1 :=
  Ibe.extract suite host.masterKey (fullIdentity packageId innerId)

/-- The server as it is in a set. -/
def keyServer (host : Host suite) : KeyServer suite :=
  ⟨host.id, Ibe.publicKey suite host.masterKey⟩

end Host

/-! ## Lines with keys -/

/-- A line is what is printed when a server is asked for a key, at a time at which its key file
is as it was saved. -/
def PrintedFor (packageId : ObjectId) (innerId : List UInt8) (host : Host suite)
    (line : String) : Prop :=
  ∃ (options : Extract) (before after : FileStore), options.packageId = packageId ∧
    parseInnerId options.innerId = .ok innerId ∧
      KeyFile.Saved host.keyFile options.keyFile before ∧
        (options.run (m := StateM FileStore) suite).run.run before =
          (.ok (utf8 (line ++ "\n")), after)

variable {host : Host suite} {innerId : List UInt8}

theorem run_extract_of_saved {options : Extract} {store : FileStore}
    (hsaved : KeyFile.Saved host.keyFile options.keyFile store)
    (hinnerId : parseInnerId options.innerId = .ok innerId) :
    (options.run (m := StateM FileStore) suite).run.run store =
      (.ok (utf8 (keyLine suite host.id (host.key options.packageId innerId) ++ "\n")), store) := by
  rw [Extract.run, Outcome.run_bind_of_ok
    (run_onFiles_eq_ok_iff.2 (KeyFile.run_load_of_saved hsaved)),
    Outcome.run_bind_of_ok (run_known_eq_ok_iff.2 ⟨hinnerId, rfl⟩)]
  rfl

theorem utf8_inj {a b : String} (h : utf8 a = utf8 b) : a = b :=
  Option.some.inj (by rw [← ofUtf8?_utf8, h, ofUtf8?_utf8])

theorem PrintedFor.eq_keyLine {packageId : ObjectId} {line : String}
    (h : PrintedFor packageId innerId host line) :
    line = keyLine suite host.id (host.key packageId innerId) := by
  obtain ⟨options, before, after, rfl, hinnerId, hsaved, hrun⟩ := h
  rw [run_extract_of_saved hsaved hinnerId, Prod.mk.injEq, Except.ok.injEq] at hrun
  have htext := congrArg String.toList (utf8_inj hrun.1)
  rw [String.toList_append, String.toList_append, List.append_cancel_right_eq] at htext
  exact (String.toList_inj.1 htext).symm

/-- Lines that servers printed are read as their keys. -/
theorem parseKeys_of_printedFor (hdecode : ∀ x, suite.decode1? (suite.encode1 x) = some x)
    {packageId : ObjectId} {hosts : List (Host suite)} {lines : List String}
    (h : List.Forall₂ (PrintedFor packageId innerId) hosts lines) :
    parseKeys suite lines = .ok (hosts.map fun host => (host.id, host.key packageId innerId)) := by
  rw [parseKeys, Outcome.mapM_eq_ok_iff, List.forall₂_map_right_iff]
  refine (h.imp fun host line hline => ?_).flip
  rw [hline.eq_keyLine]
  exact parseKey_keyLine hdecode host.id _

/-! ## The set of the servers -/

/-- The list in which different servers were registered lists them in that order. -/
theorem run_load_of_registered {hosts : List (Host suite)} (hids : (hosts.map Host.id).Nodup)
    {path : String} {store : FileStore}
    (h : ServerList.Registered path (hosts.map fun host => host.keyFile.info) store) :
    (ServerList.load (m := StateM FileStore) path).run.run store =
      (.ok (hosts.map fun host => host.keyFile.info), store) := by
  have hlisted : ((hosts.map fun host => host.keyFile.info).map ServerInfo.id).Nodup := by
    rwa [List.map_map]
  rw [h.run_load, ServerList.ofEntries_of_nodup hlisted]

/-- The list of the servers describes the set of them. -/
theorem servers_eq_of_ofInfos (hdecode : ∀ y, suite.decode2? (suite.encode2 y) = some y)
    {hosts : List (Host suite)} {servers : ServerSet suite}
    (h : ServerSet.ofInfos suite (hosts.map fun host => host.keyFile.info) = .ok servers) :
    servers.servers = hosts.map Host.keyServer := by
  rw [ServerSet.ofInfos_eq_ok_iff, List.forall₂_map_left_iff] at h
  have hsame : List.Forall₂ (· = ·) (hosts.map Host.keyServer) servers.servers := by
    rw [List.forall₂_map_left_iff]
    refine h.imp fun host server ⟨hid, hpublicKey⟩ => ?_
    obtain ⟨id, publicKey⟩ := server
    obtain rfl : id = host.id := hid
    have hdecoded : some (Ibe.publicKey suite host.masterKey) = some publicKey :=
      (hdecode _).symm.trans hpublicKey
    rw [Host.keyServer, Option.some.inj hdecoded]
  rw [List.forall₂_eq_eq_eq] at hsame
  exact hsame.symm

/-! ## Opening -/

section Opening

variable {hosts chosen : List (Host suite)} {servers : ServerSet suite} {threshold : UInt8}
  {payload : Payload} {rows : List Key} {r : suite.Scalar} {object : SealedObject} {key : Key}

/-- The servers with the keys that they issue for the identity of an object. -/
def issuedBy (chosen : List (Host suite)) (packageId : ObjectId) (innerId : List UInt8) :
    List (ObjectId × suite.G1) :=
  chosen.map fun host => (host.id, host.key packageId innerId)

/-- The servers that are asked for keys: all of them if there must be a key for each service,
and otherwise any that are enough. -/
def Enough (hosts chosen : List (Host suite)) (threshold : UInt8) (strict : Bool) : Prop :=
  if strict then chosen.Perm hosts
  else chosen.Subperm hosts ∧ threshold.toNat ≤ chosen.length

theorem Enough.subperm {strict : Bool} (h : Enough hosts chosen threshold strict) :
    chosen.Subperm hosts := by
  cases strict with
  | true => exact List.Perm.subperm h
  | false => exact h.1

theorem nodup_ids (hids : (hosts.map Host.id).Nodup) (hchosen : chosen.Subperm hosts) :
    (chosen.map Host.id).Nodup := by
  obtain ⟨sublist, hperm, hsublist⟩ := hchosen
  exact (hperm.map Host.id).nodup_iff.1 ((hsublist.map Host.id).nodup hids)

theorem map_fst_issuedBy (packageId : ObjectId) (innerId : List UInt8) :
    (issuedBy chosen packageId innerId).map Prod.fst = chosen.map Host.id := by
  rw [issuedBy, List.map_map]
  rfl

theorem unambiguous_issuedBy (hids : (hosts.map Host.id).Nodup) (hchosen : chosen.Subperm hosts)
    (packageId : ObjectId) (innerId : List UInt8) :
    Table.Unambiguous (issuedBy chosen packageId innerId) := by
  apply Table.unambiguous_of_nodup
  rw [map_fst_issuedBy]
  exact nodup_ids hids hchosen

theorem map_id_keyServers (hservers : servers.servers = hosts.map Host.keyServer) :
    servers.servers.map KeyServer.id = hosts.map Host.id := by
  rw [hservers, List.map_map]
  rfl

/-- What a server issues takes the mask off that belongs to it. -/
theorem unmasks_of_mem_issuedBy (hsuite : suite.Lawful) (hids : (hosts.map Host.id).Nodup)
    (hchosen : chosen.Subperm hosts) (hservers : servers.servers = hosts.map Host.keyServer)
    {server : KeyServer suite} (hserver : server ∈ servers.servers) {issued : suite.G1}
    (hissued : (server.id, issued) ∈ issuedBy chosen object.packageId object.innerId) :
    Ibe.Unmasks suite issued object.identity server.publicKey := by
  rw [hservers] at hserver
  obtain ⟨host, hhost, rfl⟩ := List.mem_map.1 hserver
  obtain ⟨other, hother, hentry⟩ := List.mem_map.1 hissued
  obtain ⟨hid, rfl⟩ := Prod.mk.inj hentry
  obtain rfl := List.inj_on_of_nodup_map hids (hchosen.subset hother) hhost hid
  exact Ibe.unmasks_of_verifyKey hsuite
    (Ibe.verifyKey_extract hsuite other.masterKey object.identity)

/-- As many servers of the set have a key as are asked for one. -/
theorem length_le_countP_contains (hids : (hosts.map Host.id).Nodup)
    (hchosen : chosen.Subperm hosts) (hservers : servers.servers = hosts.map Host.keyServer)
    (packageId : ObjectId) (innerId : List UInt8) :
    chosen.length ≤ (servers.servers.map KeyServer.id).countP
      (Table.ofList (issuedBy chosen packageId innerId)).contains := by
  have hsubset : chosen.map Host.id ⊆ (servers.servers.map KeyServer.id).filter
      (Table.ofList (issuedBy chosen packageId innerId)).contains := by
    intro id hid
    rw [map_id_keyServers hservers, List.mem_filter, Table.contains_ofList_iff, map_fst_issuedBy]
    exact ⟨List.map_subset _ hchosen.subset hid, hid⟩
  calc
    chosen.length
    _ = (chosen.map Host.id).length := (List.length_map _).symm
    _ ≤ _ := (List.subperm_of_subset (nodup_ids hids hchosen) hsubset).length_le
    _ = _ := List.countP_eq_length_filter.symm

/-- The keys of all servers, in whatever order they are given, open an object that is sealed for
these. -/
theorem openWithArguments_of_perm (hsuite : suite.Lawful) (hids : (hosts.map Host.id).Nodup)
    (hservers : servers.servers = hosts.map Host.keyServer)
    (h : Sealing.SealedFor servers threshold payload rows r object key)
    (hchosen : chosen.Perm hosts) {arguments : List String}
    (hparse : parseKeys suite arguments =
      .ok (issuedBy chosen object.packageId object.innerId)) :
    openWithArguments suite object arguments true = .ok (payload.contents key) := by
  let entries := issuedBy chosen object.packageId object.innerId
  have hunambiguous : Table.Unambiguous entries := unambiguous_issuedBy hids hchosen.subperm _ _
  have hgiven : ∀ id ∈ servers.servers.map KeyServer.id, ∃ issued,
      Table.lookup? id entries = some issued := by
    intro id hid
    rw [map_id_keyServers hservers] at hid
    obtain ⟨host, hhost, rfl⟩ := List.mem_map.1 hid
    refine ⟨host.key object.packageId object.innerId,
      (Table.lookup?_eq_some_iff hunambiguous).2 ?_⟩
    exact List.mem_map.2 ⟨host, hchosen.mem_iff.2 hhost, rfl⟩
  have hnonempty : Nonempty suite.G1 := ⟨Ibe.hashIdentity suite []⟩
  choose! issued hissued using hgiven
  have hkeys : keysOfServices object entries =
      .ok (servers.servers.map fun server => issued server.id) := by
    -- The services have the identifiers of the servers, in their order.
    have hlookups : List.Forall₂ (fun id key => Table.lookup? id entries = some key)
        (object.services.map Service.server)
        (servers.servers.map fun server => issued server.id) := by
      rw [h.servers_eq, List.forall₂_map_left_iff, List.forall₂_map_right_iff, List.forall₂_same]
      exact fun server hserver => hissued _ (List.mem_map_of_mem hserver)
    rwa [List.forall₂_map_left_iff, ← keysOfServices_eq_ok_iff] at hlookups
  have hunmasks : ∀ server ∈ servers.servers,
      Ibe.Unmasks suite (issued server.id) object.identity server.publicKey := by
    intro server hserver
    refine unmasks_of_mem_issuedBy hsuite hids hchosen.subperm hservers hserver ?_
    exact (Table.lookup?_eq_some_iff hunambiguous).1 (hissued _ (List.mem_map_of_mem hserver))
  rw [openWithArguments_all hparse hkeys,
    h.decryptAll_of_issued hsuite.decode2_encode2 issued hunmasks]
  rfl

theorem openWithArguments_of_enough (hsuite : suite.Lawful) (hids : (hosts.map Host.id).Nodup)
    (hservers : servers.servers = hosts.map Host.keyServer)
    (h : Sealing.SealedFor servers threshold payload rows r object key) {strict : Bool}
    (hchosen : Enough hosts chosen threshold strict) {arguments : List String}
    (hparse : parseKeys suite arguments =
      .ok (issuedBy chosen object.packageId object.innerId)) :
    openWithArguments suite object arguments strict = .ok (payload.contents key) := by
  have hsubperm := hchosen.subperm
  cases strict with
  | true => exact openWithArguments_of_perm hsuite hids hservers h hchosen hparse
  | false =>
      have hunambiguous := unambiguous_issuedBy hids hsubperm object.packageId object.innerId
      have hopen := h.decrypt_of_keyRing hsuite.decode2_encode2
        (fun server hserver issued hissued => unmasks_of_mem_issuedBy hsuite hids hsubperm hservers
          hserver ((Table.get?_ofList_eq_some_iff hunambiguous).1 hissued))
        (hchosen.2.trans (length_le_countP_contains hids hsubperm hservers _ _))
      rw [openWithArguments_some hparse, hopen]
      rfl

end Opening

/-! ## The whole way -/

/-- What is sealed for the servers of a list is what is output in the end: by a command that is
given the text of the object, with white space around it, and the lines that enough of the
servers printed for its identity.  Each of these lines can be printed, and is read as the key
that its server issues. -/
theorem run_decrypt_of_run_encrypt (hsuite : suite.Lawful) {hosts : List (Host suite)}
    (hids : (hosts.map Host.id).Nodup) {options : Encrypt} {random : RandomSource}
    {before after : FileStore} {printed innerId : List UInt8}
    (hregistered : ServerList.Registered options.servers
      (hosts.map fun host => host.keyFile.info) before)
    (hencrypt : (options.run (m := StateM FileStore) suite random).run.run before =
      (.ok printed, after))
    (hinnerId : parseInnerId options.innerId = .ok innerId)
    (hinnerSize : innerId.length ≤ UInt32.size - 1)
    (hinputSize : ∀ path bytes, options.input = some path → before.read path = .ok bytes →
      bytes.length ≤ UInt32.size - 1) :
    ∃ (key : Key) (text : String) (bytes : List UInt8),
      Leaves options key text printed after ∧
      (∀ path, options.input = some path → before.read path = .ok bytes) ∧
      (options.input = none → bytes = key.toList) ∧
      (∀ (host : Host suite) (extract : Extract) (store : FileStore),
        parseInnerId extract.innerId = .ok innerId →
          KeyFile.Saved host.keyFile extract.keyFile store →
            ∃ line, (extract.run (m := StateM FileStore) suite).run.run store =
              (.ok (utf8 (line ++ "\n")), store)) ∧
      (∀ (host : Host suite) line, PrintedFor options.packageId innerId host line →
        parseKeys suite [line] = .ok [(host.id, host.key options.packageId innerId)]) ∧
      ∀ (opening : Decrypt) (store : FileStore) (chosen : List (Host suite)) (whole : String),
        opening.keyFiles = [] → Enough hosts chosen options.threshold opening.strict →
          List.Forall₂ (PrintedFor options.packageId innerId) chosen opening.keys →
            Surrounded text whole → store.read opening.object = .ok (utf8 whole) →
              Outputs suite opening store bytes := by
  obtain ⟨servers, payload, innerId', done, hservers, hpayload, hinnerId', hdone, hleaves⟩ :=
    exists_leaves_of_run (run_load_of_registered hids hregistered) hencrypt
  obtain rfl : innerId = innerId' := Except.ok.inj (hinnerId.symm.trans hinnerId')
  obtain ⟨hpackageId, hobjectInnerId, rows, r, hsealed⟩ := Sealing.exists_sealedFor_of_encrypt hdone
  have hset := servers_eq_of_ofInfos hsuite.decode2_encode2 hservers
  refine ⟨done.key, Base64.encode done.object.encode, payload.contents done.key, hleaves,
    fun path hpath => hpayload.read_eq_contents hpath _,
    fun hnone => hpayload.contents_eq_key hnone _,
    fun host extract store hextract hsaved => ⟨_, run_extract_of_saved hsaved hextract⟩,
    fun host line hline => parseKeys_of_printedFor hsuite.decode1_encode1 (.cons hline .nil), ?_⟩
  intro opening store chosen whole hkeyFiles henough hlines hsurrounded hread
  -- The object is read from its text, and the lines are read as the keys of their servers.
  have hfits := hsealed.fits (hobjectInnerId ▸ hinnerSize) (hpayload.length_le hinputSize)
  have hparse := parseObject_of_surrounded hsealed.valid hfits hsurrounded
  have hkeys := parseKeys_of_printedFor hsuite.decode1_encode1 hlines
  rw [← hpackageId, ← hobjectInnerId] at hkeys
  have hopened := openWithArguments_of_enough hsuite hids hset hsealed henough hkeys
  refine outputs_of_opened hread hparse ?_
  rw [run_opened_of_keyFiles_nil hkeyFiles, hopened]

/-! ## Three servers -/

section ThreeHosts

open PairingSuite FileStore

/-- The server whose identifier repeats one byte. -/
def hostOf (byte : UInt8) : Host discreteLog where
  id := idOf byte
  name := ""
  url := ""
  masterKey := masterKeyOf (idOf byte)

/-- The three servers with their master keys. -/
def threeHosts : List (Host discreteLog) := [2, 3, 5].map hostOf

theorem ofInfos_threeHosts :
    ServerSet.ofInfos discreteLog (threeHosts.map fun host => host.keyFile.info) =
      .ok threeServers := by
  have hdescribes (byte : UInt8) : ServerSet.Describes (hostOf byte).keyFile.info
      (⟨idOf byte, Ibe.publicKey discreteLog (masterKeyOf (idOf byte))⟩ : KeyServer discreteLog) :=
    ⟨rfl, discreteLog_lawful.decode2_encode2 _⟩
  rw [ServerSet.ofInfos_eq_ok_iff, threeHosts, threeServers, List.map_map,
    List.forall₂_map_left_iff, List.forall₂_map_right_iff, List.forall₂_same]
  exact fun byte _ => hdescribes byte

/-- Three bytes are sealed for three servers, two of which are needed.  The last of them and the
first print lines with their keys, and the text is read as it was printed. -/
theorem run_decrypt_of_run_encrypt_two_of_three :
    let options : Encrypt := {
      servers := "s", packageId := idOf 7, innerId := "0x0102", threshold := 2,
      input := some "i", out := none, keyOut := none }
    ∃ (before : FileStore) (printed : List UInt8) (first last : String),
      (options.run (m := StateM FileStore) discreteLog { byteAt := fun _ => 1 }).run.run before =
        (.ok printed, before) ∧
      ∀ opening : Decrypt, opening.keys = [last, first] → opening.keyFiles = [] →
        opening.strict = false → ∀ store : FileStore, store.read opening.object = .ok printed →
          Outputs discreteLog opening store [10, 20, 30] := by
  intro options
  have hinnerId : parseInnerId options.innerId = .ok [1, 2] := by decide +kernel
  have hids : (threeHosts.map Host.id).Nodup := by decide
  have hfree : (Table.empty.insert ["i"] [10, 20, 30] :
      Table (List String) (List UInt8)).get? ["s"] = none := by
    rw [Table.get?_insert]
    rfl
  -- The input is a file before the servers are registered.
  obtain ⟨files, hregistered, hkept⟩ := ServerList.exists_registered (by decide +kernel) _
    hfree
    (threeHosts.map fun host => host.keyFile.info)
  have hread : (flat files).read "i" = .ok [10, 20, 30] := by
    refine read_flat (by decide +kernel) ?_
    rw [hkept ["i"] (by decide), Table.get?_insert, if_pos rfl]
  have hbytes : ([10, 20, 30] : List UInt8).length ≤ Aes256Gcm.maxPlaintext := by decide
  obtain ⟨done, hdone⟩ := Sealing.exists_encrypt_threeServers hbytes
  have hsealed : (options.sealed (m := StateM FileStore) discreteLog
      (threeHosts.map fun host => host.keyFile.info) { byteAt := fun _ => 1 }).run.run
        (flat files) = (.ok done, flat files) :=
    run_sealed_of_encrypt (by decide) ofInfos_threeHosts (run_payload_of_read rfl hread)
      hinnerId hdone
  have hrun := run_encrypt_of_sealed (run_load_of_registered hids hregistered) hsealed rfl rfl
  have hsize : ∀ path bytes, options.input = some path → (flat files).read path = .ok bytes →
      bytes.length ≤ UInt32.size - 1 := by
    rintro path bytes ⟨⟩ hcontents
    obtain rfl := Except.ok.inj (hread.symm.trans hcontents)
    decide
  obtain ⟨key, text, bytes, ⟨middle, -, -, hprinted⟩, hcontents, -, hextract, -, hopen⟩ :=
    run_decrypt_of_run_encrypt discreteLog_lawful hids hregistered hrun hinnerId (by decide) hsize
  obtain rfl := Except.ok.inj (hread.symm.trans (hcontents "i" rfl))
  have hline (host : Host discreteLog) : ∃ line, PrintedFor (idOf 7) [1, 2] host line := by
    obtain ⟨store, hsaved⟩ := KeyFile.exists_saved host.keyFile (by decide +kernel : Plain "k")
    let extract : Extract := ⟨"k", idOf 7, "0x0102"⟩
    obtain ⟨line, hline⟩ := hextract host extract store hinnerId hsaved
    exact ⟨line, extract, store, store, rfl, hinnerId, hsaved, hline⟩
  obtain ⟨first, hfirst⟩ := hline (hostOf 2)
  obtain ⟨last, hlast⟩ := hline (hostOf 5)
  refine ⟨flat files, _, first, last, hrun, ?_⟩
  rintro opening hkeys hkeyFiles hstrict store hobject
  have hsubperm : [hostOf 5, hostOf 2].Subperm threeHosts :=
    ⟨[2, 5].map hostOf, .swap _ _ _, List.Sublist.map _ (by decide)⟩
  have henough : Enough threeHosts [hostOf 5, hostOf 2] options.threshold opening.strict := by
    rw [hstrict]
    exact ⟨hsubperm, by decide⟩
  have hlines : List.Forall₂ (PrintedFor (idOf 7) [1, 2]) [hostOf 5, hostOf 2] opening.keys := by
    rw [hkeys]
    exact .cons hlast (.cons hfirst .nil)
  rw [(hprinted rfl).2] at hobject
  exact hopen opening store _ _ hkeyFiles henough hlines (surrounded_newline text) hobject

end ThreeHosts

end CommandLine
end Quorum
