import Quorum.CommandLine.Run
import Quorum.Proofs.ObjectId
import Quorum.Proofs.Sealing.Opening

/-!
# Keys that are given as arguments

The line that gives an issued key is read as that key and its server: neither of its halves has
a sign of equality, and only the first starts with a marker.

Of the keys that are given for one server, opening with all keys uses the first, and opening
with some of them uses the last.
-/

namespace Quorum

/-! ## Digits -/

theorem dropMarker_of_not_mem {text : List Char} (h : 'x' ∉ text) : dropMarker text = text := by
  unfold dropMarker
  split
  · simp at h
  · rfl

theorem Hex.isSome_hexValue?_of_mem_digits {bytes : List UInt8} {c : Char}
    (h : c ∈ Hex.digits bytes) : (Json.hexValue? c).isSome = true := by
  have hvalues := Outcome.mapM_eq_some_iff.1 (Hex.mapM_hexValue?_digits bytes)
  obtain ⟨value, -, hvalue⟩ := Outcome.exists_result_of_mem hvalues h
  rw [hvalue]
  rfl

theorem Bytes.parse_encode {n : Nat} (bytes : Bytes n) :
    parse n (Hex.encode bytes.toList) = .ok bytes := by
  have hmarker : 'x' ∉ (Hex.encode bytes.toList).toList := by
    rw [Hex.encode, String.toList_ofList]
    intro hmem
    have hdigit := Hex.isSome_hexValue?_of_mem_digits hmem
    simp [Json.hexValue?] at hdigit
  rw [parse, dropMarker_of_not_mem hmarker, String.ofList_toList]
  simp only [Hex.decode_encode]
  simp [ofList]

namespace CommandLine

variable {suite : PairingSuite}

/-! ## Lines -/

theorem splitAtEquals_append {front : List Char} (h : '=' ∉ front) (rest : List Char) :
    splitAtEquals (front ++ '=' :: rest) = (front, some rest) := by
  induction front with
  | nil => rfl
  | cons c front ih =>
      rw [List.mem_cons, not_or] at h
      rw [List.cons_append, splitAtEquals, ih h.2]
      exact fun hc => h.1 hc.symm

/-- The line that gives a key is read as that key of that server. -/
theorem parseKey_keyLine (hdecode : ∀ x, suite.decode1? (suite.encode1 x) = some x)
    (server : ObjectId) (key : suite.G1) :
    parseKey suite (keyLine suite server key) = .ok (server, key) := by
  have hequals : '=' ∉ server.text.toList := by
    simp [ObjectId.text, Hex.encode]
    intro hmem
    have hdigit := Hex.isSome_hexValue?_of_mem_digits hmem
    simp [Json.hexValue?] at hdigit
  have hline : (keyLine suite server key).toList =
      server.text.toList ++ '=' :: (Hex.encode (suite.encode1 key).toList).toList := by
    simp [keyLine]
  have hsplit := splitAtEquals_append hequals (Hex.encode (suite.encode1 key).toList).toList
  rw [parseKey, hline, hsplit]
  simp [ObjectId.parse_text, Bytes.parse_encode, Ibe.decode1, hdecode, Except.mapError]

theorem parseKeys_keyLines (hdecode : ∀ x, suite.decode1? (suite.encode1 x) = some x)
    (entries : List (ObjectId × suite.G1)) :
    parseKeys suite (entries.map fun entry => keyLine suite entry.1 entry.2) = .ok entries := by
  rw [parseKeys, Outcome.mapM_eq_ok_iff, List.forall₂_map_left_iff, List.forall₂_same]
  exact fun entry _ => parseKey_keyLine hdecode entry.1 entry.2

/-! ## The keys for the services of an object -/

variable {object : SealedObject} {entries : List (ObjectId × suite.G1)}

theorem map_snd_find?_eq_lookup? (id : ObjectId) (entries : List (ObjectId × suite.G1)) :
    (entries.find? fun entry => entry.1 = id).map Prod.snd = Table.lookup? id entries := by
  induction entries with
  | nil => rfl
  | cons entry rest ih =>
      by_cases hid : entry.1 = id
      · simp [Table.lookup?, hid]
      · simp [Table.lookup?, hid, ih]

/-- The keys for all services are the first ones that are given for them. -/
theorem keysOfServices_eq_ok_iff {keys : List suite.G1} :
    keysOfServices object entries = .ok keys ↔
      List.Forall₂ (fun service key => Table.lookup? service.server entries = some key)
        object.services keys := by
  -- Searching for the first entry of a service is looking it up.
  have hlookup : keysOfServices object entries = object.services.mapM fun service =>
      (Table.lookup? service.server entries).elim (.error (.missingKey service.server)) .ok := by
    rw [keysOfServices]
    congr
    funext service
    rw [← map_snd_find?_eq_lookup?]
    cases entries.find? fun entry => entry.1 = service.server with
    | none => rfl
    | some entry => rfl
  have hfound (service : Service) (key : suite.G1) :
      (Table.lookup? service.server entries).elim
        (Except.error (CommandError.missingKey service.server)) .ok = .ok key ↔
          Table.lookup? service.server entries = some key := by
    cases Table.lookup? service.server entries with
    | none => simp
    | some other => simp
  rw [hlookup, Outcome.mapM_eq_ok_iff]
  simp only [hfound]

variable {arguments : List String}

theorem openWithArguments_all (hparse : parseKeys suite arguments = .ok entries)
    {keys : List suite.G1} (hkeys : keysOfServices object entries = .ok keys) :
    openWithArguments suite object arguments true =
      (Sealing.decryptAll object keys).mapError .ofFailure := by
  rw [openWithArguments, hparse, Outcome.ok_bind, if_pos rfl, hkeys, Outcome.ok_bind]

theorem openWithArguments_some (hparse : parseKeys suite arguments = .ok entries) :
    openWithArguments suite object arguments false =
      (Sealing.decrypt object (Table.ofList entries)).mapError .ofFailure := by
  rw [openWithArguments, hparse, Outcome.ok_bind]
  rfl

end CommandLine
end Quorum
