import Quorum.Proofs.CommandLine.Keys
import Quorum.Proofs.Sealing.Sufficiency
import Quorum.Proofs.Table

/-!
# Keys that are given twice

Where all services of an object are needed to open it, both ways of opening take one key for
each of them, in their order.  They take the same keys if no service is given two different ones.
Otherwise opening with all keys takes the first that is given for a service, and opening with
some of them takes the last.
-/

namespace Quorum
namespace CommandLine

variable {suite : PairingSuite} {object : SealedObject} {entries : List (ObjectId × suite.G1)}

/-- A ring with keys for all services makes every place of a valid object available. -/
theorem available_eq_openings (hvalid : object.Valid) {ring : KeyRing suite}
    {issued : ObjectId → suite.G1}
    (hring : ∀ id ∈ object.services.map Service.server, ring.get? id = some (issued id)) :
    Sealing.available object ring =
      Sealing.openings object ((object.services.map Service.server).map issued) := by
  rw [Sealing.openings_issued hvalid, Sealing.available, ← List.filterMap_eq_map]
  apply List.filterMap_congr
  rintro ⟨service, masked⟩ hplace
  have hservice : service ∈ object.services := (List.of_mem_zip hplace).1
  simp [hring _ (List.mem_map_of_mem hservice)]

/-- Without a valid object, nothing is opened either way, for the same reason. -/
theorem decryptAll_eq_decrypt_of_error {error : SealingError}
    (h : object.validate = .error error) (keys : List suite.G1) (ring : KeyRing suite) :
    Sealing.decryptAll object keys = Sealing.decrypt object ring := by
  rw [Sealing.decryptAll, Sealing.decrypt, h]
  rfl

/-- The first key that is given for each identifier of a list, and the last. -/
theorem exists_first_and_last {ids : List ObjectId}
    (hcovered : ∀ id ∈ ids, id ∈ entries.map Prod.fst) :
    ∃ first last : ObjectId → suite.G1,
      (∀ id ∈ ids, Table.lookup? id entries = some (first id)) ∧
        ∀ id ∈ ids, Table.lookup? id entries.reverse = some (last id) := by
  have hfirst : ∀ id ∈ ids, ∃ key, Table.lookup? id entries = some key :=
    fun id hid => Table.exists_lookup?_iff.2 (hcovered id hid)
  have hlast : ∀ id ∈ ids, ∃ key, Table.lookup? id entries.reverse = some key := by
    intro id hid
    rw [Table.exists_lookup?_iff, List.map_reverse, List.mem_reverse]
    exact hcovered id hid
  have hnonempty : Nonempty suite.G1 := ⟨Ibe.hashIdentity suite []⟩
  choose! first hfirst using hfirst
  choose! last hlast using hlast
  exact ⟨first, last, hfirst, hlast⟩

section AllNeeded

variable {first last : ObjectId → suite.G1}

theorem keysOfServices_eq_map
    (hfirst : ∀ id ∈ object.services.map Service.server,
      Table.lookup? id entries = some (first id)) :
    keysOfServices object entries = .ok ((object.services.map Service.server).map first) := by
  rw [keysOfServices_eq_ok_iff, List.map_map, List.forall₂_map_right_iff, List.forall₂_same]
  exact fun service hservice => hfirst _ (List.mem_map_of_mem hservice)

/-- Where all places are needed, all of those that are available are used. -/
theorem take_available_eq_openings (hvalid : object.Valid)
    (hall : object.threshold.toNat = object.services.length)
    (hlast : ∀ id ∈ object.services.map Service.server,
      Table.lookup? id entries.reverse = some (last id)) :
    (Sealing.available object (Table.ofList entries)).take object.threshold.toNat =
      Sealing.openings object ((object.services.map Service.server).map last) := by
  have hring : ∀ id ∈ object.services.map Service.server,
      (Table.ofList entries).get? id = some (last id) := by
    intro id hid
    rw [Table.get?_ofList, hlast id hid]
  have hcount : ((object.services.map Service.server).map last).length =
      object.services.length := by
    rw [List.length_map, List.length_map]
  have hlength := congrArg List.length (Sealing.map_service_openings hvalid hcount)
  rw [List.length_map] at hlength
  rw [available_eq_openings hvalid hring, List.take_of_length_le (by omega)]

end AllNeeded

/-- Where an object needs the keys of all of its services and each is given at least one, the
first keys of the services are used with `strict`, and the last ones without it.  Both are the
same exactly if no service is given different ones first and last, and then the same is
opened. -/
theorem openWithArguments_all_needed {arguments : List String}
    (hall : object.threshold.toNat = object.services.length)
    (hparse : parseKeys suite arguments = .ok entries)
    (hcovered : ∀ service ∈ object.services, service.server ∈ entries.map Prod.fst) :
    let ring := Table.ofList entries
    ∃ ordered, keysOfServices object entries = .ok ordered ∧
      openWithArguments suite object arguments true =
        (Sealing.decryptAll object ordered).mapError .ofFailure ∧
      openWithArguments suite object arguments false =
        (Sealing.decrypt object ring).mapError .ofFailure ∧
      List.Forall₂ (fun service key => Table.lookup? service.server entries = some key)
        object.services ordered ∧
      (object.validate = .ok () →
        List.Forall₂ (fun service key => Table.lookup? service.server entries.reverse = some key)
          object.services (Sealing.usedKeys object ring) ∧
        (ordered = Sealing.usedKeys object ring ↔ ∀ service ∈ object.services,
          Table.lookup? service.server entries = Table.lookup? service.server entries.reverse)) ∧
      ((∀ service ∈ object.services,
          Table.lookup? service.server entries = Table.lookup? service.server entries.reverse) →
        openWithArguments suite object arguments true =
          openWithArguments suite object arguments false) := by
  intro ring
  have hids : ∀ id ∈ object.services.map Service.server, id ∈ entries.map Prod.fst := by
    rwa [List.forall_mem_map]
  obtain ⟨first, last, hfirst, hlast⟩ := exists_first_and_last hids
  have hordered := keysOfServices_eq_map hfirst
  have hsame : (∀ service ∈ object.services, Table.lookup? service.server entries =
      Table.lookup? service.server entries.reverse) ↔
        (object.services.map Service.server).map first =
          (object.services.map Service.server).map last := by
    rw [List.map_inj_left, List.forall_mem_map]
    refine forall₂_congr fun service hservice => ?_
    rw [hfirst _ (List.mem_map_of_mem hservice), hlast _ (List.mem_map_of_mem hservice),
      Option.some.injEq]
  have hcount (keys : ObjectId → suite.G1) :
      ((object.services.map Service.server).map keys).length = object.services.length := by
    rw [List.length_map, List.length_map]
  have hselected (hvalid : object.Valid) :
      (Sealing.available object ring).take object.threshold.toNat =
        Sealing.openings object ((object.services.map Service.server).map last) :=
    take_available_eq_openings hvalid hall hlast
  refine ⟨_, hordered, openWithArguments_all hparse hordered, openWithArguments_some hparse,
    keysOfServices_eq_ok_iff.1 hordered, fun hvalidate => ?_, fun hagree => ?_⟩
  · have hvalid := SealedObject.validate_eq_ok_iff.1 hvalidate
    have hused : Sealing.usedKeys object ring =
        (object.services.map Service.server).map last := by
      rw [Sealing.usedKeys, hselected hvalid, Sealing.map_key_openings hvalid (hcount last)]
    refine ⟨?_, by rw [hused, hsame]⟩
    rw [hused, List.map_map, List.forall₂_map_right_iff, List.forall₂_same]
    exact fun service hservice => hlast _ (List.mem_map_of_mem hservice)
  · rw [openWithArguments_all hparse hordered, openWithArguments_some hparse]
    congr 1
    cases hvalidate : object.validate with
    | error error => exact decryptAll_eq_decrypt_of_error hvalidate _ _
    | ok _ =>
        -- The first keys are the last ones, so the same openings are used both ways.
        have hvalid := SealedObject.validate_eq_ok_iff.1 hvalidate
        have henough : object.threshold.toNat ≤ (Sealing.available object ring).length := by
          have hlength := congrArg List.length (hselected hvalid)
          rw [Sealing.openings_eq_map, List.length_map, List.length_zip, hvalid.length_zip, hcount,
            List.length_take] at hlength
          omega
        rw [Sealing.decryptAll_eq_openWith hvalid (hcount first),
          Sealing.decrypt_eq_openWith hvalid henough, hselected hvalid, hsame.1 hagree]

section OneService

open PairingSuite

/-- An object with a single service that holds nothing but its key. -/
def oneServiceObject : SealedObject where
  version := 0
  packageId := idOf 7
  innerId := [1, 2]
  services := [⟨idOf 1, 1⟩]
  threshold := 1
  encapsulation := discreteLog.encode2 discreteLog.generator
  shares := [Vector.replicate 32 0]
  ciphertext := .plain

/-- The lines with keys of servers. -/
def linesOf (entries : List (ObjectId × discreteLog.G1)) : List String :=
  entries.map fun entry => keyLine discreteLog entry.1 entry.2

theorem parseKeys_linesOf (entries : List (ObjectId × discreteLog.G1)) :
    parseKeys discreteLog (linesOf entries) = .ok entries :=
  parseKeys_keyLines discreteLog_lawful.decode1_encode1 entries

/-- The first element of the group other than the neutral one. -/
def oneKey : discreteLog.G1 := ⟨1, by decide⟩

/-- The neutral element of the group, for which there is no mask. -/
def zeroKey : discreteLog.G1 := ⟨0, by decide⟩

/-- The same key twice, with a key of another server in between, is used both ways. -/
theorem openWithArguments_all_needed_same_twice :
    let arguments := linesOf [(idOf 1, oneKey), (idOf 9, zeroKey), (idOf 1, oneKey)]
    openWithArguments discreteLog oneServiceObject arguments true =
      openWithArguments discreteLog oneServiceObject arguments false := by
  intro arguments
  have hcovered : ∀ service ∈ oneServiceObject.services, service.server ∈
      [(idOf 1, oneKey), (idOf 9, zeroKey), (idOf 1, oneKey)].map Prod.fst := by
    decide
  obtain ⟨-, -, -, -, -, -, hagree⟩ := openWithArguments_all_needed
    (by decide : oneServiceObject.threshold.toNat = oneServiceObject.services.length)
    (parseKeys_linesOf _) hcovered
  exact hagree (by decide)

/-- Of two different keys for a service, the first is used with `strict` and the last without
it.  With the first the object is opened, and with the last the command breaks off. -/
theorem openWithArguments_of_different_keys :
    let entries := [(idOf 1, oneKey), (idOf 1, zeroKey)]
    oneServiceObject.validate = .ok () ∧
      oneServiceObject.threshold.toNat = oneServiceObject.services.length ∧
      parseKeys discreteLog (linesOf entries) = .ok entries ∧
      (∀ service ∈ oneServiceObject.services, service.server ∈ entries.map Prod.fst) ∧
      keysOfServices oneServiceObject entries = .ok [oneKey] ∧
      Sealing.usedKeys oneServiceObject (Table.ofList entries) = [zeroKey] ∧
      openWithArguments discreteLog oneServiceObject (linesOf entries) true ≠
        openWithArguments discreteLog oneServiceObject (linesOf entries) false := by
  intro entries
  have hvalidate : oneServiceObject.validate = .ok () := rfl
  have hkeys : keysOfServices oneServiceObject entries = .ok [oneKey] := rfl
  have hdecode : discreteLog.decode2? oneServiceObject.encapsulation =
      some discreteLog.generator := discreteLog_lawful.decode2_encode2 _
  refine ⟨hvalidate, rfl, parseKeys_linesOf entries, by decide, hkeys, rfl, ?_⟩
  have hvalid := SealedObject.validate_eq_ok_iff.1 hvalidate
  let opening (key : discreteLog.G1) : Sealing.Opening discreteLog :=
    ⟨⟨idOf 1, 1⟩, Vector.replicate 32 0, key⟩
  obtain ⟨contents, hopen⟩ : ∃ contents,
      Sealing.openWith oneServiceObject [opening oneKey] = .ok contents := by
    refine Sealing.exists_openWith_eq_ok_of_plain hvalid rfl (.refl _) (by decide)
      (by simp [hdecode]) fun y hy => ?_
    obtain rfl := Option.some.inj (hdecode.symm.trans hy)
    decide
  have hbroken : Sealing.openWith oneServiceObject [opening zeroKey] = .error .maskUndefined :=
    Sealing.openWith_eq_maskUndefined (by simp [oneServiceObject]) hdecode (by decide) []
  have hfirst : Sealing.decryptAll oneServiceObject [oneKey] = .ok contents := by
    rw [Sealing.decryptAll_eq_openWith hvalid rfl]
    exact hopen
  have hlast : Sealing.decrypt oneServiceObject (Table.ofList entries) =
      .error .maskUndefined := by
    rw [Sealing.decrypt_eq_openWith hvalid (by decide)]
    exact hbroken
  rw [openWithArguments_all (parseKeys_linesOf entries) hkeys,
    openWithArguments_some (parseKeys_linesOf entries), hfirst, hlast]
  simp [Except.mapError]

end OneService

end CommandLine
end Quorum
