import Mathlib.Data.List.Nodup
import Quorum.Proofs.Ibe.Verification
import Quorum.ServerSet

/-!
# Sets of key servers and their descriptions

A list of descriptions gives a set exactly if the public keys can be decoded and the
servers form a set; the servers are then described one by one, in the same order.
Within a set, a server is found by its identifier.
-/

namespace Quorum
namespace ServerSet

variable {suite : PairingSuite}

theorem find?_eq_some_iff {set : ServerSet suite} {id : ObjectId} {server : KeyServer suite} :
    set.find? id = some server ↔ server ∈ set.servers ∧ server.id = id := by
  unfold find?
  constructor
  · intro h
    exact ⟨List.mem_of_find?_eq_some h, by simpa using List.find?_some h⟩
  · rintro ⟨hmem, rfl⟩
    cases hfind : set.servers.find? fun other => other.id = server.id with
    | none => exact absurd (List.find?_eq_none.1 hfind server hmem) (by simp)
    | some other =>
        have hid : other.id = server.id := by simpa using List.find?_some hfind
        have hother := List.mem_of_find?_eq_some hfind
        rw [List.inj_on_of_nodup_map set.nodup_ids hother hmem hid]

theorem ofServers_eq_ok_iff {servers : List (KeyServer suite)} {set : ServerSet suite} :
    ofServers servers = .ok set ↔ set.servers = servers := by
  unfold ofServers
  constructor
  · intro h
    split at h
    · split at h
      · cases h
      · cases h
        rfl
    · cases h
  · rintro rfl
    rw [dif_pos ⟨set.size_pos, set.size_le⟩]
    split
    · rename_i id hrepeated
      have hnone := (firstRepeated?_eq_none_iff [] _).2 ⟨set.nodup_ids, by simp⟩
      rw [hrepeated] at hnone
      cases hnone
    · rfl

/-- The public key of the server with an identifier. -/
def publicKey? (set : ServerSet suite) (id : ObjectId) : Option suite.G2 :=
  (set.find? id).map KeyServer.publicKey

theorem publicKey?_eq_some_iff {set : ServerSet suite} {id : ObjectId} {publicKey : suite.G2} :
    set.publicKey? id = some publicKey ↔
      ∃ server ∈ set.servers, server.id = id ∧ server.publicKey = publicKey := by
  simp only [publicKey?, Option.map_eq_some_iff, find?_eq_some_iff, and_assoc]

/-- The description of a server with its public key. -/
def Describes (info : ServerInfo) (server : KeyServer suite) : Prop :=
  server.id = info.id ∧ suite.decode2? info.publicKey = some server.publicKey

theorem mapM_decode_eq_ok_iff {infos : List ServerInfo} {servers : List (KeyServer suite)} :
    (infos.mapM fun info => do
      return (⟨info.id, ← Ibe.decode2 suite info.publicKey⟩ : KeyServer suite)) = .ok servers ↔
        List.Forall₂ Describes infos servers := by
  have hdescribes (info : ServerInfo) (server : KeyServer suite) :
      (do return (⟨info.id, ← Ibe.decode2 suite info.publicKey⟩ : KeyServer suite)) =
          Except.ok server ↔ Describes info server := by
    obtain ⟨id, publicKey⟩ := server
    simp only [Outcome.bind_eq_ok_iff, Ibe.decode2_eq_ok_iff, Outcome.pure_eq_ok, Except.ok.injEq,
      KeyServer.mk.injEq, Describes]
    constructor
    · rintro ⟨decoded, hdecode, rfl, rfl⟩
      exact ⟨rfl, hdecode⟩
    · rintro ⟨rfl, hdecode⟩
      exact ⟨publicKey, hdecode, rfl, rfl⟩
  simp only [Outcome.mapM_eq_ok_iff, hdescribes]

theorem ofInfos_eq_ok_iff {infos : List ServerInfo} {set : ServerSet suite} :
    ofInfos suite infos = .ok set ↔ List.Forall₂ Describes infos set.servers := by
  simp only [ofInfos, Outcome.bind_eq_ok_iff (f := ofServers), mapM_decode_eq_ok_iff,
    ofServers_eq_ok_iff]
  constructor
  · rintro ⟨servers, hservers, rfl⟩
    exact hservers
  · intro hservers
    exact ⟨set.servers, hservers, rfl⟩

/-- Where all public keys can be decoded, a list of descriptions is as good as the list of the
servers. -/
theorem ofInfos_of_describes {infos : List ServerInfo} {servers : List (KeyServer suite)}
    (h : List.Forall₂ Describes infos servers) : ofInfos suite infos = ofServers servers := by
  rw [ofInfos, mapM_decode_eq_ok_iff.2 h, Outcome.ok_bind]

theorem map_id_of_describes {infos : List ServerInfo} {servers : List (KeyServer suite)}
    (h : List.Forall₂ Describes infos servers) :
    servers.map KeyServer.id = infos.map ServerInfo.id := by
  induction h with
  | nil => rfl
  | cons hdescribes _ ih => rw [List.map_cons, List.map_cons, hdescribes.1, ih]

theorem exists_describes_of_mem {infos : List ServerInfo} {servers : List (KeyServer suite)}
    (h : List.Forall₂ Describes infos servers) {server : KeyServer suite}
    (hserver : server ∈ servers) : ∃ info ∈ infos, Describes info server :=
  Outcome.exists_item_of_mem h hserver

/-! ## Lists that are no sets -/

/-- What is wrong with the identifiers of a list that is no set: it has too few or too many of
them, or one of them is there for the second time, and none is before it. -/
inductive FaultOf (ids : List ObjectId) : InputFault → Prop where
  | count (hcount : ids.length = 0 ∨ 255 < ids.length) : FaultOf ids (.serverCount ids.length)
  | repeated {before after : List ObjectId} {id : ObjectId}
      (hcount : 0 < ids.length ∧ ids.length ≤ 255) (hids : ids = before ++ id :: after)
      (hbefore : before.Nodup) (hid : id ∈ before) : FaultOf ids (.repeatedServer id)

theorem firstRepeated?_eq_some_iff {α : Type} [DecidableEq α] {seen items : List α} {x : α} :
    firstRepeated? seen items = some x ↔
      ∃ before after, items = before ++ x :: after ∧ before.Nodup ∧ (∀ y ∈ before, y ∉ seen) ∧
        (x ∈ seen ∨ x ∈ before) := by
  induction items generalizing seen with
  | nil => simp [firstRepeated?]
  | cons first rest ih =>
      by_cases hfirst : first ∈ seen
      · rw [firstRepeated?, if_pos hfirst, Option.some.injEq]
        constructor
        · rintro rfl
          exact ⟨[], rest, rfl, List.nodup_nil, fun _ hmem => absurd hmem List.not_mem_nil,
            .inl hfirst⟩
        · rintro ⟨before, after, hitems, -, hseen, -⟩
          cases before with
          | nil => exact (List.cons.inj hitems).1
          | cons other before =>
              obtain ⟨rfl, -⟩ := List.cons.inj hitems
              exact absurd hfirst (hseen first List.mem_cons_self)
      · rw [firstRepeated?, if_neg hfirst, ih]
        constructor
        · rintro ⟨before, after, rfl, hnodup, hseen, hx⟩
          refine ⟨first :: before, after, rfl, List.nodup_cons.2 ⟨fun hmem => ?_, hnodup⟩, ?_, ?_⟩
          · exact hseen first hmem List.mem_cons_self
          · intro y hy
            rcases List.mem_cons.1 hy with rfl | hmem
            · exact hfirst
            · exact fun hold => hseen y hmem (List.mem_cons_of_mem _ hold)
          · rw [List.mem_cons, or_comm (a := x = first), or_assoc] at hx
            rwa [List.mem_cons]
        · rintro ⟨before, after, hitems, hnodup, hseen, hx⟩
          cases before with
          | nil =>
              obtain ⟨rfl, -⟩ := List.cons.inj hitems
              exact absurd (hx.resolve_right List.not_mem_nil) hfirst
          | cons other before =>
              obtain ⟨rfl, rfl⟩ := List.cons.inj hitems
              obtain ⟨hnew, hrest⟩ := List.nodup_cons.1 hnodup
              refine ⟨before, after, rfl, hrest, fun y hy hold => ?_, ?_⟩
              · rcases List.mem_cons.1 hold with rfl | hmem
                · exact hnew hy
                · exact hseen y (List.mem_cons_of_mem _ hy) hmem
              · rwa [List.mem_cons, or_comm (a := x = first), or_assoc, ← List.mem_cons]

theorem ofServers_eq_error_iff {servers : List (KeyServer suite)} {error : SealingError} :
    ofServers servers = .error error ↔
      ∃ fault, FaultOf (servers.map KeyServer.id) fault ∧ error = .invalidInput fault := by
  unfold ofServers
  constructor
  · intro h
    split at h
    · rename_i hcount
      split at h
      · rename_i id hrepeated
        cases h
        obtain ⟨before, after, hids, hbefore, -, hid⟩ := firstRepeated?_eq_some_iff.1 hrepeated
        rw [← List.length_map (f := KeyServer.id)] at hcount
        exact ⟨_, .repeated hcount hids hbefore (hid.resolve_left List.not_mem_nil), rfl⟩
      · cases h
    · rename_i hcount
      cases h
      rw [← List.length_map (f := KeyServer.id)] at hcount
      rw [← List.length_map (f := KeyServer.id)]
      exact ⟨_, .count (by omega), rfl⟩
  · rintro ⟨fault, hfault, rfl⟩
    cases hfault with
    | count hcount =>
        rw [List.length_map] at hcount
        rw [dif_neg (by omega), List.length_map]
    | repeated hcount hids hbefore hid =>
        rw [List.length_map] at hcount
        rw [dif_pos hcount]
        have hrepeated := firstRepeated?_eq_some_iff.2
          ⟨_, _, hids, hbefore, fun _ _ => List.not_mem_nil, .inr hid⟩
        split
        · rename_i id hother
          rw [hrepeated] at hother
          cases hother
          rfl
        · rename_i hnone
          rw [hrepeated] at hnone
          cases hnone

/-- A list of identifiers is that of a set, unless it is empty, too long or repeats one. -/
theorem exists_faultOf_iff {ids : List ObjectId} :
    (∃ fault, FaultOf ids fault) ↔ ids.length = 0 ∨ 255 < ids.length ∨ ¬ ids.Nodup := by
  constructor
  · rintro ⟨fault, hcount | ⟨-, rfl, -, hid⟩⟩
    · exact hcount.imp_right .inl
    · refine .inr (.inr fun hnodup => ?_)
      exact (List.nodup_append.1 hnodup).2.2 _ hid _ List.mem_cons_self rfl
  · intro h
    by_cases hcount : 0 < ids.length ∧ ids.length ≤ 255
    · cases hrepeated : firstRepeated? [] ids with
      | none =>
          have hnodup := ((firstRepeated?_eq_none_iff [] ids).1 hrepeated).1
          rcases h with hempty | hlong | hnot
          · omega
          · omega
          · exact absurd hnodup hnot
      | some id =>
          obtain ⟨before, after, hids, hbefore, -, hid⟩ := firstRepeated?_eq_some_iff.1 hrepeated
          exact ⟨_, .repeated hcount hids hbefore (hid.resolve_left List.not_mem_nil)⟩
    · exact ⟨_, .count (by omega)⟩

end ServerSet
end Quorum
