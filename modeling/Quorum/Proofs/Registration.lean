import Mathlib.Data.List.Infix
import Mathlib.Data.List.Nodup
import Quorum.Proofs.ServerList
import Quorum.Proofs.Writable

/-!
# The order of registration

A registration changes the first entry with its identifier, and appends an entry if there is
none.  So a sequence of registrations leaves one entry for each server, in the order in which the
servers were first registered, and each as it was registered last.

In files the entries are written and read back by every registration.  The first one can fail
only because no file can be written at the path; where the file is there, the next one cannot
fail.  A file that is no list of entries is refused and left as it is.
-/

namespace Quorum
namespace ServerList

variable {info : ServerInfo} {entries infos list : List ServerInfo} {path : String}
  {store after : FileStore}

/-! ## Registration in a list -/

/-- What a registration changes in a list of entries. -/
inductive Changed (info : ServerInfo) : (before after : List ServerInfo) → Prop where
  /-- No entry has the identifier. -/
  | appended {infos : List ServerInfo} (h : info.id ∉ infos.map ServerInfo.id) :
      Changed info infos (infos ++ [info])
  /-- The first entry that has the identifier is replaced. -/
  | replaced {front back : List ServerInfo} {old : ServerInfo} (hold : old.id = info.id)
      (hfront : info.id ∉ front.map ServerInfo.id) :
      Changed info (front ++ old :: back) (front ++ info :: back)

theorem changed_register (info : ServerInfo) (infos : List ServerInfo) :
    Changed info infos (register info infos) := by
  induction infos with
  | nil => exact .appended List.not_mem_nil
  | cons first rest ih =>
      rw [register]
      by_cases hfirst : first.id = info.id
      · rw [if_pos hfirst]
        exact @Changed.replaced info [] rest first hfirst List.not_mem_nil
      · have hcons {front : List ServerInfo} (h : info.id ∉ front.map ServerInfo.id) :
            info.id ∉ (first :: front).map ServerInfo.id := by
          rw [List.map_cons, List.mem_cons, not_or]
          exact ⟨Ne.symm hfirst, h⟩
        rw [if_neg hfirst]
        generalize register info rest = registered at ih
        cases ih with
        | appended h => exact @Changed.appended info (first :: rest) (hcons h)
        | @replaced front back old hold hfront =>
            exact @Changed.replaced info (first :: front) back old hold (hcons hfront)

/-- The list holds what has been registered: one entry for each server, the servers in the
order in which they were first registered, and each as it was registered last. -/
structure Lists (entries list : List ServerInfo) : Prop where
  nodup : (list.map ServerInfo.id).Nodup
  mem_iff : ∀ id, id ∈ list.map ServerInfo.id ↔ id ∈ entries.map ServerInfo.id
  ordered : (list.map ServerInfo.id).Pairwise fun a b =>
    (entries.map ServerInfo.id).idxOf a < (entries.map ServerInfo.id).idxOf b
  last : ∀ info ∈ list, ∃ earlier later, entries = earlier ++ info :: later ∧
    info.id ∉ later.map ServerInfo.id

namespace Lists

theorem nil : Lists [] [] where
  nodup := List.nodup_nil
  mem_iff _ := Iff.rfl
  ordered := .nil
  last _ h := absurd h List.not_mem_nil

/-- Servers that have been registered before keep their places. -/
theorem ordered_concat (h : Lists entries list) (info : ServerInfo) :
    (list.map ServerInfo.id).Pairwise fun a b =>
      ((entries ++ [info]).map ServerInfo.id).idxOf a <
        ((entries ++ [info]).map ServerInfo.id).idxOf b := by
  refine h.ordered.imp_of_mem fun {a b} ha hb hlt => ?_
  rw [List.map_append, List.idxOf_append_of_mem ((h.mem_iff a).1 ha),
    List.idxOf_append_of_mem ((h.mem_iff b).1 hb)]
  exact hlt

/-- An entry of another server is still the last one of its server. -/
theorem last_concat (h : Lists entries list) {other : ServerInfo} (hother : other ∈ list)
    (hne : other.id ≠ info.id) : ∃ earlier later, entries ++ [info] = earlier ++ other :: later ∧
      other.id ∉ later.map ServerInfo.id := by
  obtain ⟨earlier, later, rfl, hlater⟩ := h.last other hother
  refine ⟨earlier, later ++ [info], by simp, ?_⟩
  rw [List.map_append, List.mem_append, not_or]
  exact ⟨hlater, by simpa using hne⟩

theorem last_self (entries : List ServerInfo) (info : ServerInfo) :
    ∃ earlier later, entries ++ [info] = earlier ++ info :: later ∧
      info.id ∉ later.map ServerInfo.id :=
  ⟨entries, [], rfl, List.not_mem_nil⟩

/-- A further registration. -/
theorem changed (h : Lists entries infos) (hchanged : Changed info infos list) :
    Lists (entries ++ [info]) list := by
  cases hchanged with
  | appended hnew =>
      have hids : (infos ++ [info]).map ServerInfo.id = infos.map ServerInfo.id ++ [info.id] :=
        List.map_append
      have hentries : info.id ∉ entries.map ServerInfo.id := fun hmem =>
        hnew ((h.mem_iff info.id).2 hmem)
      refine ⟨?_, fun id => ?_, ?_, fun other hother => ?_⟩
      · rw [hids, List.nodup_append]
        refine ⟨h.nodup, List.nodup_singleton _, fun a ha b hb => ?_⟩
        obtain rfl := List.mem_singleton.1 hb
        exact ne_of_mem_of_not_mem ha hnew
      · rw [hids, List.map_append, List.mem_append, List.mem_append, h.mem_iff]
        rfl
      · rw [hids, List.pairwise_append]
        refine ⟨h.ordered_concat info, List.pairwise_singleton _ _, fun a ha b hb => ?_⟩
        -- The new server comes after all those that have been registered before.
        obtain rfl := List.mem_singleton.1 hb
        have ha' := (h.mem_iff a).1 ha
        rw [List.map_append, List.idxOf_append_of_mem ha', List.idxOf_append_of_notMem hentries]
        exact Nat.lt_add_right _ (List.idxOf_lt_length_of_mem ha')
      · rcases List.mem_append.1 hother with hother | hother
        · refine h.last_concat hother (ne_of_mem_of_not_mem (List.mem_map_of_mem hother) hnew)
        · obtain rfl := List.mem_singleton.1 hother
          exact last_self entries other
  | @replaced front back old hold hfront =>
      have hids : (front ++ info :: back).map ServerInfo.id =
          (front ++ old :: back).map ServerInfo.id := by
        simp [hold]
      have hmem : info.id ∈ (front ++ old :: back).map ServerInfo.id := by
        simp [hold]
      -- The replaced entry was the only one with its identifier.
      have hothers : ∀ other ∈ front ++ back, other.id ≠ info.id := by
        have hnodup := h.nodup
        rw [List.map_append, List.map_cons, List.nodup_middle, List.nodup_cons,
          ← List.map_append, hold] at hnodup
        exact fun other hother => ne_of_mem_of_not_mem (List.mem_map_of_mem hother) hnodup.1
      refine ⟨hids ▸ h.nodup, fun id => ?_, hids ▸ h.ordered_concat info, fun other hother => ?_⟩
      · rw [hids, h.mem_iff, List.map_append, List.mem_append]
        refine (or_iff_left_of_imp fun hid => ?_).symm
        obtain rfl := List.mem_singleton.1 hid
        exact (h.mem_iff _).1 hmem
      · by_cases hself : other = info
        · rw [hself]
          exact last_self entries info
        · have hother' : other ∈ front ++ back := by
            rw [List.mem_append, List.mem_cons] at hother
            rw [List.mem_append]
            exact hother.imp_right fun h => h.resolve_left hself
          refine h.last_concat ?_ (hothers other hother')
          rw [List.mem_append] at hother' ⊢
          exact hother'.imp_right (List.mem_cons_of_mem old)

theorem register (h : Lists entries infos) (info : ServerInfo) :
    Lists (entries ++ [info]) (ServerList.register info infos) :=
  h.changed (changed_register info infos)

end Lists

/-! ## Registration in a file -/

/-- A file that is no list of entries is not loaded. -/
theorem exists_run_load_eq_error (hpresent : store.contains path = true)
    (h : ∀ infos, ¬ FileAccess.Holds ServerInfo.listOfJson? path infos store) :
    ∃ error, (load (m := StateM FileStore) path).run.run store = (.error error, store) := by
  rw [load, Outcome.run_bind_of_ok (run_isPresent path store), hpresent]
  exact FileAccess.exists_run_loadJson_eq_error h

/-- Whatever the file was before, it holds the list that a registration gives. -/
theorem holds_of_run_update
    (h : (update (m := StateM FileStore) path info).run.run store = (.ok list, after)) :
    FileAccess.Holds ServerInfo.listOfJson? path list after := by
  obtain ⟨infos, loaded, -, h⟩ := Outcome.run_bind_eq_ok_iff.1 h
  obtain ⟨_, stored, hstore, hreturn⟩ := Outcome.run_bind_eq_ok_iff.1 h
  obtain ⟨rfl, rfl⟩ := Outcome.run_pure_eq_ok_iff.1 hreturn
  exact FileAccess.holds_of_run_storeJson hstore (ServerInfo.parse?_pretty_listToJson _)

/-- Where a file can be written, a registration in a list that can be loaded succeeds. -/
theorem exists_run_update
    (hload : (load (m := StateM FileStore) path).run.run store = (.ok infos, store))
    (hwritable : store.Writable path) (info : ServerInfo) : ∃ after,
      (update (m := StateM FileStore) path info).run.run store =
        (.ok (register info infos), after) := by
  obtain ⟨after, hstore⟩ := FileAccess.exists_run_storeJson_iff.2 hwritable
  refine ⟨after, ?_⟩
  rw [update, Outcome.run_bind_of_ok hload, Outcome.run_bind_of_ok hstore]
  rfl

theorem lists_ofEntries (entries : List ServerInfo) : Lists entries (ofEntries entries) := by
  induction entries using List.reverseRecOn with
  | nil => exact .nil
  | append_singleton entries info ih =>
      rw [ofEntries_concat]
      exact ih.register info

/-- The beginnings of a sequence, but the empty one. -/
theorem tail_inits_concat (entries : List ServerInfo) (info : ServerInfo) :
    (entries ++ [info]).inits.tail = entries.inits.tail ++ [entries ++ [info]] := by
  have hne : entries.inits ≠ [] := List.ne_nil_of_mem ((List.mem_inits _ _).2 List.nil_prefix)
  rw [List.inits_append, List.tail_append_of_ne_nil hne]
  rfl

/-- Where a file can be written that is absent at first, all registrations of a sequence succeed,
and each gives the list of the entries that have been registered so far. -/
theorem exists_run_mapM_update (habsent : store.contains path = false)
    (hwritable : store.Writable path) (entries : List ServerInfo) : ∃ after,
      (entries.mapM (update (m := StateM FileStore) path)).run.run store =
        (.ok (entries.inits.tail.map ofEntries), after) ∧
      (load (m := StateM FileStore) path).run.run after = (.ok (ofEntries entries), after) ∧
      after.Writable path := by
  induction entries using List.reverseRecOn with
  | nil => exact ⟨store, rfl, run_load_of_absent habsent, hwritable⟩
  | append_singleton entries info ih =>
      obtain ⟨middle, hrun, hload, hwritable⟩ := ih
      obtain ⟨after, hupdate⟩ := exists_run_update hload hwritable info
      have hholds := holds_of_run_update hupdate
      refine ⟨after, ?_, ?_, hholds.writable⟩
      · rw [Outcome.run_mapM_concat hrun hupdate, ← ofEntries_concat, tail_inits_concat, List.map_append]
        rfl
      · rw [ofEntries_concat]
        exact run_load_of_holds hholds

/-- In a file that is absent at first, every sequence of registrations leaves one entry for each
server, in the order in which the servers were first registered, and each as it was registered
last; every registration gives the list that is loaded after it.  A registration in a list that
is there changes the first entry with its identifier or appends one.  A file that holds no list
is not changed. -/
theorem update_keeps_order (path : String) :
    (∀ store : FileStore, store.contains path = false → store.Writable path →
      ∀ entries : List ServerInfo, ∃ after,
        (entries.mapM (update (m := StateM FileStore) path)).run.run store =
          (.ok (entries.inits.tail.map ofEntries), after) ∧
        (load (m := StateM FileStore) path).run.run after = (.ok (ofEntries entries), after) ∧
        Lists entries (ofEntries entries)) ∧
    (∀ (store : FileStore) (info : ServerInfo) (list : List ServerInfo) (after : FileStore),
      (update (m := StateM FileStore) path info).run.run store = (.ok list, after) →
        (load (m := StateM FileStore) path).run.run after = (.ok list, after)) ∧
    (∀ (store : FileStore) (infos : List ServerInfo),
      FileAccess.Holds ServerInfo.listOfJson? path infos store → ∀ info, ∃ list after,
        (update (m := StateM FileStore) path info).run.run store = (.ok list, after) ∧
          Changed info infos list) ∧
    ∀ store : FileStore, store.contains path = true →
      (∀ infos, ¬ FileAccess.Holds ServerInfo.listOfJson? path infos store) → ∀ info, ∃ error,
        (update (m := StateM FileStore) path info).run.run store = (.error error, store) := by
  refine ⟨fun store habsent hwritable entries => ?_, fun store info list after hrun => ?_,
    fun store infos hholds info => ?_, fun store hpresent hnone info => ?_⟩
  · obtain ⟨after, hrun, hload, -⟩ := exists_run_mapM_update habsent hwritable entries
    exact ⟨after, hrun, hload, lists_ofEntries entries⟩
  · exact run_load_of_holds (holds_of_run_update hrun)
  · obtain ⟨after, hrun⟩ := exists_run_update (run_load_of_holds hholds) hholds.writable info
    exact ⟨_, after, hrun, changed_register info infos⟩
  · obtain ⟨error, hload⟩ := exists_run_load_eq_error hpresent hnone
    exact ⟨error, Outcome.run_bind_eq_error_iff.2 (.inl hload)⟩

open FileStore in
/-- Two servers of which the first one is registered again; a file that lists a server twice, which
no registration does; and a file that is cut off. -/
theorem update_keeps_order_registered_again :
    let entry (id : ObjectId) (name : String) : ServerInfo :=
      ⟨id, name, "http://" ++ name, Bytes.zero 96⟩
    let a := entry (ObjectId.ofNat 1) "a"
    let b := entry (ObjectId.ofNat 2) "b"
    let again := entry (ObjectId.ofNat 1) "a2"
    let twice := flat (Table.empty.insert ["s"] (utf8 (ServerInfo.listToJson [b, a, a]).pretty))
    let broken := flat (Table.empty.insert ["s"] (utf8 "["))
    (∃ after,
      ([a, b, again].mapM (update (m := StateM FileStore) "s")).run.run (flat Table.empty) =
        (.ok [[a], [a, b], [again, b]], after) ∧
      (load (m := StateM FileStore) "s").run.run after = (.ok [again, b], after) ∧
      Lists [a, b, again] [again, b]) ∧
    (∃ list after, (update (m := StateM FileStore) "s" again).run.run twice = (.ok list, after) ∧
      Changed again [b, a, a] list ∧
      (load (m := StateM FileStore) "s").run.run after = (.ok list, after)) ∧
    broken.contains "s" = true ∧
    ∃ error, (update (m := StateM FileStore) "s" again).run.run broken =
      (.error error, broken) := by
  intro entry a b again twice broken
  have hplain : Plain "s" := by decide +kernel
  obtain ⟨hsequence, hloaded, hexisting, hrefused⟩ := update_keeps_order "s"
  have hread (contents : List UInt8) :
      (flat (Table.empty.insert ["s"] contents)).read "s" = .ok contents := by
    refine read_flat hplain ?_
    rw [Table.get?_insert, if_pos rfl]
  have htwice : FileAccess.Holds ServerInfo.listOfJson? "s" [b, a, a] twice :=
    FileAccess.holds_of_read (hread _) (ServerInfo.parse?_pretty_listToJson _)
  have hpresent : broken.contains "s" = true := contains_of_read (hread _)
  have hbroken : ∀ infos, ¬ FileAccess.Holds ServerInfo.listOfJson? "s" infos broken := by
    rintro infos ⟨contents, text, hcontents, htext, hvalue⟩
    cases (hread _).symm.trans hcontents
    cases (ofUtf8?_utf8 _).symm.trans htext
    have hparse : Json.parse? "[" = none := by decide +kernel
    rw [hparse] at hvalue
    cases hvalue
  obtain ⟨list, after, hrun, hchanged⟩ := hexisting twice _ htwice again
  refine ⟨?_, ⟨list, after, hrun, hchanged, hloaded _ _ _ _ hrun⟩, hpresent,
    hrefused broken hpresent hbroken again⟩
  exact hsequence (flat Table.empty) (contains_flat_of_none hplain rfl) (hplain.writable _)
    [a, b, again]

end ServerList
end Quorum
