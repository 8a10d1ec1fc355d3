import Quorum.FileStore
import Quorum.KeyFile
import Quorum.Proofs.FileStore
import Quorum.Proofs.Outcome
import Quorum.Proofs.Text

/-!
# Reading leaves all files as they are

A step that only reads ends in the store in which it began, whether it gives a result or an
error.  So do sequences of such steps, and with them the reading of text, of JSON values and
of key files.

What is read is what the file holds, and after a step that writes it holds what was written.  A
file holds a value if its text is one of the JSON texts for this value, and only such a value is
loaded from it.
-/

namespace Quorum

variable {σ ε α β : Type}

/-- A step ends in the state in which it began. -/
def ReadOnly (x : ExceptT ε (StateM σ) α) : Prop := ∀ s, (x.run.run s).2 = s

namespace ReadOnly

/-- A result that is known is given without asking for the state. -/
theorem known (result : Except ε α) : ReadOnly (σ := σ) (ExceptT.mk (Pure.pure result)) :=
  fun _ => rfl

theorem bind {x : ExceptT ε (StateM σ) α} {f : α → ExceptT ε (StateM σ) β} (hx : ReadOnly x)
    (hf : ∀ a, ReadOnly (f a)) : ReadOnly (x >>= f) := by
  intro s
  have hstate := hx s
  rw [ExceptT.run_bind, StateT.run_bind]
  rcases hrun : x.run.run s with ⟨error | a, s'⟩
  · rw [hrun] at hstate
    exact hstate
  · rw [hrun] at hstate
    obtain rfl : s' = s := hstate
    exact hf a s'

/-- Steps that only read all start in the same state, so they succeed exactly if each of them
does there. -/
theorem run_mapM_eq_ok_iff {f : α → ExceptT ε (StateM σ) β} (hf : ∀ item, ReadOnly (f item))
    {items : List α} {results : List β} {s s' : σ} :
    (items.mapM f).run.run s = (.ok results, s') ↔
      List.Forall₂ (fun item result => ((f item).run.run s).1 = .ok result) items results ∧
        s' = s := by
  induction items generalizing results s' with
  | nil =>
      rw [List.mapM_nil, Outcome.run_pure_eq_ok_iff, List.forall₂_nil_left_iff]
  | cons item rest ih =>
      rw [List.mapM_cons, Outcome.run_bind_eq_ok_iff, List.forall₂_cons_left_iff]
      constructor
      · rintro ⟨first, middle, hfirst, hrest⟩
        obtain rfl : middle = s := (congrArg Prod.snd hfirst).symm.trans (hf item s)
        obtain ⟨others, _, hothers, hreturn⟩ := Outcome.run_bind_eq_ok_iff.1 hrest
        obtain ⟨hresults, rfl⟩ := ih.1 hothers
        obtain ⟨rfl, rfl⟩ := Outcome.run_pure_eq_ok_iff.1 hreturn
        exact ⟨⟨first, others, congrArg Prod.fst hfirst, hresults, rfl⟩, rfl⟩
      · rintro ⟨⟨first, others, hfirst, hresults, rfl⟩, rfl⟩
        refine ⟨first, s', Prod.ext hfirst (hf item s'), ?_⟩
        rw [Outcome.run_bind_of_ok (ih.2 ⟨hresults, rfl⟩)]
        rfl

end ReadOnly

namespace FileAccess

theorem run_load (kind : FileKind) (path : String) (store : FileStore) :
    (load (m := StateM FileStore) kind path).run.run store =
      (match store.read path with
        | .ok contents => .ok contents
        | .error _ => .error (.unreadable kind path), store) := by
  change (match store.read path with
    | .ok contents => _
    | .error _ => _ : ExceptT DocumentError (StateM FileStore) _).run.run store = _
  cases store.read path with
  | ok contents => rfl
  | error fault => rfl

theorem readOnly_load (kind : FileKind) (path : String) :
    ReadOnly (load (m := StateM FileStore) kind path) := by
  intro store
  rw [run_load]

theorem readOnly_loadText (kind : FileKind) (path : String) :
    ReadOnly (loadText (m := StateM FileStore) kind path) := by
  refine (readOnly_load kind path).bind fun contents => ?_
  split
  · exact .known (.ok _)
  · exact .known (.error _)

theorem readOnly_loadJson (kind : FileKind) (ofJson? : Json → Option α) (path : String) :
    ReadOnly (loadJson (m := StateM FileStore) kind ofJson? path) := by
  refine (readOnly_loadText kind path).bind fun text => ?_
  split
  · exact .known (.ok _)
  · exact .known (.error _)

/-! ## What is read and written -/

variable {kind : FileKind} {before after : FileStore} {path text : String}
  {contents : List UInt8} {ofJson? : Json → Option α} {value : α}

theorem run_load_eq_ok_iff : (load (m := StateM FileStore) kind path).run.run before =
    (.ok contents, after) ↔ before.read path = .ok contents ∧ after = before := by
  rw [run_load, Prod.mk.injEq, @eq_comm _ before]
  cases before.read path with
  | error fault => simp
  | ok read => simp

theorem run_loadText_eq_ok_iff :
    (loadText (m := StateM FileStore) kind path).run.run before = (.ok text, after) ↔
      (∃ contents, before.read path = .ok contents ∧ ofUtf8? contents = some text) ∧
        after = before := by
  constructor
  · intro h
    obtain ⟨contents, middle, hload, hreturn⟩ := Outcome.run_bind_eq_ok_iff.1 h
    obtain ⟨hread, rfl⟩ := run_load_eq_ok_iff.1 hload
    cases htext : ofUtf8? contents with
    | none =>
        rw [htext] at hreturn
        exact absurd hreturn Outcome.run_throw_ne_ok
    | some read =>
        rw [htext] at hreturn
        obtain ⟨rfl, rfl⟩ := Outcome.run_pure_eq_ok_iff.1 hreturn
        exact ⟨⟨contents, hread, htext⟩, rfl⟩
  · rintro ⟨⟨contents, hread, htext⟩, rfl⟩
    rw [loadText, Outcome.run_bind_of_ok (run_load_eq_ok_iff.2 ⟨hread, rfl⟩)]
    simp only [htext]
    rfl

/-- The file at a path holds a value, in whatever way the value is written in JSON. -/
def Holds (ofJson? : Json → Option α) (path : String) (value : α) (store : FileStore) : Prop :=
  ∃ contents text, store.read path = .ok contents ∧ ofUtf8? contents = some text ∧
    (Json.parse? text).bind ofJson? = some value

/-- A value is loaded exactly if the file holds it. -/
theorem run_loadJson_eq_ok_iff :
    (loadJson (m := StateM FileStore) kind ofJson? path).run.run before = (.ok value, after) ↔
      Holds ofJson? path value before ∧ after = before := by
  constructor
  · intro h
    obtain ⟨text, middle, hload, hreturn⟩ := Outcome.run_bind_eq_ok_iff.1 h
    obtain ⟨⟨contents, hread, htext⟩, rfl⟩ := run_loadText_eq_ok_iff.1 hload
    cases hvalue : (Json.parse? text).bind ofJson? with
    | none =>
        rw [hvalue] at hreturn
        exact absurd hreturn Outcome.run_throw_ne_ok
    | some found =>
        rw [hvalue] at hreturn
        obtain ⟨rfl, rfl⟩ := Outcome.run_pure_eq_ok_iff.1 hreturn
        exact ⟨⟨contents, text, hread, htext, hvalue⟩, rfl⟩
  · rintro ⟨⟨contents, text, hread, htext, hvalue⟩, rfl⟩
    rw [loadJson, Outcome.run_bind_of_ok
      (run_loadText_eq_ok_iff.2 ⟨⟨contents, hread, htext⟩, rfl⟩)]
    simp only [hvalue]
    rfl

/-- What a file does not hold is not loaded. -/
theorem exists_run_loadJson_eq_error (h : ∀ value, ¬ Holds ofJson? path value before) :
    ∃ error, (loadJson (m := StateM FileStore) kind ofJson? path).run.run before =
      (.error error, before) := by
  have hstate := readOnly_loadJson kind ofJson? path before
  rcases hrun : (loadJson (m := StateM FileStore) kind ofJson? path).run.run before with
    ⟨error | value, after⟩
  · rw [hrun] at hstate
    exact ⟨error, Prod.ext rfl hstate⟩
  · exact absurd (run_loadJson_eq_ok_iff.1 hrun).1 (h value)

/-- A file that holds something, but nothing of the form asked for. -/
theorem run_loadJson_eq_notJson {other : Json → Option β} {held : β}
    (hheld : Holds other path held before) (h : ∀ value, ¬ Holds ofJson? path value before) :
    (loadJson (m := StateM FileStore) kind ofJson? path).run.run before =
      (.error .notJson, before) := by
  obtain ⟨contents, text, hread, htext, -⟩ := hheld
  rw [loadJson, Outcome.run_bind_of_ok
    (run_loadText_eq_ok_iff.2 ⟨⟨contents, hread, htext⟩, rfl⟩)]
  cases hvalue : (Json.parse? text).bind ofJson? with
  | none => rfl
  | some value => exact absurd ⟨contents, text, hread, htext, hvalue⟩ (h value)

theorem run_load_of_read (h : before.read path = .ok contents) (kind : FileKind) :
    (load (m := StateM FileStore) kind path).run.run before = (.ok contents, before) :=
  run_load_eq_ok_iff.2 ⟨h, rfl⟩

theorem run_loadText_of_read (h : before.read path = .ok (utf8 text)) (kind : FileKind) :
    (loadText (m := StateM FileStore) kind path).run.run before = (.ok text, before) :=
  run_loadText_eq_ok_iff.2 ⟨⟨_, h, ofUtf8?_utf8 text⟩, rfl⟩

theorem holds_of_read (h : before.read path = .ok (utf8 text))
    (hvalue : (Json.parse? text).bind ofJson? = some value) :
    Holds ofJson? path value before :=
  ⟨_, _, h, ofUtf8?_utf8 text, hvalue⟩

theorem run_writeFile {later : FileStore} {result : Except FileFault Unit}
    (h : writeFile (m := StateM FileStore) path contents before = (result, later)) :
    (writeFile (m := ExceptT DocumentError (StateM FileStore)) path contents).run.run before =
      (.ok result, later) := by
  change (fun written : Except FileFault Unit × FileStore => (Except.ok written.1, written.2))
    (writeFile (m := StateM FileStore) path contents before) = _
  rw [h]

theorem run_store_eq_ok_iff : (store (m := StateM FileStore) path contents).run.run before =
    (.ok (), after) ↔ before.write path contents = .ok after := by
  cases h : before.write path contents with
  | ok later =>
      have hwrite : writeFile (m := StateM FileStore) path contents before = (.ok (), later) := by
        simp only [writeFile, h]
      rw [store, Outcome.run_bind_of_ok (run_writeFile hwrite), Outcome.run_pure_eq_ok_iff]
      simp [eq_comm]
  | error fault =>
      have hwrite : writeFile (m := StateM FileStore) path contents before =
          (.error fault, before) := by
        simp only [writeFile, h]
      rw [store, Outcome.run_bind_of_ok (run_writeFile hwrite)]
      exact iff_of_false Outcome.run_throw_ne_ok (by simp)

theorem read_of_run_storeJson {json : Json}
    (h : (storeJson (m := StateM FileStore) path json).run.run before = (.ok (), after)) :
    after.read path = .ok (utf8 json.pretty) := by
  -- Whatever folders are created before, the last step writes the file.
  have hlast : ∃ middle,
      (store (m := StateM FileStore) path (utf8 json.pretty)).run.run middle = (.ok (), after) := by
    unfold storeJson at h
    dsimp only at h
    split at h
    · obtain ⟨created, middle, -, hnext⟩ := Outcome.run_bind_eq_ok_iff.1 h
      cases created with
      | ok _ => exact ⟨middle, hnext⟩
      | error fault =>
          obtain ⟨_, _, hthrow, -⟩ := Outcome.run_bind_eq_ok_iff.1 hnext
          exact absurd hthrow Outcome.run_throw_ne_ok
    · exact ⟨before, h⟩
  obtain ⟨middle, hstore⟩ := hlast
  exact FileStore.read_write (run_store_eq_ok_iff.1 hstore)

theorem run_storeJson_of_write {json : Json} (hfolder : Path.folder path = "")
    (hwrite : before.write path (utf8 json.pretty) = .ok after) :
    (storeJson (m := StateM FileStore) path json).run.run before = (.ok (), after) := by
  have hnone : ¬ Path.folder path ≠ "" := not_not.2 hfolder
  unfold storeJson
  dsimp only
  rw [if_neg hnone]
  exact run_store_eq_ok_iff.2 hwrite

end FileAccess

theorem KeyFile.readOnly_load (suite : PairingSuite) (path : String) :
    ReadOnly (load (m := StateM FileStore) suite path) :=
  (FileAccess.readOnly_loadJson _ _ _).bind fun _ => .bind (.known _) fun _ => .known (.ok _)

end Quorum
