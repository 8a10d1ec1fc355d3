import Quorum.Directory
import Quorum.Proofs.ServerSet
import Quorum.Proofs.Table

/-!
# Verifying key servers step by step

The directory and the servers are asked one after the other, and each may answer differently
the next time: what is asked of them is a step of a state.  Verification succeeds exactly if
every step does, and gives the descriptions in the order of the identifiers.

Where the answers do not depend on a state, as in a directory that is held in memory, this is
a statement about each identifier by itself.
-/

namespace Quorum
namespace Verification

open Outcome

variable {σ : Type} {suite : PairingSuite}
  {resolve : ObjectId → StateM σ (Except RequestFailure ServerInfo)}
  {prove : String → StateM σ Answer} {id : ObjectId} {ids : List ObjectId} {info : ServerInfo}
  {infos : List ServerInfo} {s s' : σ}

variable (suite) in
/-- The encoding of a proof for the key, the identifier and the address of a description. -/
def Proves (info : ServerInfo) (proof : Bytes 48) : Prop :=
  ∃ publicKey x, suite.decode2? info.publicKey = some publicKey ∧
    suite.decode1? proof = some x ∧
      Ibe.verifyPossession suite publicKey info.id info.url x = .ok ()

variable (suite resolve prove) in
/-- In the state `s` the directory gives a description with the identifier that it is asked
for; the server that is described answers next, with a proof, and leaves the state `s'`. -/
def Verified (id : ObjectId) (s : σ) (info : ServerInfo) (s' : σ) : Prop :=
  ∃ middle proof, (resolve id).run s = (.ok info, middle) ∧ info.id = id ∧
    (prove info.url).run middle = (.ok proof, s') ∧ Proves suite info proof

theorem proves_iff {proof : Bytes 48} {publicKey : suite.G2}
    (hdecode : Ibe.decode2 suite info.publicKey = .ok publicKey) :
    Proves suite info proof ↔ (Ibe.decode1 suite proof).bind
      (Ibe.verifyPossession suite publicKey info.id info.url) = .ok () := by
  have hiff : (Ibe.decode1 suite proof >>= Ibe.verifyPossession suite publicKey info.id info.url) =
      .ok () ↔ Proves suite info proof := by
    simp only [Outcome.bind_eq_ok_iff, Ibe.decode1_eq_ok_iff, Proves,
      Ibe.decode2_eq_ok_iff.1 hdecode, Option.some.injEq, exists_and_left, exists_eq_left']
  exact hiff.symm

theorem run_verifyServer_eq_ok_iff :
    (verifyServer suite resolve prove id).run.run s = (.ok info, s') ↔
      Verified suite resolve prove id s info s' := by
  unfold verifyServer
  simp only [run_bind_eq_ok_iff, run_check_eq_ok_iff, not_not, Verified]
  constructor
  · rintro ⟨info, middle, hresolve, hid, proof, after, hprove, hcheck⟩
    -- What is left is decided without asking anybody.
    split at hcheck
    · exact absurd hcheck run_throw_ne_ok
    · rename_i publicKey hdecode
      split at hcheck
      · exact absurd hcheck run_throw_ne_ok
      · rename_i hproof
        obtain ⟨rfl, rfl⟩ := run_pure_eq_ok_iff.1 hcheck
        exact ⟨middle, proof, hresolve, hid, hprove, (proves_iff hdecode).2 hproof⟩
  · rintro ⟨middle, proof, hresolve, hid, hprove, hproof⟩
    have ⟨publicKey, _, hkey, _⟩ := hproof
    have hdecode := Ibe.decode2_eq_ok_iff.2 hkey
    refine ⟨info, middle, hresolve, hid, proof, s', hprove, ?_⟩
    rw [hdecode]
    simp only [(proves_iff hdecode).1 hproof]
    exact run_pure_eq_ok_iff.2 ⟨rfl, rfl⟩

variable (suite resolve prove) in
/-- Identifiers are verified one after the other, each in the state that the one before it has
left. -/
inductive VerifiedAll : List ObjectId → σ → List ServerInfo → σ → Prop where
  | nil {s : σ} : VerifiedAll [] s [] s
  | cons {id : ObjectId} {ids : List ObjectId} {info : ServerInfo} {infos : List ServerInfo}
      {s middle s' : σ} (hfirst : Verified suite resolve prove id s info middle)
      (hrest : VerifiedAll ids middle infos s') : VerifiedAll (id :: ids) s (info :: infos) s'

theorem verifiedAll_cons_iff :
    VerifiedAll suite resolve prove (id :: ids) s infos s' ↔
      ∃ info middle rest, Verified suite resolve prove id s info middle ∧
        VerifiedAll suite resolve prove ids middle rest s' ∧ infos = info :: rest := by
  constructor
  · rintro (_ | ⟨hfirst, hrest⟩)
    exact ⟨_, _, _, hfirst, hrest, rfl⟩
  · rintro ⟨info, middle, rest, hfirst, hrest, rfl⟩
    exact .cons hfirst hrest

theorem run_verifyServers_eq_ok_iff :
    (verifyServers suite resolve prove ids).run.run s = (.ok infos, s') ↔
      VerifiedAll suite resolve prove ids s infos s' := by
  -- The rest is verified in the state that the first server has left.
  induction ids generalizing s infos s' with
  | nil =>
      rw [verifyServers, run_pure_eq_ok_iff]
      constructor
      · rintro ⟨rfl, rfl⟩
        exact .nil
      · rintro ⟨⟩
        exact ⟨rfl, rfl⟩
  | cons id rest ih =>
      simp only [verifyServers, run_bind_eq_ok_iff, run_verifyServer_eq_ok_iff, ih,
        run_pure_eq_ok_iff, verifiedAll_cons_iff]
      constructor
      · rintro ⟨info, middle, hfirst, infos, _, hrest, rfl, rfl⟩
        exact ⟨info, middle, infos, hfirst, hrest, rfl⟩
      · rintro ⟨info, middle, infos, hfirst, hrest, rfl⟩
        exact ⟨info, middle, hfirst, infos, s', hrest, rfl, rfl⟩

/-- A set is made of all that have been verified, in the order of their identifiers. -/
theorem run_verifiedSet_eq_ok_iff {set : ServerSet suite} :
    (verifiedSet suite resolve prove ids).run.run s = (.ok set, s') ↔
      ∃ infos, VerifiedAll suite resolve prove ids s infos s' ∧
        List.Forall₂ ServerSet.Describes infos set.servers := by
  simp only [verifiedSet, run_bind_eq_ok_iff, run_verifyServers_eq_ok_iff,
    ← ServerSet.ofInfos_eq_ok_iff]
  constructor
  · rintro ⟨infos, middle, hinfos, hset⟩
    split at hset
    · exact absurd hset run_throw_ne_ok
    · rename_i hofInfos
      obtain ⟨rfl, rfl⟩ := run_pure_eq_ok_iff.1 hset
      exact ⟨infos, hinfos, hofInfos⟩
  · rintro ⟨infos, hinfos, hofInfos⟩
    refine ⟨infos, s', hinfos, ?_⟩
    rw [hofInfos]
    exact run_pure_eq_ok_iff.2 ⟨rfl, rfl⟩

theorem VerifiedAll.map_id (h : VerifiedAll suite resolve prove ids s infos s') :
    infos.map ServerInfo.id = ids := by
  induction h with
  | nil => rfl
  | cons hfirst _ ih =>
      obtain ⟨_, _, _, hid, _⟩ := hfirst
      rw [List.map_cons, hid, ih]

theorem VerifiedAll.exists_verified_of_mem (h : VerifiedAll suite resolve prove ids s infos s')
    (hinfo : info ∈ infos) :
    ∃ before after, Verified suite resolve prove info.id before info after := by
  induction h with
  | nil => cases hinfo
  | cons hfirst _ ih =>
      rcases List.mem_cons.1 hinfo with rfl | hrest
      · obtain ⟨middle, proof, hresolve, rfl, hproof⟩ := hfirst
        exact ⟨_, _, middle, proof, hresolve, rfl, hproof⟩
      · exact ih hrest

/-! ## Answers that do not depend on a state -/

/-- An action has the same outcome in every state, and leaves the state as it is. -/
def Constant {α : Type} (x : ExceptT RequestFailure (StateM σ) α)
    (outcome : ExceptT RequestFailure Id α) : Prop :=
  ∀ s, x.run.run s = (outcome.run, s)

namespace Constant

variable {α β : Type}

theorem pure (a : α) : Constant (σ := σ) (Pure.pure a) (Pure.pure a) := fun _ => rfl

theorem throw (failure : RequestFailure) :
    Constant (σ := σ) (α := α) (MonadExcept.throw failure) (MonadExcept.throw failure) :=
  fun _ => rfl

theorem bind {x : ExceptT RequestFailure (StateM σ) α} {y : ExceptT RequestFailure Id α}
    {f : α → ExceptT RequestFailure (StateM σ) β} {g : α → ExceptT RequestFailure Id β}
    (hx : Constant x y) (hf : ∀ a, Constant (f a) (g a)) : Constant (x >>= f) (y >>= g) := by
  intro s
  rw [ExceptT.run_bind, StateT.run_bind, hx s, ExceptT.run_bind]
  rcases y.run with failure | a
  · rfl
  · exact hf a s

end Constant

section

variable {resolve : ObjectId → Except RequestFailure ServerInfo} {prove : String → Answer}

theorem constant_verifyServer (id : ObjectId) :
    Constant (σ := σ)
      (verifyServer suite (fun id => pure (resolve id)) (fun url => pure (prove url)) id)
      (verifyServer suite (m := Id) resolve prove id) := by
  refine .bind (fun _ => rfl) fun info => ?_
  -- The steps after the check are joined on both of its sides.
  dsimp only
  by_cases hid : info.id ≠ id
  · rw [if_pos hid, if_pos hid]
    exact fun _ => rfl
  · rw [if_neg hid, if_neg hid]
    refine .bind (fun _ => rfl) fun proof => ?_
    split
    · exact .throw _
    · split
      · exact .throw _
      · exact .pure _

theorem constant_verifyServers (ids : List ObjectId) :
    Constant (σ := σ)
      (verifyServers suite (fun id => pure (resolve id)) (fun url => pure (prove url)) ids)
      (verifyServers suite (m := Id) resolve prove ids) := by
  induction ids with
  | nil => exact .pure _
  | cons id rest ih =>
      exact .bind (constant_verifyServer id) fun info => .bind ih fun infos => .pure _

theorem constant_verifiedSet (ids : List ObjectId) :
    Constant (σ := σ)
      (verifiedSet suite (fun id => pure (resolve id)) (fun url => pure (prove url)) ids)
      (verifiedSet suite (m := Id) resolve prove ids) := by
  refine .bind (constant_verifyServers ids) fun infos => ?_
  split
  · exact .throw _
  · exact .pure _

variable (suite resolve prove) in
/-- A directory and a server that answer the same each time are asked for a description and a
proof for it. -/
def VerifiedAlways (id : ObjectId) (info : ServerInfo) : Prop :=
  resolve id = .ok info ∧ info.id = id ∧
    ∃ proof, prove info.url = .ok proof ∧ Proves suite info proof

theorem verified_pure_iff :
    Verified suite (fun id => pure (resolve id)) (fun url => pure (prove url)) id s info s' ↔
      VerifiedAlways suite resolve prove id info ∧ s' = s := by
  constructor
  · rintro ⟨middle, proof, hresolve, hid, hprove, hproof⟩
    obtain ⟨hinfo, rfl⟩ := Prod.mk.inj hresolve
    obtain ⟨hanswer, rfl⟩ := Prod.mk.inj hprove
    exact ⟨⟨hinfo, hid, proof, hanswer, hproof⟩, rfl⟩
  · rintro ⟨⟨hinfo, hid, proof, hanswer, hproof⟩, rfl⟩
    exact ⟨s', proof, congrArg (·, s') hinfo, hid, congrArg (·, s') hanswer, hproof⟩

theorem verifiedAll_pure_iff :
    VerifiedAll suite (fun id => pure (resolve id)) (fun url => pure (prove url)) ids s infos s' ↔
      List.Forall₂ (VerifiedAlways suite resolve prove) ids infos ∧ s' = s := by
  constructor
  · intro h
    induction h with
    | nil => exact ⟨.nil, rfl⟩
    | cons hfirst _ ih =>
        obtain ⟨hinfo, rfl⟩ := verified_pure_iff.1 hfirst
        exact ⟨.cons hinfo ih.1, ih.2⟩
  · rintro ⟨h, rfl⟩
    induction h with
    | nil => exact .nil
    | cons hinfo _ ih => exact .cons (verified_pure_iff.2 ⟨hinfo, rfl⟩) ih

theorem verifyServers_eq_ok_iff :
    (verifyServers suite (m := Id) resolve prove ids).run = .ok infos ↔
      List.Forall₂ (VerifiedAlways suite resolve prove) ids infos := by
  calc
    (verifyServers suite (m := Id) resolve prove ids).run = .ok infos
    _ ↔ (verifyServers suite (fun id => (pure (resolve id) : StateM Unit _))
          (fun url => pure (prove url)) ids).run.run () = (.ok infos, ()) := by
      rw [constant_verifyServers, Prod.mk.injEq, and_iff_left rfl]
    _ ↔ List.Forall₂ (VerifiedAlways suite resolve prove) ids infos := by
      rw [run_verifyServers_eq_ok_iff, verifiedAll_pure_iff, and_iff_left rfl]

theorem verifiedSet_eq_ok_iff {set : ServerSet suite} :
    (verifiedSet suite (m := Id) resolve prove ids).run = .ok set ↔
      ∃ infos, List.Forall₂ (VerifiedAlways suite resolve prove) ids infos ∧
        List.Forall₂ ServerSet.Describes infos set.servers := by
  calc
    (verifiedSet suite (m := Id) resolve prove ids).run = .ok set
    _ ↔ (verifiedSet suite (fun id => (pure (resolve id) : StateM Unit _))
          (fun url => pure (prove url)) ids).run.run () = (.ok set, ()) := by
      rw [constant_verifiedSet, Prod.mk.injEq, and_iff_left rfl]
    _ ↔ ∃ infos, List.Forall₂ (VerifiedAlways suite resolve prove) ids infos ∧
          List.Forall₂ ServerSet.Describes infos set.servers := by
      simp only [run_verifiedSet_eq_ok_iff, verifiedAll_pure_iff, and_true]

end

end Verification

/-- A directory of servers with distinct identifiers gives each of them for its own. -/
theorem Directory.resolve_ofList {infos : List ServerInfo}
    (hnodup : (infos.map ServerInfo.id).Nodup) {info : ServerInfo} (hinfo : info ∈ infos) :
    (ofList infos).resolve info.id = .ok info := by
  have hkeys : ((infos.map fun info => (info.id, info)).map Prod.fst).Nodup := by
    rwa [List.map_map]
  have hget : (ofList infos).entries.get? info.id = some info :=
    (Table.get?_ofList_eq_some_iff (Table.unambiguous_of_nodup hkeys)).2
      (List.mem_map.2 ⟨info, hinfo, rfl⟩)
  rw [resolve, hget]
  rfl

end Quorum
