import Quorum.Proofs.Verification.Steps

/-!
# The outcomes of verification

For one identifier the directory is asked first and the server that it describes after it, and
what they have given is looked at in a fixed order: is the description one of the identifier,
can its public key be decoded, is the proof one for it.  The first of these that is not as it
should be decides the failure.  A proof that is no encoding is not told from one that does not
verify.

For a list, the first identifier that fails decides the outcome.  Those before it have been
verified, and nobody is asked about those after it: what is asked is a step of a state, which
may well be a record of all questions, and this state is left as the failing identifier leaves
it.

For a set there is one more check, on the number and the repetition of the identifiers.  It
comes last, so it is only reported where everything has been verified.
-/

namespace Quorum
namespace Verification

open Outcome

variable {σ : Type} {suite : PairingSuite}
  {resolve : ObjectId → StateM σ (Except RequestFailure ServerInfo)}
  {prove : String → StateM σ Answer} {id : ObjectId} {ids : List ObjectId} {info : ServerInfo}
  {infos : List ServerInfo} {failure : RequestFailure} {s s' : σ}

/-! ## One identifier -/

variable (suite resolve prove) in
/-- How the verification of an identifier fails from the state `s`, and the state `s'` that it
leaves.  The conditions exclude each other: one that is looked at later comes with the success
of those before. -/
inductive Fails (id : ObjectId) (s : σ) : RequestFailure → σ → Prop where
  | unresolved {failure : RequestFailure} {s' : σ}
      (hresolve : (resolve id).run s = (.error failure, s')) : Fails id s failure s'
  | otherServer {info : ServerInfo} {s' : σ} (hresolve : (resolve id).run s = (.ok info, s'))
      (hid : info.id ≠ id) : Fails id s (.error (.notFound id)) s'
  | unanswered {info : ServerInfo} {middle : σ} {failure : RequestFailure} {s' : σ}
      (hresolve : (resolve id).run s = (.ok info, middle)) (hid : info.id = id)
      (hprove : (prove info.url).run middle = (.error failure, s')) : Fails id s failure s'
  | invalidPublicKey {info : ServerInfo} {middle : σ} {proof : Bytes 48} {s' : σ}
      (hresolve : (resolve id).run s = (.ok info, middle)) (hid : info.id = id)
      (hprove : (prove info.url).run middle = (.ok proof, s'))
      (hdecode : suite.decode2? info.publicKey = none) :
      Fails id s (.error (.sealing .invalidG2Point)) s'
  | unproved {info : ServerInfo} {middle : σ} {proof : Bytes 48} {s' : σ}
      (hresolve : (resolve id).run s = (.ok info, middle)) (hid : info.id = id)
      (hprove : (prove info.url).run middle = (.ok proof, s'))
      (hdecode : suite.decode2? info.publicKey ≠ none) (hproof : ¬ Proves suite info proof) :
      Fails id s (.error (.invalidProofOfPossession id)) s'

theorem run_verifyServer_eq_error_iff :
    (verifyServer suite resolve prove id).run.run s = (.error failure, s') ↔
      Fails suite resolve prove id s failure s' := by
  unfold verifyServer
  simp only [run_bind_eq_error_iff, run_check_eq_error_iff, not_not]
  constructor
  · rintro (hresolve | ⟨info, middle, hresolve, ⟨hid, rfl, rfl⟩ |
      ⟨hid, hprove | ⟨proof, after, hprove, hcheck⟩⟩⟩)
    · exact .unresolved hresolve
    · exact .otherServer hresolve hid
    · exact .unanswered hresolve hid hprove
    · split at hcheck
      · rename_i error hdecode
        obtain ⟨rfl, rfl⟩ := run_throw_eq_error_iff.1 hcheck
        obtain ⟨hnone, rfl⟩ := Ibe.decode2_eq_error_iff.1 hdecode
        exact .invalidPublicKey hresolve hid hprove hnone
      · rename_i publicKey hdecode
        split at hcheck
        · rename_i hrejected
          obtain ⟨rfl, rfl⟩ := run_throw_eq_error_iff.1 hcheck
          refine .unproved hresolve hid hprove ?_ ?_
          · rw [Ibe.decode2_eq_ok_iff.1 hdecode]
            exact Option.some_ne_none publicKey
          · rw [proves_iff hdecode, hrejected]
            exact nofun
        · exact absurd hcheck run_pure_ne_error
  · intro h
    cases h with
    | unresolved hresolve => exact .inl hresolve
    | otherServer hresolve hid => exact .inr ⟨_, _, hresolve, .inl ⟨hid, rfl, rfl⟩⟩
    | unanswered hresolve hid hprove => exact .inr ⟨_, _, hresolve, .inr ⟨hid, .inl hprove⟩⟩
    | @invalidPublicKey info middle proof _ hresolve hid hprove hdecode =>
        refine .inr ⟨info, middle, hresolve, .inr ⟨hid, .inr ⟨proof, s', hprove, ?_⟩⟩⟩
        rw [Ibe.decode2_eq_error_iff.2 ⟨hdecode, rfl⟩]
        exact run_throw_eq_error_iff.2 ⟨rfl, rfl⟩
    | @unproved info middle proof _ hresolve hid hprove hdecode hproof =>
        refine .inr ⟨info, middle, hresolve, .inr ⟨hid, .inr ⟨proof, s', hprove, ?_⟩⟩⟩
        obtain ⟨publicKey, hpublicKey⟩ := Option.ne_none_iff_exists'.1 hdecode
        have hkey := Ibe.decode2_eq_ok_iff.2 hpublicKey
        rw [proves_iff hkey] at hproof
        rw [hkey]
        dsimp only
        cases hverify : (Ibe.decode1 suite proof).bind
            (Ibe.verifyPossession suite publicKey info.id info.url) with
        | error error => exact run_throw_eq_error_iff.2 ⟨rfl, rfl⟩
        | ok accepted => exact absurd hverify hproof

/-! ## A list of identifiers -/

variable (suite resolve prove) in
/-- One of the identifiers is the first that fails: those before it have been verified, and it
fails from the state that they have left. -/
def FailsFirst (ids : List ObjectId) (s : σ) (failure : RequestFailure) (s' : σ) : Prop :=
  ∃ before id after infos middle, ids = before ++ id :: after ∧
    VerifiedAll suite resolve prove before s infos middle ∧
      Fails suite resolve prove id middle failure s'

theorem failsFirst_cons_iff :
    FailsFirst suite resolve prove (id :: ids) s failure s' ↔
      Fails suite resolve prove id s failure s' ∨
        ∃ info middle, Verified suite resolve prove id s info middle ∧
          FailsFirst suite resolve prove ids middle failure s' := by
  constructor
  · rintro ⟨before, failing, after, infos, middle, hids, hverified, hfails⟩
    cases hverified with
    | nil =>
        obtain ⟨rfl, -⟩ := List.cons.inj hids
        exact .inl hfails
    | cons hfirst hrest =>
        obtain ⟨rfl, rfl⟩ := List.cons.inj hids
        exact .inr ⟨_, _, hfirst, _, _, _, _, _, rfl, hrest, hfails⟩
  · rintro (hfails | ⟨info, middle, hfirst, before, failing, after, infos, last, rfl, hrest, hfails⟩)
    · exact ⟨[], id, ids, [], s, rfl, .nil, hfails⟩
    · exact ⟨id :: before, failing, after, info :: infos, last, rfl, .cons hfirst hrest, hfails⟩

theorem run_verifyServers_eq_error_iff :
    (verifyServers suite resolve prove ids).run.run s = (.error failure, s') ↔
      FailsFirst suite resolve prove ids s failure s' := by
  -- Either the first identifier fails, or it leaves a state from which one of the rest does.
  induction ids generalizing s with
  | nil =>
      refine iff_of_false run_pure_ne_error ?_
      rintro ⟨before, id, after, _, _, hids, -, -⟩
      exact absurd hids.symm (List.append_ne_nil_of_right_ne_nil before (List.cons_ne_nil id after))
  | cons id rest ih =>
      simp only [verifyServers, run_bind_eq_error_iff, run_verifyServer_eq_error_iff,
        run_verifyServer_eq_ok_iff, ih, run_pure_ne_error, and_false, exists_false, or_false,
        failsFirst_cons_iff]

/-! ## What is asked -/

/-- A question to the directory, about an identifier, or to the server at an address. -/
inductive Question where
  | entry (id : ObjectId)
  | proof (url : String)

/-- Answers questions as before, and keeps a record of them. -/
def recorded {α β : Type} (question : α → Question) (ask : α → StateM σ β) (a : α) :
    StateM (σ × List Question) β := fun state =>
  let answer := (ask a).run state.1
  (answer.1, answer.2, state.2 ++ [question a])

theorem run_recorded {α β : Type} {question : α → Question} {ask : α → StateM σ β} {a : α} {b : β}
    (h : (ask a).run s = (b, s')) (asked : List Question) :
    (recorded question ask a).run (s, asked) = (b, s', asked ++ [question a]) := by
  change (((ask a).run s).1, ((ask a).run s).2, asked ++ [question a]) = _
  rw [h]

/-- The questions about a server that is verified. -/
def questionsAbout (info : ServerInfo) : List Question := [.entry info.id, .proof info.url]

theorem VerifiedAll.recorded (h : VerifiedAll suite resolve prove ids s infos s')
    (asked : List Question) :
    VerifiedAll suite (recorded .entry resolve) (recorded .proof prove) ids (s, asked) infos
      (s', asked ++ infos.flatMap questionsAbout) := by
  induction h generalizing asked with
  | nil =>
      rw [List.flatMap_nil, List.append_nil]
      exact .nil
  | @cons id ids info infos s middle s' hfirst _ ih =>
      obtain ⟨resolved, proof, hresolve, rfl, hprove, hproof⟩ := hfirst
      have hquestions : asked ++ (info :: infos).flatMap questionsAbout =
          asked ++ [.entry info.id] ++ [.proof info.url] ++ infos.flatMap questionsAbout := by
        simp [questionsAbout]
      rw [hquestions]
      exact .cons ⟨_, proof, run_recorded hresolve asked, rfl, run_recorded hprove _, hproof⟩ (ih _)

/-- An identifier that fails has been asked for, and perhaps one server has been asked. -/
theorem Fails.recorded (h : Fails suite resolve prove id s failure s') (asked : List Question) :
    ∃ last, (last = [] ∨ ∃ url, last = [.proof url]) ∧
      Fails suite (recorded .entry resolve) (recorded .proof prove) id (s, asked) failure
        (s', asked ++ .entry id :: last) := by
  have hserver {url : String} {middle after : σ} {answer : Answer}
      (hprove : (prove url).run middle = (answer, after)) :
      (Verification.recorded .proof prove url).run (middle, asked ++ [.entry id]) =
        (answer, after, asked ++ [.entry id, .proof url]) := by
    rw [run_recorded hprove, List.append_assoc, List.singleton_append]
  cases h with
  | unresolved hresolve => exact ⟨[], .inl rfl, .unresolved (run_recorded hresolve asked)⟩
  | otherServer hresolve hid => exact ⟨[], .inl rfl, .otherServer (run_recorded hresolve asked) hid⟩
  | unanswered hresolve hid hprove =>
      exact ⟨[.proof _], .inr ⟨_, rfl⟩,
        .unanswered (run_recorded hresolve asked) hid (hserver hprove)⟩
  | invalidPublicKey hresolve hid hprove hdecode =>
      exact ⟨[.proof _], .inr ⟨_, rfl⟩,
        .invalidPublicKey (run_recorded hresolve asked) hid (hserver hprove) hdecode⟩
  | unproved hresolve hid hprove hdecode hproof =>
      exact ⟨[.proof _], .inr ⟨_, rfl⟩,
        .unproved (run_recorded hresolve asked) hid (hserver hprove) hdecode hproof⟩

/-! ## Sets -/

theorem VerifiedAll.exists_describes (h : VerifiedAll suite resolve prove ids s infos s') :
    ∃ servers : List (KeyServer suite), List.Forall₂ ServerSet.Describes infos servers := by
  refine exists_forall₂ fun info hinfo => ?_
  obtain ⟨before, after, middle, proof, -, -, -, publicKey, _, hdecode, -⟩ :=
    h.exists_verified_of_mem hinfo
  exact ⟨⟨info.id, publicKey⟩, rfl, hdecode⟩

/-- Making a set of servers that have been verified fails for their identifiers alone. -/
theorem VerifiedAll.ofInfos_eq_error_iff (h : VerifiedAll suite resolve prove ids s infos s')
    {error : SealingError} : ServerSet.ofInfos suite infos = .error error ↔
      ∃ fault, ServerSet.FaultOf ids fault ∧ error = .invalidInput fault := by
  obtain ⟨servers, hservers⟩ := h.exists_describes
  rw [ServerSet.ofInfos_of_describes hservers, ServerSet.ofServers_eq_error_iff,
    ServerSet.map_id_of_describes hservers, h.map_id]

theorem run_verifiedSet_eq_error_iff :
    (verifiedSet suite resolve prove ids).run.run s = (.error failure, s') ↔
      FailsFirst suite resolve prove ids s failure s' ∨
        ∃ infos fault, VerifiedAll suite resolve prove ids s infos s' ∧
          ServerSet.FaultOf ids fault ∧ failure = .error (.sealing (.invalidInput fault)) := by
  simp only [verifiedSet, run_bind_eq_error_iff, run_verifyServers_eq_error_iff,
    run_verifyServers_eq_ok_iff]
  refine or_congr_right ?_
  constructor
  · rintro ⟨infos, middle, hverified, hset⟩
    split at hset
    · rename_i error hofInfos
      obtain ⟨rfl, rfl⟩ := run_throw_eq_error_iff.1 hset
      obtain ⟨fault, hfault, rfl⟩ := hverified.ofInfos_eq_error_iff.1 hofInfos
      exact ⟨infos, fault, hverified, hfault, rfl⟩
    · exact absurd hset run_pure_ne_error
  · rintro ⟨infos, fault, hverified, hfault, rfl⟩
    refine ⟨infos, s', hverified, ?_⟩
    rw [hverified.ofInfos_eq_error_iff.2 ⟨fault, hfault, rfl⟩]
    exact run_throw_eq_error_iff.2 ⟨rfl, rfl⟩

/-- All identifiers are verified, in their order, or the first that fails decides the failure;
those after it have not been asked about then, neither the directory nor a server.  Making a
set of the verified servers adds one failure, which is reported exactly if the identifiers, all
of them verified, are none, too many or repeated. -/
theorem verifyServers_classification (suite : PairingSuite)
    (resolve : ObjectId → StateM σ (Except RequestFailure ServerInfo))
    (prove : String → StateM σ Answer) (ids : List ObjectId) (s : σ) :
    (∀ infos s', (verifyServers suite resolve prove ids).run.run s = (.ok infos, s') ↔
      VerifiedAll suite resolve prove ids s infos s') ∧
    (∀ failure s', (verifyServers suite resolve prove ids).run.run s = (.error failure, s') ↔
      ∃ before id after infos middle, ids = before ++ id :: after ∧
        VerifiedAll suite resolve prove before s infos middle ∧
        Fails suite resolve prove id middle failure s' ∧
        ∃ last, (last = [] ∨ ∃ url, last = [Question.proof url]) ∧
          (verifyServers suite (recorded .entry resolve) (recorded .proof prove) ids).run.run
            (s, []) = (.error failure, s', infos.flatMap questionsAbout ++ .entry id :: last)) ∧
    (∀ set s', (verifiedSet suite resolve prove ids).run.run s = (.ok set, s') ↔
      ∃ infos, (verifyServers suite resolve prove ids).run.run s = (.ok infos, s') ∧
        List.Forall₂ ServerSet.Describes infos set.servers) ∧
    (∀ failure s', (verifiedSet suite resolve prove ids).run.run s = (.error failure, s') ↔
      (verifyServers suite resolve prove ids).run.run s = (.error failure, s') ∨
        ∃ infos fault, (verifyServers suite resolve prove ids).run.run s = (.ok infos, s') ∧
          ServerSet.FaultOf ids fault ∧ failure = .error (.sealing (.invalidInput fault))) ∧
    ((∃ fault, ServerSet.FaultOf ids fault) ↔
      ids.length = 0 ∨ 255 < ids.length ∨ ¬ ids.Nodup) := by
  refine ⟨fun _ _ => run_verifyServers_eq_ok_iff, fun failure s' => ?_, fun set s' => ?_,
    fun failure s' => ?_, ServerSet.exists_faultOf_iff⟩
  · rw [run_verifyServers_eq_error_iff]
    constructor
    · rintro ⟨before, id, after, infos, middle, hids, hverified, hfails⟩
      obtain ⟨last, hlast, hrecorded⟩ := hfails.recorded (infos.flatMap questionsAbout)
      exact ⟨before, id, after, infos, middle, hids, hverified, hfails, last, hlast,
        run_verifyServers_eq_error_iff.2
          ⟨before, id, after, infos, _, hids, hverified.recorded [], hrecorded⟩⟩
    · rintro ⟨before, id, after, infos, middle, hids, hverified, hfails, -⟩
      exact ⟨before, id, after, infos, middle, hids, hverified, hfails⟩
  · simp only [run_verifyServers_eq_ok_iff, run_verifiedSet_eq_ok_iff]
  · simp only [run_verifyServers_eq_ok_iff, run_verifyServers_eq_error_iff,
      run_verifiedSet_eq_error_iff]

end Verification
end Quorum
