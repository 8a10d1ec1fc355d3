import Quorum.Proofs.DiscreteLog
import Quorum.Proofs.LocalServers

/-!
# Honest servers are not rejected

Servers are put at addresses and made to answer in other ways, and descriptions of them are
registered in a directory; any of this can happen at any time.  A server that has been put at an
address, and whose description has been registered after that, is verified from then on, and the
keys that it issues verify under the registered public key.  It is only asked that nothing has
happened at its address since it was put there, and that nothing has been registered for its
identifier since its own description was.

The server signs with its master key, for its own identifier and address, and the proof is
checked with what is registered, so the two have to agree in all of it.  The master key is any
scalar, zero as well.
-/

namespace Quorum

/-- Servers in the same process, and a directory. -/
structure Deployment (suite : PairingSuite) where
  servers : LocalServers suite := {}
  directory : Directory := {}

namespace Deployment

variable {suite : PairingSuite}

variable (suite) in
/-- What can happen to servers and a directory. -/
inductive Event where
  /-- A server is put at an address, in place of any other. -/
  | put (id : ObjectId) (name url : String) (masterKey : suite.Scalar)
  /-- The server at an address answers in another way. -/
  | change (url : String) (behavior : Behavior)
  /-- A description is registered, in place of any other of its identifier. -/
  | register (info : ServerInfo)
  /-- Keys have been issued. -/
  | record (issued : Nat)

/-- The address at which something happens. -/
def Event.address? : Event suite → Option String
  | .put _ _ url _ => some url
  | .change url _ => some url
  | .register _ => none
  | .record _ => none

/-- The identifier for which something is registered. -/
def Event.registered? : Event suite → Option ObjectId
  | .put _ _ _ _ => none
  | .change _ _ => none
  | .register info => some info.id
  | .record _ => none

/-- What an event makes of a deployment. -/
def step (deployment : Deployment suite) : Event suite → Deployment suite
  | .put id name url masterKey =>
    { deployment with servers := (deployment.servers.add id name url masterKey).2 }
  | .change url behavior =>
    { deployment with servers := deployment.servers.setBehavior url behavior }
  | .register info => { deployment with directory := deployment.directory.insert info }
  | .record issued => { deployment with servers := deployment.servers.record issued }

/-- What has become of a deployment after a number of events. -/
def run (deployment : Deployment suite) (events : List (Event suite)) : Deployment suite :=
  events.foldl step deployment

variable {deployment : Deployment suite} {event : Event suite} {events : List (Event suite)}
  {id : ObjectId} {name url : String} {masterKey : suite.Scalar}

theorem run_append (events later : List (Event suite)) :
    deployment.run (events ++ later) = (deployment.run events).run later :=
  List.foldl_append

theorem run_cons : deployment.run (event :: events) = (deployment.step event).run events := rfl

/-! ## What an event leaves unchanged -/

theorem get?_servers_step (h : event.address? ≠ some url) :
    (deployment.step event).servers.servers.get? url = deployment.servers.servers.get? url := by
  cases event with
  | put id name other masterKey =>
      have hne : other ≠ url := fun heq => h (congrArg some heq)
      exact (Table.get?_insert _ _ _ _).trans (if_neg hne)
  | change other behavior =>
      have hne : other ≠ url := fun heq => h (congrArg some heq)
      rw [step, LocalServers.setBehavior]
      split
      · exact (Table.get?_insert _ _ _ _).trans (if_neg hne)
      · rfl
  | register info => rfl
  | record issued => rfl

theorem get?_entries_step (h : event.registered? ≠ some id) :
    (deployment.step event).directory.entries.get? id = deployment.directory.entries.get? id := by
  cases event with
  | put id name url masterKey => rfl
  | change url behavior => rfl
  | register info =>
      have hne : info.id ≠ id := fun heq => h (congrArg some heq)
      exact (Table.get?_insert _ _ _ _).trans (if_neg hne)
  | record issued => rfl

theorem redirects_step :
    (deployment.step event).directory.redirects = deployment.directory.redirects := by
  cases event with
  | put id name url masterKey => rfl
  | change url behavior => rfl
  | register info => rfl
  | record issued => rfl

/-- What each of the events leaves unchanged is unchanged after all of them. -/
theorem apply_run {α : Type} (f : Deployment suite → α)
    (h : ∀ event ∈ events, ∀ before : Deployment suite, f (before.step event) = f before) :
    f (deployment.run events) = f deployment := by
  induction events generalizing deployment with
  | nil => rfl
  | cons event rest ih =>
      obtain ⟨hevent, hrest⟩ := List.forall_mem_cons.1 h
      rw [run_cons, ih hrest, hevent]

theorem get?_servers_run (h : ∀ event ∈ events, event.address? ≠ some url) :
    (deployment.run events).servers.servers.get? url = deployment.servers.servers.get? url :=
  apply_run (fun deployment => deployment.servers.servers.get? url) fun event hevent _ =>
    get?_servers_step (h event hevent)

theorem get?_entries_run (h : ∀ event ∈ events, event.registered? ≠ some id) :
    (deployment.run events).directory.entries.get? id = deployment.directory.entries.get? id :=
  apply_run (fun deployment => deployment.directory.entries.get? id) fun event hevent _ =>
    get?_entries_step (h event hevent)

theorem redirects_run :
    (deployment.run events).directory.redirects = deployment.directory.redirects :=
  apply_run (fun deployment => deployment.directory.redirects) fun _ _ _ => redirects_step

/-! ## A server that is there and registered -/

/-- An honest server is at an address, and its identifier is resolved to its description. -/
structure Serves (deployment : Deployment suite) (id : ObjectId) (name url : String)
    (masterKey : suite.Scalar) : Prop where
  place : deployment.servers.servers.get? url = some ⟨id, masterKey, .honest⟩
  resolve : deployment.directory.resolve id = .ok (LocalServers.describe id name url masterKey)

theorem resolve_of_get? {info : ServerInfo}
    (hredirects : deployment.directory.redirects = Table.empty)
    (hentry : deployment.directory.entries.get? id = some info) :
    deployment.directory.resolve id = .ok info := by
  rw [Directory.resolve, hredirects, hentry]
  rfl

theorem get?_servers_step_put : (deployment.step (.put id name url masterKey)).servers.servers.get?
    url = some ⟨id, masterKey, .honest⟩ :=
  (Table.get?_insert _ _ _ _).trans (if_pos rfl)

theorem get?_entries_step_register {info : ServerInfo} :
    (deployment.step (.register info)).directory.entries.get? info.id = some info :=
  (Table.get?_insert _ _ _ _).trans (if_pos rfl)

/-- A server that has been put at its address and registered is there and registered, unless
something has happened since. -/
theorem serves_run {before between later : List (Event suite)}
    (hplace : ∀ event ∈ between ++ later, event.address? ≠ some url)
    (hentry : ∀ event ∈ later, event.registered? ≠ some id) :
    (run {} (before ++ .put id name url masterKey ::
      (between ++ .register (LocalServers.describe id name url masterKey) :: later))).Serves
        id name url masterKey where
  place := by
    have hrest : ∀ event ∈ between ++
        .register (LocalServers.describe id name url masterKey) :: later,
        event.address? ≠ some url := by
      rw [List.forall_mem_append, List.forall_mem_cons]
      obtain ⟨hbetween, hlater⟩ := List.forall_mem_append.1 hplace
      exact ⟨hbetween, nofun, hlater⟩
    rw [run_append, run_cons, get?_servers_run hrest, get?_servers_step_put]
  resolve := by
    apply resolve_of_get? redirects_run
    rw [run_append, run_cons, run_append, run_cons, get?_entries_run hentry]
    exact get?_entries_step_register

theorem Serves.verified (h : deployment.Serves id name url masterKey)
    (hpairing : suite.Balanced) (hdecode1 : ∀ x, suite.decode1? (suite.encode1 x) = some x)
    (hdecode2 : ∀ y, suite.decode2? (suite.encode2 y) = some y) :
    deployment.directory.verified suite deployment.servers.client [id] =
      .ok [LocalServers.describe id name url masterKey] := by
  refine Verification.verifyServers_eq_ok_iff.2 (.cons ?_ .nil)
  exact ⟨Outcome.mapError_eq_ok_iff.2 h.resolve, rfl, _,
    LocalServers.client_provePossession_of_honest h.place,
    LocalServers.proves_describe_of_balanced hpairing hdecode1 hdecode2 id name url masterKey⟩

/-- The key that is issued for an identity verifies under the public key of the description. -/
theorem Serves.requestKey (h : deployment.Serves id name url masterKey)
    (hpairing : suite.Balanced) (hdecode1 : ∀ x, suite.decode1? (suite.encode1 x) = some x)
    {request : KeyRequest} (hidentity : request.identity ≠ []) : ∃ encoded key,
      (deployment.servers.client.requestKey url request).answer = .ok encoded ∧
        suite.decode1? encoded = some key ∧ Ibe.verifyKey suite key request.identity
          (Ibe.publicKey suite masterKey) = .ok () := by
  refine ⟨_, _, ?_, hdecode1 _, Ibe.verifyKey_extract_of_balanced hpairing masterKey _⟩
  rw [LocalServers.client_requestKey_of_honest h.place hidentity]

/-- Whatever has happened before, a server that is put at an address and is registered with the
description that comes with it is verified, with this description, and issues keys that verify
for every identity but the empty one, until something happens at its address or something else
is registered for its identifier. -/
theorem verified_of_honest (hpairing : suite.Balanced)
    (hdecode1 : ∀ x, suite.decode1? (suite.encode1 x) = some x)
    (hdecode2 : ∀ y, suite.decode2? (suite.encode2 y) = some y)
    (before : List (Event suite)) (id : ObjectId) (name url : String) (masterKey : suite.Scalar)
    {between later : List (Event suite)}
    (hplace : ∀ event ∈ between ++ later, event.address? ≠ some url)
    (hentry : ∀ event ∈ later, event.registered? ≠ some id) :
    let info := ((run {} before).servers.add id name url masterKey).1
    let final := run {} (before ++ .put id name url masterKey ::
      (between ++ .register info :: later))
    final.directory.verified suite final.servers.client [id] = .ok [info] ∧
      ∃ publicKey, suite.decode2? info.publicKey = some publicKey ∧
        ∀ request : KeyRequest, request.identity ≠ [] → ∃ encoded key,
          (final.servers.client.requestKey info.url request).answer = .ok encoded ∧
            suite.decode1? encoded = some key ∧
              Ibe.verifyKey suite key request.identity publicKey = .ok () := by
  intro info final
  have hserves : final.Serves id name url masterKey := serves_run hplace hentry
  exact ⟨hserves.verified hpairing hdecode1 hdecode2, Ibe.publicKey suite masterKey, hdecode2 _,
    fun request hidentity => hserves.requestKey hpairing hdecode1 hidentity⟩

open PairingSuite in
/-- A server whose master key is zero, so that its public key is the neutral element, in place of
another one at the address and of another description; the server that comes later is corrupt. -/
theorem verified_of_honest_zero :
    let masterKey : discreteLog.Scalar := (0 : Fin Bls.groupOrder)
    let info := LocalServers.describe (idOf 4) "fourth" "u" masterKey
    let before : List (Event discreteLog) :=
      [.put (idOf 9) "ninth" "u" (masterKeyOf (idOf 9)), .register { info with url := "v" }]
    let between : List (Event discreteLog) := [.change "v" .offline, .record 2]
    let later : List (Event discreteLog) :=
      [.put (idOf 3) "third" "v" (masterKeyOf (idOf 3)), .change "v" .corrupt,
        .register { info with id := idOf 3, url := "v" }]
    let final := run {} (before ++ .put (idOf 4) "fourth" "u" masterKey ::
      (between ++ .register info :: later))
    final.directory.verified discreteLog final.servers.client [idOf 4] = .ok [info] ∧
      discreteLog.decode2? info.publicKey = some discreteLog.infinity ∧ ∃ encoded key,
        (final.servers.client.requestKey "u" { identity := [1, 2] }).answer = .ok encoded ∧
          discreteLog.decode1? encoded = some key ∧
            Ibe.verifyKey discreteLog key [1, 2] discreteLog.infinity = .ok () := by
  intro masterKey info before between later final
  have hplace : ∀ event ∈ between ++ later, event.address? ≠ some "u" := by
    simp [between, later, Event.address?]
  have hentry : ∀ event ∈ later, event.registered? ≠ some (idOf 4) := by
    simp [later, Event.registered?, idOf_inj]
  have hinfinity : Ibe.publicKey discreteLog masterKey = discreteLog.infinity := by
    decide +kernel
  obtain ⟨hverified, publicKey, hdecode, hkeys⟩ := verified_of_honest
    discreteLog_lawful.bilinear.balanced discreteLog_lawful.decode1_encode1
    discreteLog_lawful.decode2_encode2 before (idOf 4) "fourth" "u" masterKey hplace hentry
  have hpublicKey : discreteLog.decode2? info.publicKey = some discreteLog.infinity := by
    rw [← hinfinity]
    exact discreteLog_lawful.decode2_encode2 _
  obtain rfl := Option.some.inj (hdecode.symm.trans hpublicKey)
  exact ⟨hverified, hpublicKey, hkeys { identity := [1, 2] } (List.cons_ne_nil _ _)⟩

end Deployment
end Quorum
