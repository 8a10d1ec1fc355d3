import Quorum.Ibe
import Quorum.Table

/-!
# Key servers

What is registered about a key server is its identifier, a name, the address at
which it answers, and its public key.  An object is sealed for a set of key
servers: an ordered list of one to 255 servers with distinct identifiers, where
the order decides which share each of them gets.  Keys that servers have issued
are collected in a key ring.
-/

namespace Quorum

/-- What is registered about a key server. -/
structure ServerInfo where
  id : ObjectId
  name : String
  url : String
  /-- The encoding of the public key. -/
  publicKey : Bytes 96
deriving DecidableEq

/-- A key server with a decoded public key. -/
structure KeyServer (suite : PairingSuite) where
  id : ObjectId
  publicKey : suite.G2

/-- The first element of a list that occurs before it. -/
def firstRepeated? {α : Type} [DecidableEq α] (seen : List α) : List α → Option α
  | [] => none
  | x :: rest => if x ∈ seen then some x else firstRepeated? (x :: seen) rest

theorem firstRepeated?_eq_none_iff {α : Type} [DecidableEq α] (seen items : List α) :
    firstRepeated? seen items = none ↔ items.Nodup ∧ ∀ x ∈ items, x ∉ seen := by
  induction items generalizing seen with
  | nil => simp [firstRepeated?]
  | cons x rest ih =>
    by_cases h : x ∈ seen
    · simp [firstRepeated?, h]
    · simp only [firstRepeated?, h, if_false, ih, List.nodup_cons, List.mem_cons]
      constructor
      · rintro ⟨hrest, hseen⟩
        refine ⟨⟨fun hx => hseen x hx (.inl rfl), hrest⟩, ?_⟩
        rintro y (rfl | hy)
        · exact h
        · exact fun hs => hseen y hy (.inr hs)
      · rintro ⟨⟨hx, hrest⟩, hseen⟩
        refine ⟨hrest, fun y hy hs => ?_⟩
        rcases hs with rfl | hs
        · exact hx hy
        · exact hseen y (.inr hy) hs

/-- An ordered list of one to 255 key servers with distinct identifiers. -/
structure ServerSet (suite : PairingSuite) where
  servers : List (KeyServer suite)
  size_pos : 0 < servers.length
  size_le : servers.length ≤ 255
  nodup_ids : (servers.map KeyServer.id).Nodup

namespace ServerSet

variable {suite : PairingSuite}

/-- The set with the given servers, if they form one. -/
def ofServers (servers : List (KeyServer suite)) : Except SealingError (ServerSet suite) :=
  if hsize : 0 < servers.length ∧ servers.length ≤ 255 then
    match hrep : firstRepeated? [] (servers.map KeyServer.id) with
    | some id => .error (.invalidInput (.repeatedServer id))
    | none =>
      .ok {
        servers
        size_pos := hsize.1
        size_le := hsize.2
        nodup_ids := ((firstRepeated?_eq_none_iff [] _).mp hrep).1 }
  else .error (.invalidInput (.serverCount servers.length))

variable (suite) in
/-- The set of the servers that are described, whose public keys are decoded
first. -/
def ofInfos (infos : List ServerInfo) : Except SealingError (ServerSet suite) := do
  let servers ← infos.mapM fun info => do
    return (⟨info.id, ← Ibe.decode2 suite info.publicKey⟩ : KeyServer suite)
  ofServers servers

/-- The number of servers. -/
def size (set : ServerSet suite) : Nat := set.servers.length

/-- The server at a place. -/
def get? (set : ServerSet suite) (place : Nat) : Option (KeyServer suite) :=
  set.servers[place]?

/-- The server with an identifier. -/
def find? (set : ServerSet suite) (id : ObjectId) : Option (KeyServer suite) :=
  set.servers.find? fun server => server.id = id

/-- The public keys in order. -/
def publicKeys (set : ServerSet suite) : List suite.G2 :=
  set.servers.map KeyServer.publicKey

end ServerSet

/-- Keys that were issued for one identity, by the server that issued them. -/
abbrev KeyRing (suite : PairingSuite) := Table ObjectId suite.G1

end Quorum
