import Quorum.Fetch
import Quorum.Proofs.Ibe.Verification
import Quorum.Proofs.Table

/-!
# What a collector does with a submitted key

A submission either adds one key, which is new, is from a known server and verifies
under its public key, or it leaves the collector as it is.  What an answer contributes
depends on the known servers and on the identity alone, not on the keys that have been
collected before.
-/

namespace Quorum

variable {suite : PairingSuite}

variable (suite) in
/-- The key that an answer contributes for an identity, with the server that it is from.
The public key of the server must be known, the answer must be the encoding of a key,
and the key must verify. -/
def contribution? (identity : List UInt8) (publicKey? : ObjectId → Option suite.G2) :
    ObjectId × Answer → Option (ObjectId × suite.G1)
  | (_, .error _) => none
  | (id, .ok encoded) => do
    let publicKey ← publicKey? id
    let key ← suite.decode1? encoded
    if Ibe.verifyKey suite key identity publicKey = .ok () then some (id, key) else none

theorem contribution?_eq_some_iff {identity : List UInt8}
    {publicKey? : ObjectId → Option suite.G2} {id id' : ObjectId} {encoded : Bytes 48}
    {key : suite.G1} :
    contribution? suite identity publicKey? (id, .ok encoded) = some (id', key) ↔
      id = id' ∧ suite.decode1? encoded = some key ∧ ∃ publicKey,
        publicKey? id = some publicKey ∧ Ibe.verifyKey suite key identity publicKey = .ok () := by
  simp only [contribution?, Option.bind_eq_bind, Option.bind_eq_some_iff,
    Option.ite_none_right_eq_some, Option.some.injEq, Prod.mk.injEq]
  constructor
  · rintro ⟨publicKey, hpublicKey, decoded, hdecode, hverify, rfl, rfl⟩
    exact ⟨rfl, hdecode, publicKey, hpublicKey, hverify⟩
  · rintro ⟨rfl, hdecode, publicKey, hpublicKey, hverify⟩
    exact ⟨publicKey, hpublicKey, key, hdecode, hverify, rfl, rfl⟩

/-- The key that the holder of a master key extracts is contributed by its server. -/
theorem contribution?_extract (hsuite : suite.Lawful) {publicKey? : ObjectId → Option suite.G2}
    {id : ObjectId} {masterKey : suite.Scalar}
    (hknown : publicKey? id = some (Ibe.publicKey suite masterKey)) (identity : List UInt8) :
    contribution? suite identity publicKey?
        (id, .ok (suite.encode1 (Ibe.extract suite masterKey identity))) =
      some (id, Ibe.extract suite masterKey identity) :=
  contribution?_eq_some_iff.2 ⟨rfl, hsuite.decode1_encode1 _, _, hknown,
    Ibe.verifyKey_extract hsuite masterKey identity⟩

namespace Collector

/-! ## One submission -/

/-- A key that the collector adds when a server submits it. -/
structure Accepts (collector : Collector suite) (id : ObjectId) (key : suite.G1) : Prop where
  not_mem_keys : id ∉ collector.keys.keys
  verified : ∃ publicKey, collector.publicKeys.get? id = some publicKey ∧
    Ibe.verifyKey suite key collector.identity publicKey = .ok ()

variable {collector : Collector suite} {id : ObjectId} {encoded : Bytes 48}

theorem accept_eq_ok_iff {after : Collector suite} :
    collector.accept id encoded = .ok after ↔
      ∃ key, suite.decode1? encoded = some key ∧ collector.Accepts id key ∧
        after = collector.add id key := by
  unfold accept
  cases hpublicKey : collector.publicKeys.get? id with
  | none =>
      refine iff_of_false (fun h => nomatch h) ?_
      rintro ⟨key, -, ⟨-, publicKey, hknown, -⟩, -⟩
      rw [hpublicKey] at hknown
      cases hknown
  | some publicKey =>
      have hmem := Table.contains_iff_mem_keys collector.keys id
      have hdecode : (liftM (Ibe.decode1 suite encoded) : Except ServiceError suite.G1) =
          (Ibe.decode1 suite encoded).mapError .sealing := rfl
      simp only [Outcome.guard_eq_ok_iff, hmem, hdecode, Outcome.bind_eq_ok_iff,
        Outcome.mapError_eq_ok_iff, Ibe.decode1_eq_ok_iff]
      constructor
      · rintro ⟨hnew, key, hkey, h⟩
        split at h
        · cases h
        · rename_i hverify
          cases h
          exact ⟨key, hkey, ⟨hnew, publicKey, hpublicKey, hverify⟩, rfl⟩
      · rintro ⟨key, hkey, ⟨hnew, known, hknown, hverify⟩, rfl⟩
        obtain rfl : publicKey = known := Option.some.inj (hpublicKey.symm.trans hknown)
        exact ⟨hnew, key, hkey, by rw [hverify]; rfl⟩

/-- A submission adds a key or leaves the collector as it is. -/
theorem submit_cases (collector : Collector suite) (id : ObjectId) (encoded : Bytes 48) :
    (∃ key, suite.decode1? encoded = some key ∧ collector.Accepts id key ∧
      (collector.submit id encoded).2 = collector.add id key) ∨
    ((∀ key, suite.decode1? encoded = some key → ¬ collector.Accepts id key) ∧
      (collector.submit id encoded).2 = collector) := by
  cases haccept : collector.accept id encoded with
  | error error =>
      refine .inr ⟨fun key hdecode haccepts => ?_, by rw [submit, haccept]⟩
      have hok := accept_eq_ok_iff.2 ⟨key, hdecode, haccepts, rfl⟩
      rw [haccept] at hok
      cases hok
  | ok after =>
      obtain ⟨key, hdecode, haccepts, rfl⟩ := accept_eq_ok_iff.1 haccept
      exact .inl ⟨key, hdecode, haccepts, by rw [submit, haccept]⟩

/-- What is kept when a key is added is kept by a submission. -/
theorem submit_induction {motive : Collector suite → Prop}
    (hadd : ∀ id key, collector.Accepts id key → motive (collector.add id key))
    (hstart : motive collector) (id : ObjectId) (encoded : Bytes 48) :
    motive (collector.submit id encoded).2 := by
  rcases submit_cases collector id encoded with ⟨key, -, haccepts, hsubmit⟩ | ⟨-, hsubmit⟩
  · rw [hsubmit]
    exact hadd id key haccepts
  · rw [hsubmit]
    exact hstart

/-- The key that an answer contributes to a collector. -/
abbrev contributed? (collector : Collector suite) :
    ObjectId × Answer → Option (ObjectId × suite.G1) :=
  contribution? suite collector.identity collector.publicKeys.get?

theorem submit_cases_of_not_mem (hnew : id ∉ collector.keys.keys) (encoded : Bytes 48) :
    (∃ key, collector.contributed? (id, .ok encoded) = some (id, key) ∧
      collector.Accepts id key ∧ (collector.submit id encoded).2 = collector.add id key) ∨
    (collector.contributed? (id, .ok encoded) = none ∧
      (collector.submit id encoded).2 = collector) := by
  rcases submit_cases collector id encoded with
    ⟨key, hdecode, haccepts, hsubmit⟩ | ⟨hrefused, hsubmit⟩
  · exact .inl ⟨key, contribution?_eq_some_iff.2 ⟨rfl, hdecode, haccepts.verified⟩, haccepts,
      hsubmit⟩
  · refine .inr ⟨Option.eq_none_iff_forall_ne_some.2 ?_, hsubmit⟩
    rintro ⟨id', key⟩ hsome
    obtain ⟨-, hdecode, hverified⟩ := contribution?_eq_some_iff.1 hsome
    exact hrefused key hdecode ⟨hnew, hverified⟩

/-! ## The collector with a further key -/

variable {key : suite.G1}

theorem entries_add (h : collector.Accepts id key) :
    (collector.add id key).keys.entries = collector.keys.entries ++ [(id, key)] :=
  Table.entries_insert_of_not_mem h.not_mem_keys key

theorem size_add (h : collector.Accepts id key) :
    (collector.add id key).keys.size = collector.keys.size + 1 := by
  rw [Table.size, entries_add h, List.length_append]
  rfl

theorem keys_add (h : collector.Accepts id key) :
    (collector.add id key).keys.keys = collector.keys.keys ++ [id] := by
  rw [Table.keys, entries_add h, List.map_append]
  rfl

/-- The state tells whether there are enough keys, and all keys have been verified. -/
structure Consistent (collector : Collector suite) : Prop where
  ready_iff : collector.state = .ready ↔ collector.threshold ≤ collector.keys.size
  verified : ∀ id key, collector.keys.get? id = some key → ∃ publicKey,
    collector.publicKeys.get? id = some publicKey ∧
      Ibe.verifyKey suite key collector.identity publicKey = .ok ()

theorem Consistent.add (hconsistent : collector.Consistent) (h : collector.Accepts id key) :
    (collector.add id key).Consistent where
  ready_iff := by
    -- The state is left as it was if the new key is not enough; it was not ready then.
    have hsize := size_add h
    by_cases henough : collector.threshold ≤ (collector.add id key).keys.size
    · exact iff_of_true (if_pos henough) henough
    · have hstate : (collector.add id key).state = collector.state := if_neg henough
      refine iff_of_false (fun hready => ?_) henough
      have hbefore := hconsistent.ready_iff.1 (hstate.symm.trans hready)
      omega
  verified := by
    intro other issued hget
    change (collector.keys.insert id key).get? other = some issued at hget
    rw [Table.get?_insert] at hget
    by_cases heq : id = other
    · subst heq
      rw [if_pos rfl] at hget
      obtain rfl := Option.some.inj hget
      exact h.verified
    · rw [if_neg heq] at hget
      exact hconsistent.verified other issued hget

end Collector
end Quorum
