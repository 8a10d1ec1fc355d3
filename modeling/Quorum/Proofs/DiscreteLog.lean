import Quorum.Bls.Field
import Quorum.Proofs.ServerSet

/-!
# A suite of known logarithms

The laws of a pairing suite are satisfied by the numbers modulo the order of the
groups, where multiples and pairings are products: every element is replaced by its
logarithm.  Nothing is secret then; the suite only shows that the laws do not
contradict each other, and serves to state that what is proved from them is not
empty.
-/

namespace Quorum

theorem Bytes.toNat_ofNat {n value : Nat} (h : value < Nat.pow 256 n) :
    (Bytes.ofNat n value).toNat = value := by
  have htoList : (Bytes.ofNat n value).toList = bigEndian n value := by
    simp [Bytes.ofNat, Vector.toList]
  rw [Bytes.toNat, htoList, ofBigEndian_bigEndian, Nat.mod_eq_of_lt h]

namespace PairingSuite

instance : @NeZero Nat Zero.ofOfNat0 Bls.groupOrder := ⟨by decide⟩

theorem groupOrder_le : Bls.groupOrder ≤ Nat.pow 2 255 := by decide

/-- The number with the given bytes, if it is small enough. -/
def residue? {n : Nat} (bytes : Bytes n) : Option (Fin Bls.groupOrder) :=
  if h : bytes.toNat < Bls.groupOrder then some ⟨bytes.toNat, h⟩ else none

/-- The numbers modulo the order of BLS12-381, with the product as their pairing. -/
def discreteLog : PairingSuite where
  G1 := Fin Bls.groupOrder
  G2 := Fin Bls.groupOrder
  Gt := Fin Bls.groupOrder
  decEqG1 := inferInstance
  decEqG2 := inferInstance
  decEqGt := inferInstance
  order := Bls.groupOrder
  order_le := groupOrder_le
  infinity := 0
  generator := 1
  mul1 n x := Fin.ofNat Bls.groupOrder n * x
  mul2 n y := Fin.ofNat Bls.groupOrder n * y
  hash tag message := Fin.ofNat Bls.groupOrder (ofBigEndian (tag ++ message))
  pairing x y := x * y
  encode1 x := Bytes.ofNat 48 x.val
  decode1? := residue?
  encode2 y := Bytes.ofNat 96 y.val
  decode2? := residue?
  compress? z := if z = 0 then none else some (littleEndian 288 z.val)

theorem residue?_ofNat {n : Nat} (hn : Bls.groupOrder ≤ Nat.pow 256 n) (x : Fin Bls.groupOrder) :
    residue? (Bytes.ofNat n x.val) = some x := by
  have htoNat : (Bytes.ofNat n x.val).toNat = x.val :=
    Bytes.toNat_ofNat (Nat.lt_of_lt_of_le x.isLt hn)
  simp [residue?, htoNat]

theorem discreteLog_pairing_mul (x y : Fin Bls.groupOrder) (n : Nat) :
    discreteLog.pairing (discreteLog.mul1 n x) y = Fin.ofNat Bls.groupOrder n * (x * y) ∧
      discreteLog.pairing x (discreteLog.mul2 n y) = Fin.ofNat Bls.groupOrder n * (x * y) := by
  change Fin.ofNat Bls.groupOrder n * x * y = _ ∧ x * (Fin.ofNat Bls.groupOrder n * y) = _
  refine ⟨Fin.mul_assoc _ _ _, ?_⟩
  rw [← Fin.mul_assoc, Fin.mul_comm x, Fin.mul_assoc]

theorem discreteLog_lawful : discreteLog.Lawful where
  pairing_mul :=
    ⟨fun (z : Fin Bls.groupOrder) n => Fin.ofNat Bls.groupOrder n * z, discreteLog_pairing_mul⟩
  decode1_encode1 x := by
    have hle : Bls.groupOrder ≤ Nat.pow 256 48 := by decide
    simp only [discreteLog]
    exact residue?_ofNat hle x
  decode2_encode2 y := by
    have hle : Bls.groupOrder ≤ Nat.pow 256 96 := by decide
    simp only [discreteLog]
    exact residue?_ofNat hle y

/-- Two factors can be exchanged between the arguments of a pairing. -/
theorem Lawful.pairing_mul_mul {suite : PairingSuite} (h : suite.Lawful) (x : suite.G1)
    (y : suite.G2) (m n : Nat) :
    suite.pairing (suite.mul1 m x) (suite.mul2 n y) =
      suite.pairing (suite.mul1 n x) (suite.mul2 m y) := by
  obtain ⟨power, hpower⟩ := h.pairing_mul
  rw [(hpower x _ m).1, (hpower x y n).2, (hpower _ y m).2, (hpower x y n).1]

/-! ## Known scalars -/

theorem ones_lt :
    ofLittleEndian (Vector.replicate 32 1).toList % Nat.pow 2 255 < discreteLog.order := by
  decide +kernel

/-- The scalar that is drawn from bytes which are all one. -/
def onesScalar : discreteLog.Scalar := ⟨_, ones_lt⟩

theorem drawScalar_of_ones {random : RandomSource} (hones : random.byteAt = fun _ => 1) :
    Ibe.drawScalar discreteLog random = .ok (onesScalar, random.skip 32) := by
  -- The first number that is read is small enough, so nothing is drawn again.
  have hnext : random.next 32 = Vector.replicate 32 1 := by
    apply Vector.ext
    intro i hi
    simp [RandomSource.next, hones]
  have hlt := ones_lt
  rw [← hnext] at hlt
  rw [Ibe.drawScalar_eq_ok hlt]
  simp only [hnext, onesScalar]

/-- An identifier that repeats one byte. -/
def idOf (byte : UInt8) : ObjectId := ⟨Vector.replicate 32 byte⟩

theorem idOf_inj {a b : UInt8} : idOf a = idOf b ↔ a = b := by
  constructor
  · intro h
    have hbytes := congrArg (fun id => id.bytes[0]) h
    simpa [idOf] using hbytes
  · rintro rfl
    rfl

/-- The master key of a server is the first byte of its identifier. -/
def masterKeyOf (id : ObjectId) : discreteLog.Scalar := Fin.ofNat Bls.groupOrder id.bytes[0].toNat

/-- Three servers with different master keys. -/
def threeServers : ServerSet discreteLog where
  servers := [2, 3, 5].map fun byte =>
    ⟨idOf byte, Ibe.publicKey discreteLog (masterKeyOf (idOf byte))⟩
  size_pos := by decide
  size_le := by decide
  nodup_ids := by decide

theorem threeServers_publicKey : ∀ server ∈ threeServers.servers,
    server.publicKey = Ibe.publicKey discreteLog (masterKeyOf server.id) := by
  intro server hserver
  obtain ⟨byte, -, rfl⟩ := List.mem_map.1 hserver
  rfl

theorem publicKey?_threeServers {id : ObjectId}
    (hid : id ∈ threeServers.servers.map KeyServer.id) :
    threeServers.publicKey? id = some (Ibe.publicKey discreteLog (masterKeyOf id)) := by
  obtain ⟨server, hserver, rfl⟩ := List.mem_map.1 hid
  exact ServerSet.publicKey?_eq_some_iff.2
    ⟨server, hserver, rfl, threeServers_publicKey server hserver⟩

/-- The descriptions of the three servers; each is at an address of its own. -/
def threeInfos : List ServerInfo :=
  threeServers.servers.map fun server =>
    { id := server.id, name := "", url := server.id.text
      publicKey := discreteLog.encode2 server.publicKey }

theorem ofInfos_threeInfos : ServerSet.ofInfos discreteLog threeInfos = .ok threeServers := by
  rw [ServerSet.ofInfos_eq_ok_iff, threeInfos, List.forall₂_map_left_iff, List.forall₂_same]
  exact fun server _ => ⟨rfl, discreteLog_lawful.decode2_encode2 server.publicKey⟩

end PairingSuite
end Quorum
