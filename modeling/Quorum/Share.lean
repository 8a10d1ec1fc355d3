import Quorum.Error
import Quorum.GF256
import Quorum.RandomSource

/-!
# Secret sharing

A secret of 32 bytes is split by Shamir's scheme over the field with 256
elements: every byte is the value at zero of a polynomial of its own, and the
share with index `i` holds the values at `i`.  As many shares as the threshold
says rebuild the secret by interpolation at zero.
-/

namespace Quorum

/-- A symmetric key, and everything of its length that is shared or masked. -/
abbrev Key := Bytes 32

/-- One point of the polynomials of a sharing. -/
structure Share where
  /-- The place at which the polynomials are evaluated. -/
  index : UInt8
  /-- The values, one for every byte of the secret. -/
  payload : Key
deriving DecidableEq

namespace Share

/-- The values followed by the index. -/
def encode (share : Share) : List UInt8 := share.payload.toList ++ [share.index]

/-- The share with the given encoding; the index zero is that of the secret
itself. -/
def decode (bytes : List UInt8) : Except SealingError Share :=
  match Bytes.ofList? 32 (bytes.take 32), bytes.drop 32 with
  | some payload, [index] =>
    if index = 0 then .error (.corruptShare .reservedIndex) else .ok { index, payload }
  | _, _ => .error (.corruptShare (.length bytes.length))

/-- A description that does not show the values. -/
def description (share : Share) : String :=
  "Share \x7b index: " ++ toString share.index.toNat ++ ", .. \x7d"

end Share

namespace Sharing

/-- The value at `x` of the polynomial with the given coefficients, in ascending
order. -/
def evaluate (coefficients : List GF256) (x : GF256) : GF256 :=
  coefficients.foldr (fun coefficient value => value * x + coefficient) 0

/-- The coefficients of the polynomial for one byte of the secret. -/
def coefficients (secret : Key) (rows : List Key) (j : Fin 32) : List GF256 :=
  (secret :: rows).map fun row => ⟨row[j]⟩

/-- The share with the given index, where the rows hold the coefficients of the
powers of `x` from the first on. -/
def shareAt (secret : Key) (rows : List Key) (index : UInt8) : Share where
  index := index
  payload := Vector.ofFn fun j => (evaluate (coefficients secret rows j) ⟨index⟩).byte

/-- The shares with the indices from one up to `count`. -/
def deal (secret : Key) (rows : List Key) (count : UInt8) : List Share :=
  (List.range count.toNat).map fun i => shareAt secret rows (UInt8.ofNat (i + 1))

/-- Splits a secret into `count` shares, of which `threshold` rebuild it. -/
def split (secret : Key) (count threshold : UInt8) (random : RandomSource) :
    Except SealingError (List Share × RandomSource) :=
  if threshold = 0 ∨ count < threshold then
    .error (.invalidParameters threshold.toNat count.toNat)
  else
    let (rows, random) := random.takeMany 32 (threshold.toNat - 1)
    .ok (deal secret rows count, random)

/-- The shares with distinct indices, after those that have been seen.  A share
may repeat one before it, but not contradict it. -/
def distinct (seen : List Share) : List Share → Except SealingError (List Share)
  | [] => .ok seen
  | share :: rest =>
    if share.index = 0 then .error (.corruptShare .reservedIndex)
    else
      match seen.find? fun known => known.index = share.index with
      | none => distinct (seen ++ [share]) rest
      | some known =>
        if known.payload = share.payload then distinct seen rest
        else .error (.corruptShare (.conflict share.index.toNat))

/-- The factor of the value at `i` in the interpolation at zero through the given
places, unless one of them is `i` again. -/
def weight? (i : UInt8) (places : List UInt8) : Option GF256 :=
  let others : List GF256 := (places.filter (· ≠ i)).map GF256.mk
  let numerator := others.foldl (· * ·) 1
  let denominator := (others.map (· - ⟨i⟩)).foldl (· * ·) 1
  GF256.div? numerator denominator

/-- The values at zero of the polynomials of least degree through the given
shares. -/
def interpolate (shares : List Share) : Except SealingError Key := do
  let places := shares.map Share.index
  let weights ← shares.mapM fun share =>
    match weight? share.index places with
    | some weight => Except.ok weight
    | none => .error (.corruptShare .repeatedPoint)
  return Vector.ofFn fun j =>
    ((weights.zip shares).foldl (fun sum (weight, share) => sum + weight * ⟨share.payload[j]⟩)
      (0 : GF256)).byte

/-- Rebuilds a secret from at least `threshold` shares with distinct indices. -/
def combine (shares : List Share) (threshold : UInt8) : Except SealingError Key :=
  if threshold = 0 then .error (.invalidParameters 0 (min shares.length 255))
  else do
    let points ← distinct [] shares
    if points.length < threshold.toNat then
      .error (.insufficientShares threshold.toNat points.length)
    else
      match points with
      | [only] => return only.payload
      | _ => interpolate points

end Sharing
end Quorum
