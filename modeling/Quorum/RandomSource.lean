import Quorum.Bytes

/-!
# Random sources

A random source is an endless stream of bytes together with the number of bytes
that have been taken from it.  Sealing reads it only through `take`, so a result
depends on nothing but the bytes it has taken.
-/

namespace Quorum

/-- A stream of bytes and the place up to which it has been read. -/
structure RandomSource where
  byteAt : Nat → UInt8
  taken : Nat := 0

namespace RandomSource

/-- The next `n` bytes. -/
def next (source : RandomSource) (n : Nat) : Bytes n :=
  Vector.ofFn fun i => source.byteAt (source.taken + i)

/-- The source after `n` further bytes. -/
def skip (source : RandomSource) (n : Nat) : RandomSource :=
  { source with taken := source.taken + n }

/-- The next `n` bytes, and the source after them. -/
def take (source : RandomSource) (n : Nat) : Bytes n × RandomSource :=
  (source.next n, source.skip n)

/-- The next `count` byte strings of length `n`, and the source after them. -/
def takeMany (source : RandomSource) (n : Nat) : (count : Nat) → List (Bytes n) × RandomSource
  | 0 => ([], source)
  | count + 1 =>
    let (rest, after) := (source.skip n).takeMany n count
    (source.next n :: rest, after)

/-- A number below `bound`, which is at most `2²⁵⁵`: 32 bytes are read as a
little-endian number without its highest bit, and again if that is too large,
but not more often than `attempts` times. -/
def takeBelow (source : RandomSource) (bound : Nat) :
    (attempts : Nat) → Option (Fin bound × RandomSource)
  | 0 => none
  | attempts + 1 =>
    let number := ofLittleEndian (source.next 32).toList % Nat.pow 2 255
    if h : number < bound then some (⟨number, h⟩, source.skip 32)
    else (source.skip 32).takeBelow bound attempts

end RandomSource

namespace SplitMix

/-- The amount by which the state grows with every number. -/
def increment : UInt64 := 0x9e3779b97f4a7c15

/-- The number that is made from a state. -/
def mix (state : UInt64) : UInt64 :=
  let z := (state ^^^ (state >>> 30)) * 0xbf58476d1ce4e5b9
  let z := (z ^^^ (z >>> 27)) * 0x94d049bb133111eb
  z ^^^ (z >>> 31)

/-- The byte at a place of the stream that starts with a seed; every number gives
eight bytes, the least significant first. -/
def byteAt (seed : UInt64) (place : Nat) : UInt8 :=
  let number := mix (seed + UInt64.ofNat (place / 8 + 1) * increment)
  (number >>> UInt64.ofNat (8 * (place % 8))).toUInt8

/-- Given bytes followed by the stream of a seed. -/
def source (first : Array UInt8) (seed : UInt64) : RandomSource where
  byteAt place := first.getD place (byteAt seed (place - first.size))

end SplitMix
end Quorum
