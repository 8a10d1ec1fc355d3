/-!
# Numbers of variable length

A number is written with seven bits in each byte, the least significant ones
first; the high bit is set in every byte but the last.
-/

namespace Quorum
namespace Wire

/-- The shortest form of a number. -/
def uleb128 (value : Nat) : List UInt8 :=
  if value < 128 then [UInt8.ofNat value]
  else UInt8.ofNat (value % 128 + 128) :: uleb128 (value / 128)
termination_by value

end Wire
end Quorum
