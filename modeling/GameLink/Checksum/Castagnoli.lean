import GameLink.Bytes

/-!
# The Castagnoli checksum

CRC-32C in its reflected form: a 32-bit register absorbs one octet at a time by eight
steps of polynomial division.

**Algorithm.** `shift` is one division step, `absorb` eight of them after adding an
octet to the low end, and `crc32c` runs the register from all ones and complements it.
-/

namespace GameLink
namespace Checksum

/-- The Castagnoli polynomial, its bits in reflected order. -/
def polynomial : UInt32 := 0x82F63B78

/-- The register before the first octet. -/
def initial : UInt32 := 0xFFFFFFFF

/-- One division step: the low bit leaves the register. -/
def shift (r : UInt32) : UInt32 :=
  if r &&& 1 = 1 then (r >>> 1) ^^^ polynomial else r >>> 1

/-- `n` division steps. -/
def shifts : Nat → UInt32 → UInt32
  | 0, r => r
  | n + 1, r => shifts n (shift r)

def absorb (r : UInt32) (b : UInt8) : UInt32 :=
  shifts 8 (r ^^^ b.toUInt32)

def absorbAll (r : UInt32) (data : Bytes) : UInt32 :=
  data.foldl absorb r

/-- The checksum of a byte string, one bit at a time. -/
def crc32c (data : Bytes) : UInt32 :=
  ~~~ absorbAll initial data

theorem absorbAll_append (r : UInt32) (u v : Bytes) :
    absorbAll r (u ++ v) = absorbAll (absorbAll r u) v := by
  simp [absorbAll]

end Checksum
end GameLink
