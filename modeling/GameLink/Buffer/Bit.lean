import GameLink.Buffer.Scalar

/-!
# Single bits

Bits are gathered eight to an octet, the first in the lowest place.  A full octet is
written at the cursor; `align` writes a partly filled one and starts afresh on both
the writing and the reading side.
-/

namespace GameLink
namespace Buffer

/-- Appends a bit; the eighth stores its octet. -/
def writeBit (b : Buffer) (v : Bool) : Buffer :=
  let bits := if v then b.pendingBits ||| (1 <<< UInt8.ofNat b.pendingCount) else b.pendingBits
  if b.pendingCount + 1 = 8 then
    { b with pendingBits := 0, pendingCount := 0 }.writeU8 bits
  else
    { b with pendingBits := bits, pendingCount := b.pendingCount + 1 }

/-- Appends bits in order. -/
def writeBits (b : Buffer) (vs : List Bool) : Buffer :=
  vs.foldl writeBit b

/-- Reads a bit; the first of eight loads a new octet. -/
def readBit (b : Buffer) : Bool × Buffer :=
  let (octet, rest) := if b.loadedCount = 0 then b.readU8 else (b.loadedBits, b)
  ( octet.toNat.testBit b.loadedCount,
    { rest with loadedBits := octet, loadedCount := (b.loadedCount + 1) % 8 } )

/-- Reads `n` bits in order. -/
def readBits : Nat → Buffer → List Bool × Buffer
  | 0, b => ([], b)
  | n + 1, b =>
      let (v, rest) := b.readBit
      let (vs, rest) := readBits n rest
      (v :: vs, rest)

/-- Stores a partly filled octet and forgets a partly read one. -/
def align (b : Buffer) : Buffer :=
  let stored :=
    if 0 < b.pendingCount then
      { b with pendingBits := 0, pendingCount := 0 }.writeU8 b.pendingBits
    else
      b
  { stored with loadedBits := 0, loadedCount := 0 }

end Buffer
end GameLink
