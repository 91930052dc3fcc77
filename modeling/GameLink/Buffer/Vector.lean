import GameLink.Buffer.Scalar
import GameLink.Buffer.Varint

/-!
# Vectors and rotators

Three components, each a number of quantization steps in two octets; they are written
and read together or not at all.  A whole vector carries the integer parts instead,
one variable-width number after the other.
-/

namespace GameLink
namespace Buffer

/-- The octets of three components in quantization steps. -/
def quantizedBytes (x y z : Single) : Bytes :=
  [x, y, z].flatMap fun c => (Scalar.i16 c.quantize).toBytes

def vectorBytes (v : Vector3) : Bytes :=
  quantizedBytes v.x v.y v.z

def rotatorBytes (r : Rotator) : Bytes :=
  quantizedBytes r.pitch r.yaw r.roll

/-- Writes a vector, all of it or nothing. -/
def writeVector (b : Buffer) (v : Vector3) : Buffer :=
  b.write (vectorBytes v)

/-- Writes a rotator, all of it or nothing. -/
def writeRotator (b : Buffer) (r : Rotator) : Buffer :=
  b.write (rotatorBytes r)

/-- Reads one component in quantization steps. -/
def readComponent (b : Buffer) : Single × Buffer :=
  let (q, rest) := b.readI16
  (Single.dequantize q, rest)

/-- Reads three components in quantization steps. -/
def readComponents (b : Buffer) : (Single × Single × Single) × Buffer :=
  let (x, rest) := b.readComponent
  let (y, rest) := rest.readComponent
  let (z, rest) := rest.readComponent
  ((x, y, z), rest)

/-- Reads a vector, zero if a component is missing. -/
def readVector (b : Buffer) : Vector3 × Buffer :=
  if b.holds 6 then
    let ((x, y, z), rest) := b.readComponents
    (⟨x, y, z⟩, rest)
  else
    (Vector3.zero, b)

/-- Reads a rotator, zero if a component is missing. -/
def readRotator (b : Buffer) : Rotator × Buffer :=
  if b.holds 6 then
    let ((x, y, z), rest) := b.readComponents
    (⟨x, y, z⟩, rest)
  else
    (Rotator.zero, b)

/-- Writes the integer parts of a vector, each for itself. -/
def writeWholeVector (b : Buffer) (v : Vector3) : Buffer :=
  ((b.writeVarint v.x.truncate).writeVarint v.y.truncate).writeVarint v.z.truncate

/-- Reads the integer parts of a vector. -/
def readWholeVector (b : Buffer) : Vector3 × Buffer :=
  let (x, rest) := b.readVarint
  let (y, rest) := rest.readVarint
  let (z, rest) := rest.readVarint
  (⟨.ofInt32 x, .ofInt32 y, .ofInt32 z⟩, rest)

end Buffer
end GameLink
