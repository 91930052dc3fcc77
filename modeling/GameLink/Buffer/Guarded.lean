import GameLink.Buffer.Operation

/-!
# Operations with every access guarded

The operations on a buffer once more, made of single accesses to the storage and single sums
of positions.  An access outside of the storage is a fault, and so is a number that its type
cannot hold; neither is possible in the operations themselves, which are total.

**Order.** The accesses of an operation stand in the order in which they are made, each with its
own guard: room is looked for before it is used, and a composed value is written and read piece
by piece.
-/

namespace GameLink

/-- What can be wrong with an access. -/
inductive Fault
  /-- An index or a slice outside of the storage. -/
  | outOfRange
  /-- A sum, a difference or a shift that the type of the number cannot hold. -/
  | overflow
deriving DecidableEq, Repr

namespace Guard

/-- The sum of two numbers of a type with `size` values. -/
def sum (size m n : Nat) : Except Fault Nat :=
  if m + n < size then .ok (m + n) else .error .overflow

/-- The difference of two numbers without a sign. -/
def difference (m n : Nat) : Except Fault Nat :=
  if n ≤ m then .ok (m - n) else .error .overflow

/-- The product of two numbers of a type with `size` values. -/
def product (size m n : Nat) : Except Fault Nat :=
  if m * n < size then .ok (m * n) else .error .overflow

/-- A shift of a number with `width` bits. -/
def shift (width places : Nat) : Except Fault Unit :=
  if places < width then .ok () else .error .overflow

/-- The octet at an index. -/
def octetAt (bs : Bytes) (i : Nat) : Except Fault UInt8 :=
  if i < bs.length then .ok (bs.getD i 0) else .error .outOfRange

/-- The octets from an index up to another. -/
def slice (bs : Bytes) (start stop : Nat) : Except Fault Bytes :=
  if start ≤ stop ∧ stop ≤ bs.length then .ok ((bs.drop start).take (stop - start))
  else .error .outOfRange

/-- The octets with those from an index up to another replaced by as many others. -/
def store (bs : Bytes) (start stop : Nat) (source : Bytes) : Except Fault Bytes :=
  if start ≤ stop ∧ stop ≤ bs.length ∧ source.length = stop - start then
    .ok (bs.take start ++ source ++ bs.drop stop)
  else
    .error .outOfRange

end Guard

namespace Buffer
namespace Guarded

open Guard

section Storage

def fits (b : Buffer) (n : Nat) : Except Fault Bool := do
  let stop ← sum UInt64.size b.position n
  return stop ≤ b.capacity

def holds (b : Buffer) (n : Nat) : Except Fault Bool := do
  let stop ← sum UInt64.size b.position n
  return stop ≤ b.length

def write (bs : Bytes) (b : Buffer) : Except Fault Buffer := do
  if ← fits b bs.length then
    let stop ← sum UInt64.size b.position bs.length
    let storage ← store b.storage b.position stop bs
    let position ← sum UInt64.size b.position bs.length
    return { b with storage, position, length := max b.length position }
  else
    return b

def peek? (n : Nat) (b : Buffer) : Except Fault (Option Bytes) := do
  if ← holds b n then
    let stop ← sum UInt64.size b.position n
    let bs ← slice b.storage b.position stop
    return some bs
  else
    return none

def read? (n : Nat) (b : Buffer) : Except Fault (Option Bytes × Buffer) := do
  match ← peek? n b with
  | some bs =>
      let position ← sum UInt64.size b.position n
      return (some bs, { b with position })
  | none => return (none, b)

def readBytes (n : Nat) (b : Buffer) : Except Fault (Bytes × Buffer) := do
  let (bs?, rest) ← read? n b
  return (bs?.getD [], rest)

def readOctets (n : Nat) (b : Buffer) : Except Fault (Octets n × Buffer) := do
  let (bs?, rest) ← read? n b
  return ((bs?.bind (Octets.ofBytes? n)).getD (Octets.zero n), rest)

def contents (b : Buffer) : Except Fault Bytes :=
  slice b.storage 0 b.length

def unread (b : Buffer) : Except Fault Bytes :=
  slice b.storage (min b.position b.length) b.length

def load (bs : Bytes) (b : Buffer) : Except Fault Buffer := do
  let count := if b.capacity < bs.length then b.capacity else bs.length
  let kept ← slice bs 0 count
  let storage ← store b.storage 0 count kept
  return { b.reset with storage, length := count }

end Storage

section Numbers

def readNat (width : Nat) (b : Buffer) : Except Fault (Nat × Buffer) := do
  let (bs?, rest) ← read? width b
  return (bs?.elim 0 Bytes.toNat, rest)

def readScalar (k : ScalarKind) (b : Buffer) : Except Fault (Scalar × Buffer) := do
  let (n, rest) ← readNat k.width b
  return (Scalar.ofNat k n, rest)

def peekScalar (k : ScalarKind) (b : Buffer) : Except Fault Scalar := do
  let bs? ← peek? k.width b
  return Scalar.ofNat k (bs?.elim 0 Bytes.toNat)

def writeScalar (s : Scalar) (b : Buffer) : Except Fault Buffer :=
  write s.toBytes b

def writeBool (v : Bool) (b : Buffer) : Except Fault Buffer :=
  writeScalar (.u8 (if v then 1 else 0)) b

def readU8 (b : Buffer) : Except Fault (UInt8 × Buffer) := do
  let (n, rest) ← readNat 1 b
  return (UInt8.ofNat n, rest)

def readI16 (b : Buffer) : Except Fault (Int16 × Buffer) := do
  let (n, rest) ← readNat 2 b
  return ((UInt16.ofNat n).toInt16, rest)

def readBool (b : Buffer) : Except Fault (Bool × Buffer) := do
  let (v, rest) ← readU8 b
  return (v != 0, rest)

end Numbers

section Numerals

/-- The base-128 numeral of a number in a place for `room` octets. -/
def encode : Nat → Nat → Except Fault Bytes
  | 0, _ => .error .outOfRange
  | room + 1, n =>
      if n < 128 then
        return [UInt8.ofNat n]
      else do
        let more ← encode room (n / 128)
        return UInt8.ofNat (n % 128 + 128) :: more

def writeVarNat (n : Nat) (b : Buffer) : Except Fault Buffer := do
  write (← encode 10 n) b

def readVarNatFrom (value place : Nat) : Nat → Buffer → Except Fault (Nat × Buffer)
  | 0, b => return (0, b)
  | limit + 1, b =>
      if b.position < b.length then do
        let octet ← octetAt b.storage b.position
        let position ← sum UInt64.size b.position 1
        shift 64 (7 * place)
        let value := value + (octet.toNat % 128) <<< (7 * place)
        if octet.toNat < 128 then
          return (value, { b with position })
        else
          readVarNatFrom value (place + 1) limit { b with position }
      else
        return (0, { b with position := b.length })

def readVaruint (b : Buffer) : Except Fault (UInt32 × Buffer) := do
  let (n, rest) ← readVarNatFrom 0 0 Varint.limit32 b
  return (UInt32.ofNat n, rest)

def readVarulong (b : Buffer) : Except Fault (UInt64 × Buffer) := do
  let (n, rest) ← readVarNatFrom 0 0 Varint.limit64 b
  return (UInt64.ofNat n, rest)

def readVarint (b : Buffer) : Except Fault (Int32 × Buffer) := do
  let (v, rest) ← readVaruint b
  return (Varint.unfold32 v, rest)

def readVarlong (b : Buffer) : Except Fault (Int64 × Buffer) := do
  let (v, rest) ← readVarulong b
  return (Varint.unfold64 v, rest)

end Numerals

section Texts

def writePrefixed (bs : Bytes) (b : Buffer) : Except Fault Buffer := do
  if bs.length < UInt32.size then
    let size ← sum UInt64.size 4 bs.length
    if ← fits b size then
      let b ← write (Bytes.ofNat 4 bs.length) b
      write bs b
    else
      return b
  else
    return b

def readPrefixed (b : Buffer) : Except Fault (Bytes × Buffer) := do
  let (count, rest) ← readNat 4 b
  if count = 0 ∨ rest.remaining < count then
    return ([], rest)
  else
    readBytes count rest

def readText (b : Buffer) : Except Fault (String × Buffer) := do
  let (bs, rest) ← readPrefixed b
  return (Utf8.decode bs, rest)

def readAscii (b : Buffer) : Except Fault (String × Buffer) := do
  let (bs, rest) ← readPrefixed b
  return (Ascii.decode bs, rest)

end Texts

section Bits

def writeBit (v : Bool) (b : Buffer) : Except Fault Buffer := do
  shift 8 b.pendingCount
  let bits := if v then b.pendingBits ||| (1 <<< UInt8.ofNat b.pendingCount) else b.pendingBits
  let count ← sum UInt8.size b.pendingCount 1
  if count = 8 then
    writeScalar (.u8 bits) { b with pendingBits := 0, pendingCount := 0 }
  else
    return { b with pendingBits := bits, pendingCount := count }

def writeBits : List Bool → Buffer → Except Fault Buffer
  | [], b => return b
  | v :: vs, b => do writeBits vs (← writeBit v b)

def readBit (b : Buffer) : Except Fault (Bool × Buffer) := do
  let (octet, rest) ← if b.loadedCount = 0 then readU8 b else pure (b.loadedBits, b)
  shift 8 b.loadedCount
  let count ← sum UInt8.size b.loadedCount 1
  return (octet.toNat.testBit b.loadedCount,
    { rest with loadedBits := octet, loadedCount := count % 8 })

def readBits : Nat → Buffer → Except Fault (List Bool × Buffer)
  | 0, b => return ([], b)
  | n + 1, b => do
      let (v, rest) ← readBit b
      let (vs, rest) ← readBits n rest
      return (v :: vs, rest)

def align (b : Buffer) : Except Fault Buffer := do
  let stored ←
    if 0 < b.pendingCount then
      writeScalar (.u8 b.pendingBits) { b with pendingBits := 0, pendingCount := 0 }
    else
      pure b
  return { stored with loadedBits := 0, loadedCount := 0 }

end Bits

section Vectors

/-- Writes three components, one after the other, if there is room for all of them. -/
def writeComponents (x y z : Single) (b : Buffer) : Except Fault Buffer := do
  if ← fits b 6 then
    let b ← writeScalar (.i16 x.quantize) b
    let b ← writeScalar (.i16 y.quantize) b
    writeScalar (.i16 z.quantize) b
  else
    return b

def readComponent (b : Buffer) : Except Fault (Single × Buffer) := do
  let (q, rest) ← readI16 b
  return (Single.dequantize q, rest)

def readComponents (b : Buffer) : Except Fault ((Single × Single × Single) × Buffer) := do
  let (x, rest) ← readComponent b
  let (y, rest) ← readComponent rest
  let (z, rest) ← readComponent rest
  return ((x, y, z), rest)

def readVector (b : Buffer) : Except Fault (Vector3 × Buffer) := do
  if ← holds b 6 then
    let ((x, y, z), rest) ← readComponents b
    return (⟨x, y, z⟩, rest)
  else
    return (Vector3.zero, b)

def readRotator (b : Buffer) : Except Fault (Rotator × Buffer) := do
  if ← holds b 6 then
    let ((x, y, z), rest) ← readComponents b
    return (⟨x, y, z⟩, rest)
  else
    return (Rotator.zero, b)

def writeVarint (v : Int32) (b : Buffer) : Except Fault Buffer :=
  writeVarNat (Varint.fold32 v).toNat b

def writeWholeVector (v : Vector3) (b : Buffer) : Except Fault Buffer := do
  let b ← writeVarint v.x.truncate b
  let b ← writeVarint v.y.truncate b
  writeVarint v.z.truncate b

def readWholeVector (b : Buffer) : Except Fault (Vector3 × Buffer) := do
  let (x, rest) ← readVarint b
  let (y, rest) ← readVarint rest
  let (z, rest) ← readVarint rest
  return (⟨.ofInt32 x, .ofInt32 y, .ofInt32 z⟩, rest)

end Vectors

section Signatures

def sign (b : Buffer) : Except Fault Buffer := do
  let bs ← contents b
  writeScalar (.u32 (Checksum.crc32c bs)) { b with position := b.length }

def signature (b : Buffer) : Except Fault UInt32 := do
  if b.length < signatureSize then
    return 0
  else
    let start ← difference b.length signatureSize
    let bs ← slice b.storage start b.length
    return UInt32.ofNat (Bytes.toNat bs)

def verify (b : Buffer) : Except Fault (Except Failure Buffer) := do
  if b.length < signatureSize then
    return .error (.malformed (.shortSignature b.length))
  else
    let expected ← signature b
    let stop ← difference b.length signatureSize
    let bs ← slice b.storage 0 stop
    if expected ≠ Checksum.crc32c bs then
      return .error (.checksumMismatch expected (Checksum.crc32c bs))
    else
      let length ← difference b.length signatureSize
      return .ok { b with length, position := min b.position length }

def digest (b : Buffer) : Except Fault UInt32 := do
  let bs ← contents b
  return bs.foldl (fun d octet => d * 33 + octet.toUInt32) 0

def toHex (b : Buffer) : Except Fault String := do
  let _ ← product UInt64.size b.length 2
  let bs ← contents b
  return Hex.dump .upper bs

end Signatures

section OperationData

def writeItem : Item → Buffer → Except Fault Buffer
  | .scalar v => writeScalar v
  | .bool v => writeBool v
  | .bytes v => write v
  | .varint v => writeVarint v
  | .varlong v => writeVarNat (Varint.fold64 v).toNat
  | .varuint v => writeVarNat v.toNat
  | .varulong v => writeVarNat v.toNat
  | .text v => writePrefixed (Utf8.encode v)
  | .ascii v => writePrefixed (Ascii.encode v)
  | .vector v => writeComponents v.x v.y v.z
  | .rotator v => writeComponents v.pitch v.yaw v.roll
  | .wholeVector v => writeWholeVector v
  | .bit v => writeBit v
  | .bits v => writeBits v

/-- A reader of values as a reader of items. -/
def itemOf {α : Type} (item : α → Item) (read : Buffer → Except Fault (α × Buffer))
    (b : Buffer) : Except Fault (Item × Buffer) := do
  let (v, rest) ← read b
  return (item v, rest)

def readItem : Kind → Buffer → Except Fault (Item × Buffer)
  | .scalar k => itemOf .scalar (readScalar k)
  | .bool => itemOf .bool readBool
  | .bytes n => itemOf .bytes (readBytes n)
  | .varint => itemOf .varint readVarint
  | .varlong => itemOf .varlong readVarlong
  | .varuint => itemOf .varuint readVaruint
  | .varulong => itemOf .varulong readVarulong
  | .text => itemOf .text readText
  | .ascii => itemOf .ascii readAscii
  | .vector => itemOf .vector readVector
  | .rotator => itemOf .rotator readRotator
  | .wholeVector => itemOf .wholeVector readWholeVector
  | .bit => itemOf .bit readBit
  | .bits n => itemOf .bits (readBits n)

def run (b : Buffer) : Operation → Except Fault (Answer × Buffer)
  | .write item => return (.nothing, ← writeItem item b)
  | .read kind => do
      let (item, rest) ← readItem kind b
      return (.item item, rest)
  | .readOctets count => do
      let (octets, rest) ← readOctets count b
      return (.bytes octets.bytes, rest)
  | .peek kind => return (.item (.scalar (← peekScalar kind b)), b)
  | .align => return (.nothing, ← align b)
  | .sign => return (.nothing, ← sign b)
  | .signature => return (.number (← signature b).toNat, b)
  | .verify => do
      match ← verify b with
      | .ok rest => return (.verified none, rest)
      | .error failure => return (.verified (some failure), b)
  | .digest => return (.number (← digest b).toNat, b)
  | .hex => return (.text (← toHex b), b)
  | .seek position => return (.nothing, b.seek position)
  | .reset => return (.nothing, b.reset)
  | .load bytes => return (.nothing, ← load bytes b)
  | .remaining => return (.number b.remaining, b)
  | .isEmpty => return (.flag (b.length == 0), b)
  | .unread => return (.bytes (← unread b), b)
  | .contents => return (.bytes (← contents b), b)
  | .copy => return (.nothing, b)
  | .describe => return (.text b.describe, b)

end OperationData

end Guarded
end Buffer
end GameLink
