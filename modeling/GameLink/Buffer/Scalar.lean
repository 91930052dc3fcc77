import GameLink.Buffer.Basic
import GameLink.Single

/-!
# Numbers of a fixed width

The ten number types of the wire, each little-endian in its natural width.  A number
that is not there to be read is zero.
-/

namespace GameLink
namespace Buffer

/-- A number type with a fixed width. -/
inductive ScalarKind
  | u8 | i8 | u16 | i16 | u32 | i32 | u64 | i64 | f32 | f64
deriving DecidableEq, Repr

def ScalarKind.width : ScalarKind → Nat
  | .u8 | .i8 => 1
  | .u16 | .i16 => 2
  | .u32 | .i32 | .f32 => 4
  | .u64 | .i64 | .f64 => 8

/-- A number with its type; the binary64 format is kept as its bits. -/
inductive Scalar
  | u8 (v : UInt8)
  | i8 (v : Int8)
  | u16 (v : UInt16)
  | i16 (v : Int16)
  | u32 (v : UInt32)
  | i32 (v : Int32)
  | u64 (v : UInt64)
  | i64 (v : Int64)
  | f32 (v : Single)
  | f64 (bits : UInt64)
deriving DecidableEq, Repr

namespace Scalar

def kind : Scalar → ScalarKind
  | .u8 _ => .u8
  | .i8 _ => .i8
  | .u16 _ => .u16
  | .i16 _ => .i16
  | .u32 _ => .u32
  | .i32 _ => .i32
  | .u64 _ => .u64
  | .i64 _ => .i64
  | .f32 _ => .f32
  | .f64 _ => .f64

/-- The bits of a number as a natural. -/
def toNat : Scalar → Nat
  | .u8 v => v.toNat
  | .i8 v => v.toUInt8.toNat
  | .u16 v => v.toNat
  | .i16 v => v.toUInt16.toNat
  | .u32 v => v.toNat
  | .i32 v => v.toUInt32.toNat
  | .u64 v => v.toNat
  | .i64 v => v.toUInt64.toNat
  | .f32 v => v.bits.toNat
  | .f64 v => v.toNat

/-- The number of a type with the given bits. -/
def ofNat : ScalarKind → Nat → Scalar
  | .u8, n => .u8 (UInt8.ofNat n)
  | .i8, n => .i8 (UInt8.ofNat n).toInt8
  | .u16, n => .u16 (UInt16.ofNat n)
  | .i16, n => .i16 (UInt16.ofNat n).toInt16
  | .u32, n => .u32 (UInt32.ofNat n)
  | .i32, n => .i32 (UInt32.ofNat n).toInt32
  | .u64, n => .u64 (UInt64.ofNat n)
  | .i64, n => .i64 (UInt64.ofNat n).toInt64
  | .f32, n => .f32 ⟨UInt32.ofNat n⟩
  | .f64, n => .f64 (UInt64.ofNat n)

def toBytes (s : Scalar) : Bytes :=
  Bytes.ofNat s.kind.width s.toNat

@[simp] theorem kind_ofNat (k : ScalarKind) (n : Nat) : (ofNat k n).kind = k := by
  cases k <;> rfl

@[simp] theorem length_toBytes (s : Scalar) :
    s.toBytes.length = s.kind.width := by
  simp [toBytes]

/-- A number is the number with its own bits. -/
theorem ofNat_toNat (s : Scalar) : ofNat s.kind s.toNat = s := by
  cases s <;> simp [kind, toNat, ofNat]

end Scalar

def writeScalar (b : Buffer) (s : Scalar) : Buffer :=
  b.write s.toBytes

/-- Reads the bits of a number of `width` octets, zero if they are not there. -/
def readNat (width : Nat) (b : Buffer) : Nat × Buffer :=
  match b.read? width with
  | (some bs, rest) => (Bytes.toNat bs, rest)
  | (none, rest) => (0, rest)

def readScalar (k : ScalarKind) (b : Buffer) : Scalar × Buffer :=
  let (n, rest) := b.readNat k.width
  (Scalar.ofNat k n, rest)

/-- Reads a number without moving the cursor. -/
def peekScalar (k : ScalarKind) (b : Buffer) : Scalar :=
  Scalar.ofNat k ((b.peek? k.width).elim 0 Bytes.toNat)

section Kinds

variable (b : Buffer)

def writeU8 (v : UInt8) : Buffer := b.writeScalar (.u8 v)

def writeU16 (v : UInt16) : Buffer := b.writeScalar (.u16 v)

/-- Writes a signed number of two octets. -/
def writeI16 (v : Int16) : Buffer := b.writeScalar (.i16 v)

def writeU32 (v : UInt32) : Buffer := b.writeScalar (.u32 v)

def writeU64 (v : UInt64) : Buffer := b.writeScalar (.u64 v)

/-- Writes a number of the binary32 format. -/
def writeSingle (v : Single) : Buffer := b.writeScalar (.f32 v)

/-- Writes a truth value as one octet. -/
def writeBool (v : Bool) : Buffer := b.writeU8 (if v then 1 else 0)

def readU8 : UInt8 × Buffer :=
  let (n, rest) := b.readNat 1
  (UInt8.ofNat n, rest)

def readU16 : UInt16 × Buffer :=
  let (n, rest) := b.readNat 2
  (UInt16.ofNat n, rest)

/-- Reads a signed number of two octets. -/
def readI16 : Int16 × Buffer :=
  let (n, rest) := b.readNat 2
  ((UInt16.ofNat n).toInt16, rest)

def readU32 : UInt32 × Buffer :=
  let (n, rest) := b.readNat 4
  (UInt32.ofNat n, rest)

def readU64 : UInt64 × Buffer :=
  let (n, rest) := b.readNat 8
  (UInt64.ofNat n, rest)

/-- Reads a number of the binary32 format. -/
def readSingle : Single × Buffer :=
  let (n, rest) := b.readNat 4
  (⟨UInt32.ofNat n⟩, rest)

/-- Reads a truth value: any octet but zero. -/
def readBool : Bool × Buffer :=
  let (v, rest) := b.readU8
  (v != 0, rest)

end Kinds
end Buffer
end GameLink
