import GameLink.Buffer.Text
import GameLink.Buffer.Bit
import GameLink.Buffer.Vector

/-!
# Items

Everything that can be written to a buffer as one value, with its kind.  The kind says
how to read the value back, and the normal form says what comes back.
-/

namespace GameLink
namespace Buffer

inductive Kind
  | scalar (kind : ScalarKind)
  | bool
  | bytes (count : Nat)
  | varint
  | varlong
  | varuint
  | varulong
  | text
  | ascii
  | vector
  | rotator
  | wholeVector
  | bit
  | bits (count : Nat)
deriving DecidableEq, Repr

inductive Item
  | scalar (v : Scalar)
  | bool (v : Bool)
  | bytes (v : Bytes)
  | varint (v : Int32)
  | varlong (v : Int64)
  | varuint (v : UInt32)
  | varulong (v : UInt64)
  | text (v : String)
  | ascii (v : String)
  | vector (v : Vector3)
  | rotator (v : Rotator)
  | wholeVector (v : Vector3)
  | bit (v : Bool)
  | bits (v : List Bool)
deriving DecidableEq, Repr

namespace Item

def kind : Item → Kind
  | .scalar v => .scalar v.kind
  | .bool _ => .bool
  | .bytes v => .bytes v.length
  | .varint _ => .varint
  | .varlong _ => .varlong
  | .varuint _ => .varuint
  | .varulong _ => .varulong
  | .text _ => .text
  | .ascii _ => .ascii
  | .vector _ => .vector
  | .rotator _ => .rotator
  | .wholeVector _ => .wholeVector
  | .bit _ => .bit
  | .bits v => .bits v.length

/-- The value that is read back. -/
def normal : Item → Item
  | .ascii v => .ascii (Ascii.clamp v)
  | .vector v => .vector (v.map fun c => Single.dequantize c.quantize)
  | .rotator v => .rotator (v.map fun c => Single.dequantize c.quantize)
  | .wholeVector v => .wholeVector (v.map fun c => Single.ofInt32 c.truncate)
  | item => item

def write (b : Buffer) : Item → Buffer
  | .scalar v => b.writeScalar v
  | .bool v => b.writeBool v
  | .bytes v => b.write v
  | .varint v => b.writeVarint v
  | .varlong v => b.writeVarlong v
  | .varuint v => b.writeVaruint v
  | .varulong v => b.writeVarulong v
  | .text v => b.writeText v
  | .ascii v => b.writeAscii v
  | .vector v => b.writeVector v
  | .rotator v => b.writeRotator v
  | .wholeVector v => b.writeWholeVector v
  | .bit v => b.writeBit v
  | .bits v => b.writeBits v

@[simp] theorem kind_normal (i : Item) : i.normal.kind = i.kind := by
  cases i <;> rfl

end Item

namespace Kind

def read (b : Buffer) : Kind → Item × Buffer
  | .scalar k => (b.readScalar k).map .scalar id
  | .bool => b.readBool.map .bool id
  | .bytes n => (b.readBytes n).map .bytes id
  | .varint => b.readVarint.map .varint id
  | .varlong => b.readVarlong.map .varlong id
  | .varuint => b.readVaruint.map .varuint id
  | .varulong => b.readVarulong.map .varulong id
  | .text => b.readText.map .text id
  | .ascii => b.readAscii.map .ascii id
  | .vector => b.readVector.map .vector id
  | .rotator => b.readRotator.map .rotator id
  | .wholeVector => b.readWholeVector.map .wholeVector id
  | .bit => b.readBit.map .bit id
  | .bits n => (Buffer.readBits n b).map .bits id

end Kind
end Buffer
end GameLink
