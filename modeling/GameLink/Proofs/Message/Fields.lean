import GameLink.Message.Server
import GameLink.Message.Client
import GameLink.Proofs.Buffer.Remaining

/-!
# Messages as fields

The messages of both sides are lists of fields, each of a kind with a fixed width.  A
message is written as the octets of its fields and read by the kinds of its fields.

**Results.**
* `writeFields_eq_write`: a message that fits is one write of its octets.
* `readAll_layout`: a message is read field by field, in the order of its kinds.
* `eq_of_fields`: a message is known from its kind and its fields.
-/

namespace GameLink

open Buffer

/-- The kind of a field. -/
inductive FieldKind
  | scalar (kind : ScalarKind)
  | bool
  | vector
  | rotator
deriving DecidableEq, Repr

inductive Field
  | scalar (v : Scalar)
  | bool (v : Bool)
  | vector (v : Vector3)
  | rotator (v : Rotator)
deriving DecidableEq, Repr

/-- A component rounded to quantization steps. -/
def Single.stepped (c : Single) : Single :=
  Single.dequantize c.quantize

namespace FieldKind

/-- How many octets a field has. -/
def width : FieldKind → Nat
  | .scalar kind => kind.width
  | .bool => 1
  | .vector | .rotator => 6

/-- The field that is read if its octets are not there. -/
def zero : FieldKind → Field
  | .scalar kind => .scalar (.ofNat kind 0)
  | .bool => .bool false
  | .vector => .vector Vector3.zero
  | .rotator => .rotator Rotator.zero

def read (b : Buffer) : FieldKind → Field × Buffer
  | .scalar kind => (b.readScalar kind).map .scalar id
  | .bool => b.readBool.map .bool id
  | .vector => b.readVector.map .vector id
  | .rotator => b.readRotator.map .rotator id

/-- Reads fields in order. -/
def readAll (b : Buffer) : List FieldKind → List Field × Buffer
  | [] => ([], b)
  | kind :: kinds =>
      let (field, rest) := kind.read b
      let (fields, rest) := readAll rest kinds
      (field :: fields, rest)

/-- How many octets fields have together. -/
def size : List FieldKind → Nat
  | [] => 0
  | kind :: kinds => kind.width + size kinds

end FieldKind

namespace Field

def kind : Field → FieldKind
  | .scalar v => .scalar v.kind
  | .bool _ => .bool
  | .vector _ => .vector
  | .rotator _ => .rotator

def octets : Field → Bytes
  | .scalar v => v.toBytes
  | .bool v => (Scalar.u8 (if v then 1 else 0)).toBytes
  | .vector v => vectorBytes v
  | .rotator v => rotatorBytes v

/-- The field that is read back: components are rounded to quantization steps. -/
def normal : Field → Field
  | .vector v => .vector (v.map Single.stepped)
  | .rotator v => .rotator (v.map Single.stepped)
  | field => field

/-- Writes fields in order. -/
def writeAll (b : Buffer) (fields : List Field) : Buffer :=
  fields.foldl (fun b field => b.write field.octets) b

/-- The octets of fields, one field after the other. -/
def octetsOf (fields : List Field) : Bytes :=
  fields.flatMap octets

variable {b : Buffer}

theorem length_octets (field : Field) : field.octets.length = field.kind.width := by
  cases field with
  | scalar v => exact Scalar.length_toBytes v
  | bool v => exact Scalar.length_toBytes _
  | vector v => exact length_quantizedBytes ..
  | rotator v => exact length_quantizedBytes ..

theorem length_octetsOf (fields : List Field) :
    (octetsOf fields).length = FieldKind.size (fields.map kind) := by
  induction fields with
  | nil => rfl
  | cons field fields ih =>
      rw [octetsOf, List.flatMap_cons, List.length_append, length_octets]
      exact congrArg (field.kind.width + ·) ih

@[simp] theorem kind_normal (field : Field) : field.normal.kind = field.kind := by
  cases field <;> rfl

/-- A field is read from its octets. -/
theorem reads (field : Field) :
    Reads (fun b => field.kind.read b) field.octets field.normal := by
  cases field with
  | scalar v => exact (reads_scalar v).map Field.scalar
  | bool v => exact (reads_bool v).map Field.bool
  | vector v => exact (reads_vector v).map Field.vector
  | rotator v => exact (reads_rotator v).map Field.rotator

/-- Fields that fit are one write of their octets. -/
theorem writeAll_eq_write
    {fields : List Field} (hposition : b.position ≤ b.length)
    (hfits : b.fits (octetsOf fields).length = true) :
    writeAll b fields = b.write (octetsOf fields) := by
  induction fields generalizing b with
  | nil => exact (write_nil hposition hfits).symm
  | cons field fields ih =>
      rw [octetsOf, List.flatMap_cons] at hfits ⊢
      have hrest := ih (position_le_length_write (fits_left hfits)) (fits_write hfits)
      rw [← write_write hfits]
      exact hrest

end Field

/-- Fields are read from their octets. -/
theorem FieldKind.readAll_of_before
    {b : Buffer} {rest : Bytes} {fields : List Field}
    (hb : b.Before (Field.octetsOf fields ++ rest)) :
    readAll b (fields.map Field.kind) =
      (fields.map Field.normal, b.advance (Field.octetsOf fields).length) := by
  induction fields generalizing b with
  | nil => rfl
  | cons field fields ih =>
      rw [Field.octetsOf, List.flatMap_cons, List.append_assoc] at hb
      have hread := field.reads b _ hb
      have hrest := ih hb.advance
      simp only [List.map_cons, readAll, hread, hrest, advance_advance, Field.octetsOf,
        List.flatMap_cons, List.length_append]

section BothSides

/-- Who sends a message. -/
inductive Side
  | server
  | client
deriving DecidableEq, Repr

inductive MessageKind
  | server (kind : ServerMessageKind)
  | client (kind : ClientMessageKind)
deriving DecidableEq, Repr

inductive Message
  | server (message : ServerMessage)
  | client (message : ClientMessage)
deriving DecidableEq, Repr

/-- Reads a message of a side: its number and its fields. -/
def Side.decode (b : Buffer) : Side → Except Failure Message × Buffer
  | .server => (ServerMessage.decode b).map (Except.map .server) id
  | .client => (ClientMessage.decode b).map (Except.map .client) id

/-- The fields of a position relative to a quadrant. -/
def QuadrantPosition.fields (p : QuadrantPosition) : List Field :=
  [.scalar (.i16 p.x), .scalar (.i16 p.y), .scalar (.i16 p.z), .scalar (.i16 p.column),
    .scalar (.i16 p.row)]

@[simp] theorem QuadrantPosition.fields_append_inj
    {p p' : QuadrantPosition} {more more' : List Field} :
    p.fields ++ more = p'.fields ++ more' ↔ p = p' ∧ more = more' := by
  obtain ⟨x, y, z, column, row⟩ := p
  obtain ⟨x', y', z', column', row'⟩ := p'
  simp [fields, and_assoc]

namespace MessageKind

def side : MessageKind → Side
  | .server _ => .server
  | .client _ => .client

def number : MessageKind → UInt16
  | .server kind => kind.number
  | .client kind => kind.number

def transport : MessageKind → PacketKind
  | .server kind => kind.transport
  | .client kind => kind.transport

def readFields (b : Buffer) : MessageKind → Message × Buffer
  | .server kind => (ServerMessage.readFields b kind).map .server id
  | .client kind => (ClientMessage.readFields b kind).map .client id

/-- The kinds of the fields, in wire order. -/
def layout : MessageKind → List FieldKind
  | .server .benchmark => [.scalar .u32, .vector, .rotator]
  | .server .createEntity => [.scalar .u32, .vector, .rotator, .scalar .u32]
  | .server .updateEntity =>
      [.scalar .u32, .vector, .rotator, .scalar .u16, .scalar .u32]
  | .server .removeEntity => [.scalar .u32]
  | .server .deltaSync => [.scalar .u32, .scalar .u8]
  | .server .syncStateInt => []
  | .server .updateEntityQuantized =>
      [.scalar .u32, .scalar .i16, .scalar .i16, .scalar .i16, .scalar .i16, .scalar .i16,
        .scalar .f32, .vector, .scalar .u16, .scalar .u32]
  | .client .syncEntity => [.vector, .rotator, .scalar .u16, .scalar .u32]
  | .client .enterToWorld => [.scalar .u32]
  | .client .rekeyResponse => [.bool, .scalar .u64]
  | .client .syncEntityQuantized =>
      [.scalar .i16, .scalar .i16, .scalar .i16, .scalar .i16, .scalar .i16, .scalar .f32,
        .vector, .scalar .u16, .bool]

/-- How many octets the fields have. -/
def bodySize (kind : MessageKind) : Nat :=
  FieldKind.size kind.layout

/-- How many octets a message has: the tag, the number and the fields. -/
def size (kind : MessageKind) : Nat :=
  3 + kind.bodySize

/-- What stands in front of the fields: the tag of the packet and the number. -/
def header (kind : MessageKind) : Bytes :=
  kind.transport.tag :: (Scalar.u16 kind.number).toBytes

end MessageKind

namespace Message

def kind : Message → MessageKind
  | .server m => .server m.kind
  | .client m => .client m.kind

def writeFields (b : Buffer) : Message → Buffer
  | .server m => m.writeFields b
  | .client m => m.writeFields b

/-- Writes a message: the packet tag, the message number and the fields. -/
def serialize (b : Buffer) : Message → Buffer
  | .server m => m.serialize b
  | .client m => m.serialize b

/-- The fields in wire order. -/
def fields : Message → List Field
  | .server (.benchmark id position rotation) =>
      [.scalar (.u32 id), .vector position, .rotator rotation]
  | .server (.createEntity id position rotation flags) =>
      [.scalar (.u32 id), .vector position, .rotator rotation, .scalar (.u32 flags)]
  | .server (.updateEntity id position rotation animation flags) =>
      [.scalar (.u32 id), .vector position, .rotator rotation, .scalar (.u16 animation),
        .scalar (.u32 flags)]
  | .server (.removeEntity id) => [.scalar (.u32 id)]
  | .server (.deltaSync index mask) => [.scalar (.u32 index), .scalar (.u8 mask)]
  | .server .syncStateInt => []
  | .server (.updateEntityQuantized id position yaw velocity animation flags) =>
      .scalar (.u32 id) :: position.fields ++
        [.scalar (.f32 yaw), .vector velocity, .scalar (.u16 animation), .scalar (.u32 flags)]
  | .client (.syncEntity position rotation animation flags) =>
      [.vector position, .rotator rotation, .scalar (.u16 animation), .scalar (.u32 flags)]
  | .client (.enterToWorld id) => [.scalar (.u32 id)]
  | .client (.rekeyResponse accepted sequence) => [.bool accepted, .scalar (.u64 sequence)]
  | .client (.syncEntityQuantized position yaw velocity animation falling) =>
      position.fields ++
        [.scalar (.f32 yaw), .vector velocity, .scalar (.u16 animation), .bool falling]

/-- The message that is read back: the components of vectors and rotators are rounded to
quantization steps. -/
def normal : Message → Message
  | .server (.benchmark id position rotation) =>
      .server (.benchmark id (position.map Single.stepped) (rotation.map Single.stepped))
  | .server (.createEntity id position rotation flags) =>
      .server (.createEntity id (position.map Single.stepped) (rotation.map Single.stepped)
        flags)
  | .server (.updateEntity id position rotation animation flags) =>
      .server (.updateEntity id (position.map Single.stepped) (rotation.map Single.stepped)
        animation flags)
  | .server (.updateEntityQuantized id position yaw velocity animation flags) =>
      .server (.updateEntityQuantized id position yaw (velocity.map Single.stepped) animation
        flags)
  | .client (.syncEntity position rotation animation flags) =>
      .client (.syncEntity (position.map Single.stepped) (rotation.map Single.stepped)
        animation flags)
  | .client (.syncEntityQuantized position yaw velocity animation falling) =>
      .client (.syncEntityQuantized position yaw (velocity.map Single.stepped) animation falling)
  | m => m

/-- The octets of the fields. -/
def octets (m : Message) : Bytes :=
  Field.octetsOf m.fields

variable {b : Buffer}

theorem map_kind_fields (m : Message) : m.fields.map Field.kind = m.kind.layout := by
  rcases m with m | m
  · cases m <;> rfl
  · cases m <;> rfl

@[simp] theorem kind_normal (m : Message) : m.normal.kind = m.kind := by
  rcases m with m | m
  · cases m <;> rfl
  · cases m <;> rfl

theorem fields_normal (m : Message) : m.normal.fields = m.fields.map Field.normal := by
  rcases m with m | m
  · cases m <;> simp [normal, fields, QuadrantPosition.fields, Field.normal]
  · cases m <;> simp [normal, fields, QuadrantPosition.fields, Field.normal]

theorem length_octets (m : Message) : m.octets.length = m.kind.bodySize := by
  rw [octets, Field.length_octetsOf, map_kind_fields, MessageKind.bodySize]

theorem writeFields_eq_writeAll (m : Message) : m.writeFields b = Field.writeAll b m.fields := by
  rcases m with m | m
  · cases m <;>
      simp only [writeFields, ServerMessage.writeFields, QuadrantPosition.write, writeU8,
        writeU16, writeI16, writeU32, writeSingle, writeScalar, writeVector, writeRotator,
        fields, QuadrantPosition.fields, Field.writeAll, Field.octets, List.cons_append,
        List.nil_append, List.foldl_cons, List.foldl_nil]
  · cases m <;>
      simp only [writeFields, ClientMessage.writeFields, QuadrantPosition.write, writeU8,
        writeU16, writeI16, writeU32, writeU64, writeBool, writeSingle, writeScalar, writeVector,
        writeRotator, fields, QuadrantPosition.fields, Field.writeAll, Field.octets,
        List.cons_append, List.nil_append, List.foldl_cons, List.foldl_nil]

/-- A message that fits is one write of its octets. -/
theorem writeFields_eq_write
    {m : Message} (hposition : b.position ≤ b.length)
    (hfits : b.fits m.octets.length = true) :
    m.writeFields b = b.write m.octets := by
  rw [writeFields_eq_writeAll, octets]
  exact Field.writeAll_eq_write hposition hfits

/-- A message is known from its kind and its fields. -/
theorem eq_of_fields
    {m m' : Message} (hkind : m.kind = m'.kind) (hfields : m.fields = m'.fields) : m = m' := by
  rcases m with m | m <;> rcases m' with m' | m'
  · cases m <;> cases m' <;> cases hkind
    case syncStateInt.syncStateInt.refl => rfl
    all_goals simpa [fields] using hfields
  · cases hkind
  · cases hkind
  · cases m <;> cases m' <;> cases hkind <;> simpa [fields] using hfields

end Message

namespace MessageKind

variable {b : Buffer} {rest : Bytes}

/-- A message is read field by field. -/
theorem readAll_layout (kind : MessageKind) (b : Buffer) :
    FieldKind.readAll b kind.layout =
      ((kind.readFields b).1.fields, (kind.readFields b).2) := by
  rcases kind with kind | kind
  · cases kind <;>
      simp only [layout, FieldKind.readAll, FieldKind.read, readScalar, ScalarKind.width,
        Scalar.ofNat, readFields, ServerMessage.readFields, QuadrantPosition.read, readU8, readU16,
        readI16, readU32, readSingle, Prod.map, id, Message.fields, QuadrantPosition.fields,
        List.cons_append, List.nil_append]
  · cases kind <;>
      simp only [layout, FieldKind.readAll, FieldKind.read, readScalar, ScalarKind.width,
        Scalar.ofNat, readFields, ClientMessage.readFields, QuadrantPosition.read, readU8, readU16,
        readI16, readU32, readU64, readBool, readSingle, Prod.map, id, Message.fields,
        QuadrantPosition.fields, List.cons_append, List.nil_append]

theorem kind_readFields (kind : MessageKind) (b : Buffer) :
    (kind.readFields b).1.kind = kind := by
  rcases kind with kind | kind
  · cases kind <;>
      simp only [readFields, ServerMessage.readFields, Prod.map, Message.kind, ServerMessage.kind]
  · cases kind <;>
      simp only [readFields, ClientMessage.readFields, Prod.map, Message.kind, ClientMessage.kind]

/-- A message is read from its octets. -/
theorem readFields_of_before
    (m : Message) (hb : b.Before (m.octets ++ rest)) :
    m.kind.readFields b = (m.normal, b.advance m.octets.length) := by
  have hread := m.kind.readAll_layout b
  rw [← m.map_kind_fields, FieldKind.readAll_of_before hb] at hread
  obtain ⟨hfields, hrest⟩ := Prod.mk.inj hread
  have hmessage : (m.kind.readFields b).1 = m.normal := by
    apply Message.eq_of_fields
    · rw [kind_readFields, Message.kind_normal]
    · rw [← hfields, Message.fields_normal]
  exact Prod.ext hmessage hrest.symm

/-- The number in front of the fields says what they are. -/
theorem decode_of_before
    (kind : MessageKind) (hb : b.Before ((Scalar.u16 kind.number).toBytes ++ rest)) :
    kind.side.decode b = (kind.readFields (b.advance 2)).map .ok id := by
  have hwidth : (Scalar.u16 kind.number).toBytes.length = 2 := Scalar.length_toBytes _
  have hnumber := reads_u16 kind.number b rest hb
  rw [hwidth] at hnumber
  rcases kind with kind | kind
  · simp only [side, Side.decode, ServerMessage.decode, hnumber, number,
      ServerMessageKind.ofNumber?_number, readFields]
    generalize ServerMessage.readFields _ kind = message
    rfl
  · simp only [side, Side.decode, ClientMessage.decode, hnumber, number,
      ClientMessageKind.ofNumber?_number, readFields]
    generalize ClientMessage.readFields _ kind = message
    rfl

end MessageKind

end BothSides

end GameLink
