import GameLink.Message.Position
import GameLink.Packet

/-!
# Messages from the server

The seven application messages a server sends inside a data packet: their fields in
wire order, their numbers and the tag each travels under.
-/

namespace GameLink

/-- The kind of a message from the server. -/
inductive ServerMessageKind
  | benchmark
  | createEntity
  | updateEntity
  | removeEntity
  | deltaSync
  | syncStateInt
  | updateEntityQuantized
deriving DecidableEq, Repr

namespace ServerMessageKind

def number : ServerMessageKind → UInt16
  | .benchmark => 0
  | .createEntity => 1
  | .updateEntity => 2
  | .removeEntity => 3
  | .deltaSync => 4
  | .syncStateInt => 5
  | .updateEntityQuantized => 6

/-- All kinds, in the order of their numbers. -/
def all : List ServerMessageKind :=
  [.benchmark, .createEntity, .updateEntity, .removeEntity, .deltaSync, .syncStateInt,
    .updateEntityQuantized]

def ofNumber? (number : UInt16) : Option ServerMessageKind :=
  all.find? fun kind => kind.number == number

/-- The packet a message travels in. -/
def transport : ServerMessageKind → PacketKind
  | .createEntity | .removeEntity | .syncStateInt => .reliable
  | .benchmark | .updateEntity | .deltaSync | .updateEntityQuantized => .unreliable

theorem ofNumber?_number (kind : ServerMessageKind) :
    ofNumber? kind.number = some kind := by
  cases kind <;> rfl

end ServerMessageKind

inductive ServerMessage
  | benchmark (id : UInt32) (position : Vector3) (rotation : Rotator)
  | createEntity (entityId : UInt32) (position : Vector3) (rotation : Rotator)
      (flags : UInt32)
  | updateEntity (entityId : UInt32) (position : Vector3) (rotation : Rotator)
      (animationState : UInt16) (flags : UInt32)
  | removeEntity (entityId : UInt32)
  /-- The head of a delta snapshot; the entities follow. -/
  | deltaSync (index : UInt32) (entitiesMask : UInt8)
  | syncStateInt
  | updateEntityQuantized (entityId : UInt32) (position : QuadrantPosition) (yaw : Single)
      (velocity : Vector3) (animationState : UInt16) (flags : UInt32)
deriving DecidableEq, Repr

namespace ServerMessage

def kind : ServerMessage → ServerMessageKind
  | .benchmark .. => .benchmark
  | .createEntity .. => .createEntity
  | .updateEntity .. => .updateEntity
  | .removeEntity _ => .removeEntity
  | .deltaSync .. => .deltaSync
  | .syncStateInt => .syncStateInt
  | .updateEntityQuantized .. => .updateEntityQuantized

def writeFields (b : Buffer) : ServerMessage → Buffer
  | .benchmark id position rotation =>
      ((b.writeU32 id).writeVector position).writeRotator rotation
  | .createEntity id position rotation flags =>
      (((b.writeU32 id).writeVector position).writeRotator rotation).writeU32 flags
  | .updateEntity id position rotation animation flags =>
      ((((b.writeU32 id).writeVector position).writeRotator rotation).writeU16
        animation).writeU32 flags
  | .removeEntity id => b.writeU32 id
  | .deltaSync index mask => (b.writeU32 index).writeU8 mask
  | .syncStateInt => b
  | .updateEntityQuantized id position yaw velocity animation flags =>
      (((((position.write (b.writeU32 id)).writeSingle yaw).writeVector velocity).writeU16
        animation).writeU32 flags)

/-- Writes a message: the packet tag, the message number and the fields. -/
def serialize (m : ServerMessage) (b : Buffer) : Buffer :=
  writeFields ((b.writeU8 m.kind.transport.tag).writeU16 m.kind.number) m

def readFields (b : Buffer) : ServerMessageKind → ServerMessage × Buffer
  | .benchmark =>
      let (id, b) := b.readU32
      let (position, b) := b.readVector
      let (rotation, b) := b.readRotator
      (.benchmark id position rotation, b)
  | .createEntity =>
      let (id, b) := b.readU32
      let (position, b) := b.readVector
      let (rotation, b) := b.readRotator
      let (flags, b) := b.readU32
      (.createEntity id position rotation flags, b)
  | .updateEntity =>
      let (id, b) := b.readU32
      let (position, b) := b.readVector
      let (rotation, b) := b.readRotator
      let (animation, b) := b.readU16
      let (flags, b) := b.readU32
      (.updateEntity id position rotation animation flags, b)
  | .removeEntity =>
      let (id, b) := b.readU32
      (.removeEntity id, b)
  | .deltaSync =>
      let (index, b) := b.readU32
      let (mask, b) := b.readU8
      (.deltaSync index mask, b)
  | .syncStateInt => (.syncStateInt, b)
  | .updateEntityQuantized =>
      let (id, b) := b.readU32
      let (position, b) := QuadrantPosition.read b
      let (yaw, b) := b.readSingle
      let (velocity, b) := b.readVector
      let (animation, b) := b.readU16
      let (flags, b) := b.readU32
      (.updateEntityQuantized id position yaw velocity animation flags, b)

/-- Reads a message: its number and its fields. -/
def decode (b : Buffer) : Except Failure ServerMessage × Buffer :=
  let (number, rest) := b.readU16
  match ServerMessageKind.ofNumber? number with
  | some kind => (readFields rest kind).map .ok id
  | none => (.error (.unknownPacket number), rest)

end ServerMessage
end GameLink
