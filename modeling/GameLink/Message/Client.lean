import GameLink.Message.Position
import GameLink.Packet

/-!
# Messages from the client

The four application messages a client sends inside a data packet: their fields in
wire order, their numbers and the tag each travels under.
-/

namespace GameLink

/-- The kind of a message from the client. -/
inductive ClientMessageKind
  | syncEntity
  | enterToWorld
  | rekeyResponse
  | syncEntityQuantized
deriving DecidableEq, Repr

namespace ClientMessageKind

def number : ClientMessageKind → UInt16
  | .syncEntity => 0
  | .enterToWorld => 1
  | .rekeyResponse => 2
  | .syncEntityQuantized => 3

/-- All kinds, in the order of their numbers. -/
def all : List ClientMessageKind :=
  [.syncEntity, .enterToWorld, .rekeyResponse, .syncEntityQuantized]

def ofNumber? (number : UInt16) : Option ClientMessageKind :=
  all.find? fun kind => kind.number == number

/-- The packet a message travels in. -/
def transport : ClientMessageKind → PacketKind
  | .rekeyResponse => .reliable
  | .syncEntity | .enterToWorld | .syncEntityQuantized => .unreliable

theorem ofNumber?_number (kind : ClientMessageKind) :
    ofNumber? kind.number = some kind := by
  cases kind <;> rfl

end ClientMessageKind

inductive ClientMessage
  | syncEntity (position : Vector3) (rotation : Rotator) (animationState : UInt16)
      (flags : UInt32)
  | enterToWorld (characterId : UInt32)
  | rekeyResponse (accepted : Bool) (acknowledgedSequence : UInt64)
  | syncEntityQuantized (position : QuadrantPosition) (yaw : Single) (velocity : Vector3)
      (animationState : UInt16) (isFalling : Bool)
deriving DecidableEq, Repr

namespace ClientMessage

def kind : ClientMessage → ClientMessageKind
  | .syncEntity .. => .syncEntity
  | .enterToWorld _ => .enterToWorld
  | .rekeyResponse .. => .rekeyResponse
  | .syncEntityQuantized .. => .syncEntityQuantized

def writeFields (b : Buffer) : ClientMessage → Buffer
  | .syncEntity position rotation animation flags =>
      (((b.writeVector position).writeRotator rotation).writeU16 animation).writeU32 flags
  | .enterToWorld id => b.writeU32 id
  | .rekeyResponse accepted sequence => (b.writeBool accepted).writeU64 sequence
  | .syncEntityQuantized position yaw velocity animation falling =>
      ((((position.write b).writeSingle yaw).writeVector velocity).writeU16
        animation).writeBool falling

/-- Writes a message: the packet tag, the message number and the fields. -/
def serialize (m : ClientMessage) (b : Buffer) : Buffer :=
  writeFields ((b.writeU8 m.kind.transport.tag).writeU16 m.kind.number) m

def readFields (b : Buffer) : ClientMessageKind → ClientMessage × Buffer
  | .syncEntity =>
      let (position, b) := b.readVector
      let (rotation, b) := b.readRotator
      let (animation, b) := b.readU16
      let (flags, b) := b.readU32
      (.syncEntity position rotation animation flags, b)
  | .enterToWorld =>
      let (id, b) := b.readU32
      (.enterToWorld id, b)
  | .rekeyResponse =>
      let (accepted, b) := b.readBool
      let (sequence, b) := b.readU64
      (.rekeyResponse accepted sequence, b)
  | .syncEntityQuantized =>
      let (position, b) := QuadrantPosition.read b
      let (yaw, b) := b.readSingle
      let (velocity, b) := b.readVector
      let (animation, b) := b.readU16
      let (falling, b) := b.readBool
      (.syncEntityQuantized position yaw velocity animation falling, b)

/-- Reads a message: its number and its fields. -/
def decode (b : Buffer) : Except Failure ClientMessage × Buffer :=
  let (number, rest) := b.readU16
  match ClientMessageKind.ofNumber? number with
  | some kind => (readFields rest kind).map .ok id
  | none => (.error (.unknownPacket number), rest)

end ClientMessage
end GameLink
