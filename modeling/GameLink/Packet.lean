import GameLink.Buffer.Scalar
import GameLink.Failure

/-!
# Transport packets

What travels under each one-octet tag: the handshake, keep-alive, acknowledgments,
integrity challenges, and the two tags that carry application messages.

**Layout.** The tag, then the fields.  A connection request has none, a public key, or a
public key and a cookie; an acceptance has none, a client number, or a connection
number with the server's key material.  Which of them is present is told by how much
is left to read.
-/

namespace GameLink

inductive PacketKind
  | connect
  | ping
  | pong
  | reliable
  | unreliable
  | ack
  | disconnect
  | error
  | connectionDenied
  | connectionAccepted
  | checkIntegrity
  | cookie
deriving DecidableEq, Repr

namespace PacketKind

def tag : PacketKind → UInt8
  | .connect => 0
  | .ping => 1
  | .pong => 2
  | .reliable => 3
  | .unreliable => 4
  | .ack => 5
  | .disconnect => 6
  | .error => 7
  | .connectionDenied => 8
  | .connectionAccepted => 9
  | .checkIntegrity => 10
  | .cookie => 13

/-- All kinds, in the order of their tags. -/
def all : List PacketKind :=
  [.connect, .ping, .pong, .reliable, .unreliable, .ack, .disconnect, .error,
    .connectionDenied, .connectionAccepted, .checkIntegrity, .cookie]

def ofTag? (tag : UInt8) : Option PacketKind :=
  all.find? fun kind => kind.tag == tag

theorem ofTag?_tag (kind : PacketKind) : ofTag? kind.tag = some kind := by
  cases kind <;> rfl

end PacketKind

/-- How many octets a public key has. -/
def publicKeySize : Nat := 32

/-- How many octets a session salt has. -/
def saltSize : Nat := 16

/-- How many octets an address validation cookie has. -/
def cookieSize : Nat := 48

/-- The key material of an encrypted acceptance. -/
structure HandshakeKeys where
  serverPublic : Octets publicKeySize
  salt : Octets saltSize
deriving DecidableEq

structure Acceptance where
  /-- The connection number of an encrypted link, the client number of a plain one. -/
  clientId : Option UInt32
  keys : Option HandshakeKeys
deriving DecidableEq

inductive Packet
  | connect (clientPublic : Option (Octets publicKeySize)) (cookie : Option (Octets cookieSize))
  | ping (timestamp : UInt16)
  | pong (timestamp : UInt16)
  /-- An application message follows. -/
  | reliable
  /-- An application message follows. -/
  | unreliable
  | ack (sequence : UInt16)
  | disconnect
  | error
  | connectionDenied
  | connectionAccepted (acceptance : Acceptance)
  | checkIntegrity (index : UInt16)
  | cookie (cookie : Octets cookieSize)
deriving DecidableEq

namespace Packet

def kind : Packet → PacketKind
  | .connect .. => .connect
  | .ping _ => .ping
  | .pong _ => .pong
  | .reliable => .reliable
  | .unreliable => .unreliable
  | .ack _ => .ack
  | .disconnect => .disconnect
  | .error => .error
  | .connectionDenied => .connectionDenied
  | .connectionAccepted _ => .connectionAccepted
  | .checkIntegrity _ => .checkIntegrity
  | .cookie _ => .cookie

/-- Reads octets if so many are left. -/
def readOptional (n : Nat) (b : Buffer) : Option (Octets n) × Buffer :=
  if n ≤ b.remaining then (b.readOctets n).map some id else (none, b)

/-- Reads the fields of a connection request. -/
def readConnect (b : Buffer) : Packet × Buffer :=
  match readOptional publicKeySize b with
  | (none, rest) => (.connect none none, rest)
  | (some key, rest) =>
      let (token, rest) := readOptional cookieSize rest
      (.connect (some key) token, rest)

def readAcceptance (b : Buffer) : Acceptance × Buffer :=
  if 4 + publicKeySize + saltSize ≤ b.remaining then
    let (id, rest) := b.readU32
    let (serverPublic, rest) := rest.readOctets publicKeySize
    let (salt, rest) := rest.readOctets saltSize
    (⟨some id, some ⟨serverPublic, salt⟩⟩, rest)
  else if 4 ≤ b.remaining then
    let (id, rest) := b.readU32
    (⟨some id, none⟩, rest)
  else
    (⟨none, none⟩, b)

/-- Reads the fields of a packet of a known kind. -/
def readFields (b : Buffer) : PacketKind → Except Failure Packet × Buffer
  | .connect => (readConnect b).map .ok id
  | .ping => b.readU16.map (.ok ∘ .ping) id
  | .pong => b.readU16.map (.ok ∘ .pong) id
  | .reliable => (.ok .reliable, b)
  | .unreliable => (.ok .unreliable, b)
  | .ack => b.readU16.map (.ok ∘ .ack) id
  | .disconnect => (.ok .disconnect, b)
  | .error => (.ok .error, b)
  | .connectionDenied => (.ok .connectionDenied, b)
  | .connectionAccepted => (readAcceptance b).map (.ok ∘ .connectionAccepted) id
  | .checkIntegrity => b.readU16.map (.ok ∘ .checkIntegrity) id
  | .cookie =>
      if b.remaining < cookieSize then
        (.error (.malformed (.shortCookie b.remaining)), b)
      else
        (b.readOctets cookieSize).map (.ok ∘ .cookie) id

/-- Reads a packet: the tag and the fields that belong to it. -/
def decode (b : Buffer) : Except Failure Packet × Buffer :=
  if b.remaining = 0 then
    (.error (.malformed .emptyDatagram), b)
  else
    let (tag, rest) := b.readU8
    match PacketKind.ofTag? tag with
    | some kind => readFields rest kind
    | none => (.error (.unknownPacket tag.toUInt16), rest)

def writeAcceptance (b : Buffer) (a : Acceptance) : Buffer :=
  let b := a.clientId.elim b b.writeU32
  a.keys.elim b fun keys => (b.write keys.serverPublic.bytes).write keys.salt.bytes

/-- Writes the fields of a packet; a cookie only follows a public key. -/
def writeFields (b : Buffer) : Packet → Buffer
  | .connect (some key) (some token) => (b.write key.bytes).write token.bytes
  | .connect (some key) none => b.write key.bytes
  | .connect none _ => b
  | .ping timestamp => b.writeU16 timestamp
  | .pong timestamp => b.writeU16 timestamp
  | .ack sequence => b.writeU16 sequence
  | .connectionAccepted acceptance => writeAcceptance b acceptance
  | .checkIntegrity index => b.writeU16 index
  | .cookie token => b.write token.bytes
  | .reliable | .unreliable | .disconnect | .error | .connectionDenied => b

/-- Writes a packet; no signature is appended. -/
def encode (p : Packet) (b : Buffer) : Buffer :=
  writeFields (b.writeU8 p.kind.tag) p

end Packet
end GameLink
