import GameLink.Failure

/-!
# Secure header

The fourteen octets in front of a sealed payload: connection number, channel, flags
and sequence number.

**Layout.** Connection number (4, little-endian), channel (1), flags (1), sequence
number (8, little-endian).  The header is the associated data of the payload's seal;
only the flag `compressed`, which is decided after sealing, is cleared for that.
-/

namespace GameLink

/-- Delivery channel of a sealed payload. -/
inductive Channel
  | unreliable
  | reliableOrdered
  | reliableUnordered
deriving DecidableEq, Repr, Inhabited

namespace Channel

def toByte : Channel → UInt8
  | .unreliable => 0
  | .reliableOrdered => 1
  | .reliableUnordered => 2

def ofByte (value : UInt8) : Except Failure Channel :=
  if value = 0 then .ok .unreliable
  else if value = 1 then .ok .reliableOrdered
  else if value = 2 then .ok .reliableUnordered
  else .error (.malformed (.unknownChannel value))

theorem ofByte_toByte (c : Channel) : ofByte c.toByte = .ok c := by
  cases c <;> rfl

end Channel

structure HeaderFlags where
  encrypted : Bool := false
  chaCha20Poly1305 : Bool := false
  rekey : Bool := false
  fragment : Bool := false
  compressed : Bool := false
  acknowledgment : Bool := false
  reliableHandshake : Bool := false
deriving DecidableEq, Repr, Inhabited

namespace HeaderFlags

/-- The value of a flag at a bit position. -/
def bit (flag : Bool) (position : Nat) : Nat :=
  if flag then 1 <<< position else 0

/-- The flags as one octet, the first flag in the lowest bit. -/
def toByte (f : HeaderFlags) : UInt8 :=
  UInt8.ofNat
    (bit f.encrypted 0 + bit f.chaCha20Poly1305 1 + bit f.rekey 2 + bit f.fragment 3
      + bit f.compressed 4 + bit f.acknowledgment 5 + bit f.reliableHandshake 6)

/-- The flags in an octet, a highest bit ignored. -/
def ofByteTruncated (value : UInt8) : HeaderFlags where
  encrypted := value.toNat.testBit 0
  chaCha20Poly1305 := value.toNat.testBit 1
  rekey := value.toNat.testBit 2
  fragment := value.toNat.testBit 3
  compressed := value.toNat.testBit 4
  acknowledgment := value.toNat.testBit 5
  reliableHandshake := value.toNat.testBit 6

/-- The flags in an octet whose highest bit is clear. -/
def ofByte (value : UInt8) : Except Failure HeaderFlags :=
  if value < 128 then
    .ok (ofByteTruncated value)
  else
    .error (.malformed (.unknownFlags value))

end HeaderFlags

structure Header where
  connectionId : UInt32
  channel : Channel
  flags : HeaderFlags
  sequence : UInt64
deriving DecidableEq, Repr

namespace Header

/-- The number of octets of a header. -/
def size : Nat := 14

def toBytes (h : Header) : Bytes :=
  Bytes.ofNat 4 h.connectionId.toNat
    ++ [h.channel.toByte, h.flags.toByte]
    ++ Bytes.ofNat 8 h.sequence.toNat

/-- The header at the start of a byte string. -/
def ofBytes (bs : Bytes) : Except Failure Header :=
  if bs.length < size then
    .error (.malformed .truncatedHeader)
  else do
    let channel ← Channel.ofByte (bs.getD 4 0)
    let flags ← HeaderFlags.ofByte (bs.getD 5 0)
    .ok
      { connectionId := UInt32.ofNat (Bytes.toNat (bs.take 4))
        channel
        flags
        sequence := UInt64.ofNat (Bytes.toNat ((bs.drop 6).take 8)) }

/-- The associated data of the payload's seal: the header as if not compressed. -/
def associatedData (h : Header) : Bytes :=
  toBytes { h with flags := { h.flags with compressed := false } }

@[simp] theorem length_toBytes (h : Header) : h.toBytes.length = size := by
  simp [toBytes, size]

@[simp] theorem length_associatedData (h : Header) :
    h.associatedData.length = size := by
  simp [associatedData]

end Header
end GameLink
