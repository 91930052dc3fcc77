import GameLink.Hex
import GameLink.Settings.Fault

/-!
# Failures

The causes for which an operation of the library can fail, and the one place where
they are put into words.
-/

namespace GameLink

/-- A call made in the wrong state of a link. -/
inductive StateFault
  /-- A connection attempt is under way, or the link is up. -/
  | attemptInProgress
  /-- There is no socket. -/
  | socketClosed
  /-- There is no secure session. -/
  | sessionMissing
deriving DecidableEq, Repr

def StateFault.message : StateFault → String
  | .attemptInProgress => "Connection attempt already in progress"
  | .socketClosed => "Socket is closed"
  | .sessionMissing => "Secure session is not established"

/-- Why two ends cannot agree on keys. -/
inductive KeyFault
  /-- A key or the salt has the wrong length. -/
  | wrongLength
  /-- The peer's key contributes nothing to the shared secret. -/
  | lowOrder
deriving DecidableEq, Repr

def KeyFault.message : KeyFault → String
  | .wrongLength => "Key material has the wrong length"
  | .lowOrder => "Peer public key is low-order or invalid"

/-- What is wrong with the shape of a datagram. -/
inductive Defect
  /-- There is nothing to decode. -/
  | emptyDatagram
  /-- A cookie packet with too few octets after its tag. -/
  | shortCookie (present : Nat)
  /-- Fewer octets than a signature has. -/
  | shortSignature (present : Nat)
  /-- Fewer octets than a secure header has. -/
  | truncatedHeader
  /-- A channel number without a meaning. -/
  | unknownChannel (value : UInt8)
  /-- A header flag without a meaning. -/
  | unknownFlags (value : UInt8)
  /-- An outgoing datagram above the size limit. -/
  | overLimit (size limit : Nat)
  /-- An outgoing datagram above the capacity of a pooled buffer. -/
  | overCapacity (size : Nat)
deriving DecidableEq, Repr

def Defect.message : Defect → String
  | .emptyDatagram => "empty datagram"
  | .shortCookie present => "cookie needs 48 bytes, got " ++ toString present
  | .shortSignature present => toString present ++ " bytes is too short for a signature"
  | .truncatedHeader => "Datagram shorter than the secure header"
  | .unknownChannel value => "unknown channel " ++ toString value.toNat
  | .unknownFlags value =>
      "unknown header flags 0x" ++ String.ofList (Hex.padded .lower 2 value.toNat)
  | .overLimit size limit =>
      toString size ++ " byte datagram exceeds the " ++ toString limit ++ " byte limit"
  | .overCapacity size => toString size ++ " byte datagram exceeds buffer capacity"

/-- Why an operation failed. -/
inductive Failure
  /-- The socket refused an operation. -/
  | socket
  /-- A host name has no address. -/
  | unresolved (host : String) (port : UInt16)
  /-- The call does not fit the state of the link. -/
  | invalidState (fault : StateFault)
  /-- A signature differs from the checksum of what it signs. -/
  | checksumMismatch (expected computed : UInt32)
  /-- A datagram has the wrong shape. -/
  | malformed (defect : Defect)
  /-- A tag or message number without a meaning. -/
  | unknownPacket (tag : UInt16)
  /-- A packed block cannot be unpacked. -/
  | decompression
  /-- A payload cannot be sealed. -/
  | encryption
  /-- A sealed payload is not authentic. -/
  | decryption
  /-- A sequence number was seen before or is out of reach. -/
  | replayed (seq : UInt64)
  /-- No keys could be agreed on. -/
  | keyAgreement (fault : KeyFault)
  /-- Settings cannot be loaded, stored or used. -/
  | settings (fault : Settings.Fault)
  /-- A 64-bit count or address would pass its last value; the caller must stop before. -/
  | exhausted
deriving DecidableEq, Repr

def Failure.message : Failure → String
  | .socket => "I/O error"
  | .unresolved host port =>
      "Address resolution failed: " ++ host ++ ":" ++ toString port.toNat
  | .invalidState fault => "Invalid state: " ++ fault.message
  | .checksumMismatch expected computed =>
      "Checksum mismatch: expected 0x" ++ String.ofList (Hex.padded .lower 8 expected.toNat)
        ++ ", computed 0x" ++ String.ofList (Hex.padded .lower 8 computed.toNat)
  | .malformed defect => "Malformed packet: " ++ defect.message
  | .unknownPacket tag => "Unknown packet tag: " ++ toString tag.toNat
  | .decompression => "Decompression failed"
  | .encryption => "Encryption failed"
  | .decryption => "Decryption failed"
  | .replayed seq => "Replayed or expired sequence number: " ++ toString seq.toNat
  | .keyAgreement fault => "Key agreement failed: " ++ fault.message
  | .settings fault => "Configuration error: " ++ fault.message
  | .exhausted => "Sixty-four bit counter exhausted"

end GameLink
