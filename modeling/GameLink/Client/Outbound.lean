import GameLink.Client.Basic
import GameLink.Buffer.Signature
import GameLink.Header
import GameLink.Packet

/-!
# Sending

Application data travels sealed once there is a session, and signed otherwise.  What is
sealed has a header in front and no signature.
-/

namespace GameLink
namespace Client

def sizeLimit (c : Client) : Nat :=
  min c.setup.settings.performance.maxPacketSize.toNat maxDatagramSize

/-- Whether a datagram may have a size. -/
def checkSize (c : Client) (size : Nat) : Except Failure Unit :=
  if c.sizeLimit < size then
    .error (.malformed (.overLimit size c.sizeLimit))
  else
    .ok ()

/-- The channel on which a tagged buffer is sealed; none for other tags. -/
def sealedChannel? (tag : UInt8) : Option Channel :=
  match PacketKind.ofTag? tag with
  | some .reliable => some .reliableOrdered
  | some .unreliable => some .unreliable
  | _ => none

/-- The header of the next sealed payload of a session. -/
def nextHeader (s : Session) (channel : Channel) : Header where
  connectionId := s.connectionId
  channel
  flags := { encrypted := true, chaCha20Poly1305 := true }
  sequence := s.nextSend

/-- Seals a payload for the next header, packed if the settings say so. -/
def sealPayload (c : Client) (s : Session) (header : Header) (payload : Bytes) :
    Except Failure (Packed × List Tally × Session) :=
  if c.setup.settings.security.compressionEnabled then
    s.sealPacked c.setup.suite payload header.associatedData
  else do
    let (sealed, s) ← s.sealNext c.setup.suite payload header.associatedData
    .ok (⟨sealed, false⟩, [], s)

/-- The sealed datagram of a tagged buffer, if it is to be sealed.  The sequence number is
used up even if the datagram is too large. -/
def sealOutbound (c : Client) (bytes : Bytes) : Except Failure (Option Bytes) × Client :=
  match (bytes.head?.bind sealedChannel?), c.session with
  | some channel, some s =>
      let header := nextHeader s channel
      match c.sealPayload s header bytes.tail with
      | .error failure => (.error failure, c)
      | .ok (packed, tallies, s) =>
          let c := ({ c with session := some s }).countAll tallies
          let flags := { header.flags with compressed := packed.compressed }
          let datagram := { header with flags }.toBytes ++ packed.bytes
          ((c.checkSize datagram.length).map fun _ => some datagram, c)
  | _, _ => (.ok none, c)

/-- Sends a datagram; if the socket refuses it, that is counted and raised. -/
def transmit (net : Network) (c : Client) (remote : Address) (datagram : Bytes) :
    Except Failure Unit × Client :=
  if c.isCarried net remote datagram then
    (.ok (), c.noteSent remote datagram)
  else
    (.error .socket, (c.count .connectionError).raise .connectionError)

/-- A pooled buffer that holds octets and their signature. -/
def signed (c : Client) (bytes : Bytes) : Except Failure Buffer × Client :=
  let size := bytes.length + Buffer.signatureSize
  match c.checkSize size with
  | .error failure => (.error failure, c)
  | .ok () =>
      let (b, pool) := c.pool.acquire thread
      if b.capacity < size then
        (.error (.malformed (.overCapacity size)),
          { c with pool := pool.release thread b })
      else
        (.ok (b.write bytes).sign, { c with pool })

/-- Sends the contents of a tagged buffer.  Nothing is done without a link or for an empty
buffer. -/
def send (net : Network) (c : Client) (bytes : Bytes) : Except Failure Unit × Client :=
  if bytes = [] ∨ c.link.status ≠ .connected then
    (.ok (), c)
  else
    match c.route with
    | none => (.ok (), c)
    | some remote =>
        match c.sealOutbound bytes with
        | (.error failure, c) => (.error failure, c)
        | (.ok (some datagram), c) => c.transmit net remote datagram
        | (.ok none, c) =>
            match c.signed bytes with
            | (.error failure, c) => (.error failure, c)
            | (.ok b, c) =>
                let (result, c) := c.transmit net remote b.contents
                (result, c.recycle b)

def sendAck (net : Network) (c : Client) (sequence : UInt16) :
    Except Failure Unit × Client :=
  match c.route with
  | none => (.error (.invalidState .socketClosed), c)
  | some remote =>
      let (b, pool) := c.pool.acquire thread
      let b := ((Packet.ack sequence).encode b).sign
      let (result, c) := ({ c with pool }).transmit net remote b.contents
      (result, c.recycle b)

end Client
end GameLink
