import GameLink.Client.Attempt
import GameLink.Client.Outbound

/-!
# Receiving

A datagram of the server is a sealed one of the session, a bare cookie, or a signed one
that holds a packet; the three are tried in this order.  A datagram that is none of them
is dropped.
-/

namespace GameLink

/-- Whether reading the socket goes on. -/
inductive Flow
  | goOn
  | stop
deriving DecidableEq, Repr

namespace Client

/-- The client after the peer was heard. -/
def heard (c : Client) : Client :=
  { c with link := { c.link with lastActivity := c.now } }

/-- The tag that stands in front of opened data. -/
def tagOf (channel : Channel) : UInt8 :=
  match channel with
  | .unreliable => PacketKind.unreliable.tag
  | .reliableOrdered | .reliableUnordered => PacketKind.reliable.tag

/-- The session and the header of a datagram that belongs to the secure channel. -/
def secureHeader? (c : Client) (bytes : Bytes) : Option (Session × Header) :=
  if bytes.length < Header.size + Aead.tagSize then
    none
  else
    match c.session, Header.ofBytes (bytes.take Header.size) with
    | some s, .ok header =>
        if header.connectionId = s.connectionId ∧ header.flags.encrypted then
          some (s, header)
        else
          none
    | _, _ => none

/-- Opens a datagram of the secure channel and raises what it holds. -/
def openSecure (c : Client) (s : Session) (header : Header) (bytes : Bytes) : Client :=
  let payload : Packed := ⟨bytes.drop Header.size, header.flags.compressed⟩
  match s.openPacked c.setup.suite payload header.associatedData header.sequence with
  | .ok (message, s) =>
      ({ c with session := some s }).heard.raise
        (.data (tagOf header.channel :: message) 1)
  | .error failure => c.countAll (Session.openingTallies failure)

/-- Repeats the connection request with a cookie, once in an attempt with keys. -/
def answerCookie (net : Network) (c : Client) (remote : Address)
    (cookie : Octets cookieSize) : Client :=
  if c.link.status = .connecting ∧ !c.link.cookieAnswered then
    match c.link.keyPair with
    | none => c
    | some pair =>
        let c := { c with link := { c.link with cookieAnswered := true } }
        let datagram := request (some pair.publicKey) (some cookie)
        if c.isCarried net remote datagram then c.noteSent remote datagram else c
  else
    c

/-- Sends a signed packet in answer to one. -/
def reply (net : Network) (c : Client) (remote : Address) (packet : Packet) : Client :=
  let (b, pool) := c.pool.acquire thread
  let b := (packet.encode b).sign
  let c := { c with pool }
  let c := if c.isCarried net remote b.contents then c.noteSent remote b.contents else c
  { c with pool := c.pool.release thread b }

/-- The session that an acceptance leads to: a link with keys needs an answer with keys
and a number. -/
def acceptedSession (c : Client) (pair : KeyPair) (a : Acceptance) :
    Except Failure Session :=
  match a.keys, a.clientId with
  | some keys, some id => do
      let s ← Session.asClient c.setup.suite c.now pair.privateKey.bytes
        keys.serverPublic.bytes keys.salt.bytes id
      let security := c.setup.settings.security
      let policy : RenewalPolicy :=
        ⟨security.rekeyBytesThreshold.toNat, security.rekeyInterval⟩
      .ok ((s.withRenewal policy).withPackingThreshold security.compressionThreshold.toNat)
  | _, _ => .error (.keyAgreement .wrongLength)

/-- The client when its link is up. -/
def establish (c : Client) (clientId : Option UInt32) : Client :=
  let link := { c.link.enter .connected c.now with clientId, lastActivity := c.now }
  (({ c with link }).count .connectionEstablished).raise (.connected clientId)

/-- Acts on the first acceptance of an attempt. -/
def accept (c : Client) (a : Acceptance) : Client :=
  if c.link.status = .connecting then
    let pair := c.link.keyPair
    let c := { c with link := { c.link with keyPair := none } }
    match pair with
    | none => c.establish a.clientId
    | some pair =>
        match c.acceptedSession pair a with
        | .error _ => c.failAttempt c.link.generation
        | .ok s => ({ c with session := some s }).establish a.clientId
  else
    c

/-- Acts on a packet of the server; the buffer is what is left of its datagram. -/
def handlePacket (net : Network) (c : Client) (remote : Address) (b : Buffer) :
    Packet → Flow × Client
  | .ping timestamp => (.goOn, c.reply net remote (.pong timestamp))
  | .reliable | .unreliable => (.goOn, c.raise (.data b.contents b.position))
  | .connectionAccepted a => (.goOn, c.accept a)
  | .connectionDenied =>
      if c.link.status = .connecting then
        (.stop,
          ({ c with link := c.link.enter .connectionFailed c.now }).raise .connectDenied)
      else
        (.goOn, c)
  | .disconnect => (.stop, c.dropLink.raise .disconnected)
  | .checkIntegrity index =>
      if c.setup.settings.security.integrityCheckEnabled then
        (.goOn, c.reply net remote (.checkIntegrity (c.setup.integrity.key index)))
      else
        (.goOn, c)
  | .cookie cookie => (.goOn, c.answerCookie net remote cookie)
  | .pong _ | .ack _ | .connect .. | .error => (.goOn, c)

/-- Acts on a signed datagram that was loaded into a buffer. -/
def handlePlain (net : Network) (c : Client) (remote : Address) (b : Buffer) :
    Flow × Client :=
  match b.verify with
  | .error _ => (.goOn, c.count .checksumFailure)
  | .ok b =>
      match Packet.decode b with
      | (.error _, _) => (.goOn, c)
      | (.ok packet, b) => c.heard.handlePacket net remote b packet

/-- The cookie of a datagram that is nothing but a cookie packet. -/
def bareCookie? (bytes : Bytes) : Option (Octets cookieSize) :=
  if bytes.head? = some PacketKind.cookie.tag then
    Octets.ofBytes? cookieSize bytes.tail
  else
    none

/-- A buffer for a datagram: a pooled one if it is large enough. -/
def loadedBuffer (c : Client) (bytes : Bytes) : Buffer × Client :=
  if bytes.length ≤ c.pool.bufferCapacity then
    let (b, pool) := c.pool.acquire thread
    (b.load bytes, { c with pool })
  else
    (Buffer.ofBytes bytes, c)

/-- Acts on a datagram of the server. -/
def handleDatagram (net : Network) (c : Client) (remote : Address) (bytes : Bytes) :
    Flow × Client :=
  match c.secureHeader? bytes with
  | some (s, header) => (.goOn, c.openSecure s header bytes)
  | none =>
      match bareCookie? bytes with
      | some cookie => (.goOn, c.answerCookie net remote cookie)
      | none =>
          let (b, c) := c.loadedBuffer bytes
          let (flow, c) := c.handlePlain net remote b
          (flow, { c with pool := c.pool.release thread b })

end Client
end GameLink
