import GameLink.Duration
import GameLink.Entropy
import GameLink.Packet
import GameLink.Packing
import GameLink.ReplayWindow
import GameLink.Session.Suite
import GameLink.Text.Utf8

/-!
# Secure sessions

One end of an established secure channel: the keys of both directions, the number of
the next payload, the window of the numbers received, and when the keys are due to be
renewed.

**Keys.** Both ends derive the pair `toClient`, `toServer` from the secret they share;
renewing derives the next pair from the current one, the salt and the epoch.

**Nonces.** Connection number (4 octets) and sequence number (8 octets), so payloads of
one direction and one epoch are sealed under different nonces as long as their
sequence numbers differ.
-/

namespace GameLink

/-- Which end of a channel. -/
inductive Role
  | client
  | server
deriving DecidableEq, Repr

/-- A private key and its public key. -/
structure KeyPair where
  privateKey : Key
  publicKey : Key
deriving DecidableEq

namespace KeyPair

/-- A key pair from the next octets of an entropy source. -/
def generate (suite : Suite) (e : Entropy) : KeyPair × Entropy :=
  let (privateKey, e) := e.draw 32
  (⟨privateKey, suite.publicKey privateKey⟩, e)

/-- A one-line description, without the private key. -/
def describe (k : KeyPair) : String :=
  "ClientKeyPair \x7b public: ["
    ++ String.intercalate ", " (k.publicKey.bytes.map fun octet => toString octet.toNat)
    ++ "], .. \x7d"

end KeyPair

/-- When keys are due to be renewed. -/
structure RenewalPolicy where
  /-- Renewal is due once this many octets were sealed. -/
  octets : Nat := 1 <<< 30
  /-- Renewal is due once the keys are this old. -/
  age : Duration := .ofSeconds 3600
deriving DecidableEq, Repr

/-- One end of a secure channel. -/
structure Session where
  role : Role
  /-- What this end seals with. -/
  sendKey : Key
  /-- What the other end seals with. -/
  receiveKey : Key
  salt : Salt
  connectionId : UInt32
  /-- The sequence number of the next payload. -/
  nextSend : UInt64 := 0
  /-- The sequence numbers of the payloads opened. -/
  received : ReplayWindow := .empty
  /-- How often the keys were renewed.  It stands for a counter of 64 bits, which no session runs
  through. -/
  epoch : Nat := 0
  /-- How many octets were sealed since the keys are in use; a counter of 64 bits as well. -/
  octetsSealed : Nat := 0
  /-- Since when the keys are in use. -/
  keyedAt : Moment
  renewal : RenewalPolicy := {}
  /-- Sealed payloads longer than this are packed. -/
  packingThreshold : Nat := 512
deriving DecidableEq

namespace Session

/-- What the first keys of a session are derived for. -/
def firstLabel : Bytes := Utf8.encode "ToS-UE5 v1"

/-- What the keys of an epoch after the first are derived for. -/
def renewalLabel (epoch : Nat) : Bytes :=
  Utf8.encode "rekey" ++ Bytes.ofNat 8 epoch

def keys (s : Session) : ChannelKeys :=
  match s.role with
  | .client => ⟨s.receiveKey, s.sendKey⟩
  | .server => ⟨s.sendKey, s.receiveKey⟩

/-- The key that one end seals with. -/
def sendKeyOf (role : Role) (keys : ChannelKeys) : Key :=
  match role with
  | .client => keys.toServer
  | .server => keys.toClient

/-- The key that the other end seals with. -/
def receiveKeyOf (role : Role) (keys : ChannelKeys) : Key :=
  match role with
  | .client => keys.toClient
  | .server => keys.toServer

/-- A fresh session of one end, from the secret both ends share. -/
def ofSecret (suite : Suite) (now : Moment) (role : Role) (secret : Key) (salt : Salt)
    (connectionId : UInt32) : Session :=
  let keys := suite.derive salt secret.bytes firstLabel
  { role
    sendKey := sendKeyOf role keys
    receiveKey := receiveKeyOf role keys
    salt
    connectionId
    keyedAt := now }

def keyMaterial (n : Nat) (bs : Bytes) : Except Failure (Octets n) :=
  match Octets.ofBytes? n bs with
  | some octets => .ok octets
  | none => .error (.keyAgreement .wrongLength)

/-- The secret shared with a peer, unless the peer's key makes it zero. -/
def sharedSecret (suite : Suite) (privateKey peerKey : Key) : Except Failure Key :=
  let secret := suite.agree privateKey peerKey
  if secret = Octets.zero 32 then
    .error (.keyAgreement .lowOrder)
  else
    .ok secret

/-- The client's end, from its private key and the server's answer. -/
def asClient (suite : Suite) (now : Moment) (privateKey serverPublic salt : Bytes)
    (connectionId : UInt32) : Except Failure Session := do
  let privateKey ← keyMaterial 32 privateKey
  let serverPublic ← keyMaterial 32 serverPublic
  let salt ← keyMaterial 16 salt
  let secret ← sharedSecret suite privateKey serverPublic
  .ok (ofSecret suite now .client secret salt connectionId)

/-- The server's end and its answer, from a client's public key.  Key and salt are drawn
before the client's key is found to be bad. -/
def asServer (suite : Suite) (now : Moment) (clientPublic : Bytes)
    (connectionId : UInt32) (e : Entropy) :
    Except Failure (HandshakeKeys × Session) × Entropy :=
  match keyMaterial 32 clientPublic with
  | .error fault => (.error fault, e)
  | .ok clientPublic =>
      let (pair, e) := KeyPair.generate suite e
      let (salt, e) := e.draw 16
      let answer := (sharedSecret suite pair.privateKey clientPublic).map fun secret =>
        (⟨pair.publicKey, salt⟩, ofSecret suite now .server secret salt connectionId)
      (answer, e)

def withRenewal (s : Session) (policy : RenewalPolicy) : Session :=
  { s with renewal := policy }

def withPackingThreshold (s : Session) (threshold : Nat) : Session :=
  { s with packingThreshold := threshold }

def nonce (s : Session) (seq : UInt64) : Nonce :=
  ⟨Bytes.ofNat 4 s.connectionId.toNat ++ Bytes.ofNat 8 seq.toNat, by simp⟩

/-- The sealed form of a message under a sequence number. -/
def sealUnder (suite : Suite) (s : Session) (seq : UInt64) (message associated : Bytes) :
    Except Failure Bytes :=
  match suite.seal? s.sendKey (s.nonce seq) associated message with
  | some sealed => .ok sealed
  | none => .error .encryption

/-- The session after a payload was sealed: the next number and the octets sealed. -/
def afterSealing (s : Session) (next : UInt64) (sealed : Bytes) : Session :=
  { s with nextSend := next, octetsSealed := s.octetsSealed + sealed.length }

/-- The last sequence number of all. -/
def lastNumber : UInt64 := UInt64.ofNat (UInt64.size - 1)

/-- Seals a message under the next sequence number.  The last number is not used, for
there is none after it. -/
def sealNext (suite : Suite) (s : Session) (message associated : Bytes) :
    Except Failure (Bytes × Session) := do
  let sealed ← s.sealUnder suite s.nextSend message associated
  if s.nextSend = lastNumber then
    .error .exhausted
  else
    .ok (sealed, s.afterSealing (s.nextSend + 1) sealed)

/-- The sequence number after a given one; the last is its own successor. -/
def successor (seq : UInt64) : UInt64 :=
  if seq = lastNumber then seq else seq + 1

/-- Seals a message under a given sequence number; the next number moves past it. -/
def sealAt (suite : Suite) (s : Session) (message associated : Bytes) (seq : UInt64) :
    Except Failure (Bytes × Session) := do
  let sealed ← s.sealUnder suite seq message associated
  .ok (sealed, s.afterSealing (max s.nextSend (successor seq)) sealed)

/-- Seals a message under the next sequence number, then packs the sealed form. -/
def sealPacked (suite : Suite) (s : Session) (message associated : Bytes) :
    Except Failure (Packed × List Tally × Session) := do
  let (sealed, s) ← s.sealNext suite message associated
  let (packed, tallies) := Packing.pack s.packingThreshold sealed
  .ok (packed, tallies, s)

/-- Opens a payload that the other end sealed under a sequence number.  Only an authentic
payload marks its number as received. -/
def openAt (suite : Suite) (s : Session) (sealed associated : Bytes) (seq : UInt64) :
    Except Failure (Bytes × Session) :=
  if s.received.isFresh seq then
    match suite.open? s.receiveKey (s.nonce seq) associated sealed with
    | some message => .ok (message, { s with received := s.received.insert seq })
    | none => .error .decryption
  else
    .error (.replayed seq)

/-- Unpacks a payload, then opens it. -/
def openPacked (suite : Suite) (s : Session) (payload : Packed) (associated : Bytes)
    (seq : UInt64) : Except Failure (Bytes × Session) := do
  let sealed ← Packing.unpack payload
  s.openAt suite sealed associated seq

/-- What is counted when a payload is not opened. -/
def openingTallies : Failure → List Tally
  | .replayed _ => [.replayRejection]
  | .decryption => [.decryptFailure]
  | _ => []

/-- Whether the keys are due to be renewed. -/
def renewalDue (s : Session) (now : Moment) : Bool :=
  s.renewal.octets ≤ s.octetsSealed || s.renewal.age ≤ s.keyedAt.since now

/-- The session with the keys of the next epoch.  They depend only on the current keys,
the salt and the epoch. -/
def renew (suite : Suite) (s : Session) (now : Moment) : Session :=
  let current := s.keys
  let next := suite.derive s.salt (current.toClient.bytes ++ current.toServer.bytes)
    (renewalLabel (s.epoch + 1))
  { s with
    sendKey := sendKeyOf s.role next
    receiveKey := receiveKeyOf s.role next
    nextSend := 0
    received := .empty
    epoch := s.epoch + 1
    octetsSealed := 0
    keyedAt := now }

/-- A one-line description, without the keys. -/
def describe (s : Session) : String :=
  let role := match s.role with
    | .client => "Client"
    | .server => "Server"
  "SecureSession \x7b role: " ++ role
    ++ ", connection_id: " ++ toString s.connectionId.toNat
    ++ ", seq_tx: " ++ toString s.nextSend.toNat
    ++ ", seq_rx_highest: " ++ toString s.received.highest.toNat
    ++ ", epoch: " ++ toString s.epoch ++ ", .. \x7d"

/-- Renewing sets back what counts payloads. -/
theorem renew_counters (suite : Suite) (s : Session) (now : Moment) :
    (s.renew suite now).nextSend = 0 ∧ (s.renew suite now).received = .empty
      ∧ (s.renew suite now).octetsSealed = 0 := by
  simp [renew]

end Session
end GameLink
