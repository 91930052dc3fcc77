/-!
# Traffic counters

Twelve counters of 64 bits for datagrams, integrity failures, the secure channel, the
life of a link and the packing of payloads.  What moves them is a `Tally`; each
counter wraps around.
-/

namespace GameLink

/-- Something worth counting. -/
inductive Tally
  /-- A datagram of this many octets was handed to the socket. -/
  | sent (octets : Nat)
  /-- A datagram of this many octets was read from the peer. -/
  | received (octets : Nat)
  /-- A plain datagram was discarded for its checksum. -/
  | checksumFailure
  /-- A secure datagram was refused by the replay window. -/
  | replayRejection
  /-- A secure datagram failed authentication. -/
  | decryptFailure
  /-- A connection attempt was begun. -/
  | connectAttempt
  /-- An acceptance was acted on. -/
  | connectionEstablished
  /-- An attempt timed out, or a socket or handshake failed. -/
  | connectionError
  /-- Packing of a payload was tried. -/
  | packingAttempt
  /-- Packing made a payload smaller. -/
  | packingSuccess
deriving DecidableEq, Repr

structure Metrics where
  datagramsSent : UInt64 := 0
  datagramsReceived : UInt64 := 0
  bytesSent : UInt64 := 0
  bytesReceived : UInt64 := 0
  checksumFailures : UInt64 := 0
  replayRejections : UInt64 := 0
  decryptFailures : UInt64 := 0
  connectAttempts : UInt64 := 0
  connectionsEstablished : UInt64 := 0
  connectionErrors : UInt64 := 0
  packingAttempts : UInt64 := 0
  packingSuccesses : UInt64 := 0
deriving DecidableEq, Repr

namespace Metrics

def record (m : Metrics) : Tally → Metrics
  | .sent n =>
      { m with
        datagramsSent := m.datagramsSent + 1
        bytesSent := m.bytesSent + UInt64.ofNat n }
  | .received n =>
      { m with
        datagramsReceived := m.datagramsReceived + 1
        bytesReceived := m.bytesReceived + UInt64.ofNat n }
  | .checksumFailure => { m with checksumFailures := m.checksumFailures + 1 }
  | .replayRejection => { m with replayRejections := m.replayRejections + 1 }
  | .decryptFailure => { m with decryptFailures := m.decryptFailures + 1 }
  | .connectAttempt => { m with connectAttempts := m.connectAttempts + 1 }
  | .connectionEstablished =>
      { m with connectionsEstablished := m.connectionsEstablished + 1 }
  | .connectionError => { m with connectionErrors := m.connectionErrors + 1 }
  | .packingAttempt => { m with packingAttempts := m.packingAttempts + 1 }
  | .packingSuccess => { m with packingSuccesses := m.packingSuccesses + 1 }

/-- The counters after a list of tallies. -/
def recordAll (m : Metrics) (tallies : List Tally) : Metrics :=
  tallies.foldl record m

theorem recordAll_append (m : Metrics) (s t : List Tally) :
    m.recordAll (s ++ t) = (m.recordAll s).recordAll t := by
  simp [recordAll]

end Metrics
end GameLink
