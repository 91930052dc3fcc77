import GameLink.Metrics
import Mathlib.Algebra.Ring.Nat

/-!
# What the counters say

Each counter is the number of the tallies that move it, or the sum of what they carry.

**Results.**
* `recordAll_eq`: all counters after a list of tallies.
-/

namespace GameLink

namespace Tally

/-- The octets of a datagram that was counted as sent. -/
def sent? : Tally → Option Nat
  | .sent octets => some octets
  | _ => none

/-- The octets of a datagram that was counted as received. -/
def received? : Tally → Option Nat
  | .received octets => some octets
  | _ => none

end Tally

namespace Metrics

/-- The counters that have grown by the tallies of a list. -/
def grown (m : Metrics) (tallies : List Tally) : Metrics where
  datagramsSent := m.datagramsSent + UInt64.ofNat (tallies.filterMap Tally.sent?).length
  datagramsReceived :=
    m.datagramsReceived + UInt64.ofNat (tallies.filterMap Tally.received?).length
  bytesSent := m.bytesSent + UInt64.ofNat (tallies.filterMap Tally.sent?).sum
  bytesReceived := m.bytesReceived + UInt64.ofNat (tallies.filterMap Tally.received?).sum
  checksumFailures := m.checksumFailures + UInt64.ofNat (tallies.count .checksumFailure)
  replayRejections := m.replayRejections + UInt64.ofNat (tallies.count .replayRejection)
  decryptFailures := m.decryptFailures + UInt64.ofNat (tallies.count .decryptFailure)
  connectAttempts := m.connectAttempts + UInt64.ofNat (tallies.count .connectAttempt)
  connectionsEstablished :=
    m.connectionsEstablished + UInt64.ofNat (tallies.count .connectionEstablished)
  connectionErrors := m.connectionErrors + UInt64.ofNat (tallies.count .connectionError)
  packingAttempts := m.packingAttempts + UInt64.ofNat (tallies.count .packingAttempt)
  packingSuccesses := m.packingSuccesses + UInt64.ofNat (tallies.count .packingSuccess)

theorem grown_nil (m : Metrics) : m.grown [] = m := by
  simp [grown]

/-- A tally moves the counters as it is recorded. -/
theorem grown_cons (m : Metrics) (tally : Tally) (tallies : List Tally) :
    m.grown (tally :: tallies) = (m.record tally).grown tallies := by
  cases tally <;>
    simp [grown, record, Tally.sent?, Tally.received?, List.filterMap_cons, UInt64.add_assoc,
      UInt64.add_comm 1]

/-- All counters after a list of tallies. -/
theorem recordAll_eq (m : Metrics) (tallies : List Tally) :
    m.recordAll tallies = m.grown tallies := by
  induction tallies generalizing m with
  | nil => exact (grown_nil m).symm
  | cons tally rest ih =>
      rw [grown_cons, ← ih]
      rfl

end Metrics
end GameLink
