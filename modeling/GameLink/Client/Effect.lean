import GameLink.Client.Network
import GameLink.Metrics

/-!
# Effects of a client

What a client does that others can see: it raises events, hands datagrams to its
socket and counts.
-/

namespace GameLink

/-- Something the application is told. -/
inductive Event
  /-- The server accepted; the client number is missing in a bare acceptance. -/
  | connected (clientId : Option UInt32)
  /-- The server refused. -/
  | connectDenied
  /-- An attempt failed or a datagram could not be sent. -/
  | connectionError
  /-- The server ended the link, or was silent for too long. -/
  | disconnected
  /-- Application data: tag and message, and where reading goes on. -/
  | data (contents : Bytes) (position : Nat)
deriving DecidableEq, Repr

/-- One thing a client did. -/
inductive Effect
  | raised (event : Event)
  /-- The socket took a datagram. -/
  | sent (peer : Address) (datagram : Bytes)
  | counted (tally : Tally)
deriving DecidableEq, Repr

namespace Effect

def event? : Effect → Option Event
  | .raised event => some event
  | _ => none

def datagram? : Effect → Option Bytes
  | .sent _ datagram => some datagram
  | _ => none

def tally? : Effect → Option Tally
  | .counted tally => some tally
  | _ => none

end Effect
end GameLink
