import GameLink.Client.Run

/-!
# Which datagrams a client handles

Datagrams are read in bursts, at a turn of the poll worker.  Those of strangers and empty
ones are passed over, and reading may end with a datagram.

**Handling.** A handling is a datagram together with the client at the moment when the
datagram is handled.  The handlings of a run are listed in their order.
-/

namespace GameLink
namespace Client

/-- A datagram, and the client when the datagram is handled. -/
structure Handling where
  client : Client
  datagram : Bytes

/-- The handlings of a burst of datagrams. -/
def burst (net : Network) (remote : Address) : List Arrival → Client → List Handling
  | [], _ => []
  | arrival :: rest, c =>
      let c := c.withInbox rest
      if arrival.sender = remote then
        let c := c.count (.received arrival.datagram.length)
        if arrival.datagram = [] then
          burst net remote rest c
        else
          ⟨c, arrival.datagram⟩ ::
            match c.handleDatagram net remote arrival.datagram with
            | (.stop, _) => []
            | (.goOn, c) => burst net remote rest c
      else
        burst net remote rest c

def readHandlings (net : Network) (c : Client) : List Handling :=
  match c.link.remote, c.socket with
  | some remote, some socket => burst net remote socket.inbox c
  | _, _ => []

/-- The handlings of a look at the link and the socket. -/
def lookHandlings (net : Network) (c : Client) : List Handling :=
  match c.link.status with
  | .connected =>
      let silence := c.link.lastActivity.since c.now
      if c.setup.settings.client.keepaliveTimeout < silence then [] else c.readHandlings net
  | .connecting => c.readHandlings net
  | .connectionFailed | .disconnected => []

def pollHandlings (net : Network) (c : Client) : List Handling :=
  match c.workers.poll with
  | none => []
  | some _ => c.lookHandlings net

def actHandlings (net : Network) (c : Client) : Action → List Handling
  | .pollTurn => c.pollHandlings net
  | _ => []

/-- The handlings of a run. -/
def handlings (c : Client) : List (Network × Action) → List Handling
  | [] => []
  | (net, action) :: rest =>
      c.actHandlings net action ++ (c.act net action).2.handlings rest

end Client
end GameLink
