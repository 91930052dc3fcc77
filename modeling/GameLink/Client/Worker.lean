import GameLink.Client.Inbound

/-!
# Workers

What the retry worker and the poll worker do in a turn, and how time passes.

**Turns.** The retry worker fails an attempt that takes too long and decides on
retries; a retry it decided on runs by itself, since beginning an attempt stops the
worker.  The poll worker ends a silent link and reads the socket until it is empty or a
datagram ends the reading.

**Results.** A burst is read one datagram at a time (`drain_cons`).
-/

namespace GameLink
namespace Client

/-- What the retry worker does after a turn. -/
inductive RetryAction
  | wait
  | reconnect
  | stop
deriving DecidableEq, Repr

/-- Looks at the timeout of an attempt and at the pause before a retry. -/
def retryTick (c : Client) : RetryAction × Client :=
  let elapsed := c.link.phaseStarted.since c.now
  match c.link.status with
  | .connecting =>
      if elapsed < c.link.connectTimeout then
        (.wait, c)
      else
        (.wait,
          (({ c with link := c.link.enter .connectionFailed c.now }).count
            .connectionError).raise .connectionError)
  | .connectionFailed =>
      if !c.link.retryEnabled ∨ c.link.target = none ∨ elapsed < c.link.retryInterval then
        (.wait, c)
      else
        (.reconnect,
          { c with
            link :=
              { c.link with retryCount := c.link.retryCount + 1, phaseStarted := c.now } })
  | .connected | .disconnected => (.stop, c)

/-- A turn of the retry worker, if it runs. -/
def retryTurn (c : Client) : Client :=
  match c.workers.retry with
  | none => c
  | some _ =>
      let (action, c) := c.retryTick
      match action with
      | .wait => c.startRetryWorker
      | .stop => { c with workers := { c.workers with retry := none } }
      | .reconnect =>
          { c with
            workers :=
              { c.workers with retry := none, reconnects := c.workers.reconnects + 1 } }

/-- Takes a retry that was decided on: where it goes, if there is one. -/
def takeRetry (c : Client) : Option (String × UInt16) × Client :=
  match c.workers.reconnects with
  | 0 => (none, c)
  | n + 1 => (c.link.target, { c with workers := { c.workers with reconnects := n } })

/-- Carries out a retry that was decided on. -/
def reconnect (net : Network) (c : Client) : Client :=
  match c.takeRetry with
  | (none, c) => c
  | (some (host, port), c) => (c.attempt net host port true).2

/-- The client with other datagrams waiting in its socket, if it has one. -/
def withInbox (c : Client) (inbox : List Arrival) : Client :=
  { c with socket := c.socket.map fun _ => { inbox } }

/-- Reads datagrams; those that are not from the server are passed over. -/
def drain (net : Network) (remote : Address) : List Arrival → Client → Flow × Client
  | [], c => (.goOn, c)
  | arrival :: rest, c =>
      let c := c.withInbox rest
      if arrival.sender = remote then
        let c := c.count (.received arrival.datagram.length)
        if arrival.datagram = [] then
          drain net remote rest c
        else
          match c.handleDatagram net remote arrival.datagram with
          | (.stop, c) => (.stop, c)
          | (.goOn, c) => drain net remote rest c
      else
        drain net remote rest c

/-- Reads one datagram.  One that is empty or not from the server is passed over. -/
def read (net : Network) (remote : Address) (c : Client) (arrival : Arrival) : Flow × Client :=
  if arrival.sender = remote then
    let c := c.count (.received arrival.datagram.length)
    if arrival.datagram = [] then
      (.goOn, c)
    else
      c.handleDatagram net remote arrival.datagram
  else
    (.goOn, c)

/-- A burst is read one datagram at a time. -/
theorem drain_cons
    (net : Network) (remote : Address) (arrival : Arrival) (rest : List Arrival) (c : Client) :
    drain net remote (arrival :: rest) c =
      match (c.withInbox rest).read net remote arrival with
      | (.stop, c) => (.stop, c)
      | (.goOn, c) => drain net remote rest c := by
  simp only [drain, read]
  split
  · split
    · rfl
    · rfl
  · rfl

/-- Reads the socket until it is empty or a datagram ends the reading. -/
def readSocket (net : Network) (c : Client) : Flow × Client :=
  match c.link.remote, c.socket with
  | some remote, some socket =>
      let (flow, c) := drain net remote socket.inbox c
      (flow, { c with pool := c.pool.merge thread })
  | _, _ => (.goOn, c)

/-- Looks at the link and reads the socket. -/
def poll (net : Network) (c : Client) : Flow × Client :=
  match c.link.status with
  | .connected =>
      let silence := c.link.lastActivity.since c.now
      if c.setup.settings.client.keepaliveTimeout < silence then
        (.stop, c.dropLink.raise .disconnected)
      else
        c.readSocket net
  | .connecting => c.readSocket net
  | .connectionFailed => (.goOn, c)
  | .disconnected => (.stop, c)

/-- A turn of the poll worker, if it runs. -/
def pollTurn (net : Network) (c : Client) : Client :=
  match c.workers.poll with
  | none => c
  | some _ =>
      match c.poll net with
      | (.goOn, c) => c.startPollWorker
      | (.stop, c) => { c with workers := { c.workers with poll := none } }

/-- Puts a datagram into the socket, if there is one. -/
def deliver (c : Client) (arrival : Arrival) : Client :=
  { c with socket := c.socket.map fun s => { inbox := s.inbox ++ [arrival] } }

/-- Whether a worker is to look now. -/
def isDue (c : Client) (next : Option Moment) : Bool :=
  match next with
  | none => false
  | some moment => moment ≤ c.now

/-- Gives each worker whose time has come its turn. -/
def runDue (net : Network) (c : Client) : Client :=
  let c := if c.isDue c.workers.retry then c.retryTurn.reconnect net else c
  if c.isDue c.workers.poll then c.pollTurn net else c

/-- Lets a number of milliseconds pass, one at a time. -/
def wait (net : Network) : Nat → Client → Client
  | 0, c => c
  | n + 1, c => wait net n (({ c with now := c.now + Duration.ofMilliseconds 1 }).runDue net)

end Client
end GameLink
