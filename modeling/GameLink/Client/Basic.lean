import GameLink.Client.Effect
import GameLink.Client.Link
import GameLink.IntegrityTable
import GameLink.Pool

/-!
# Clients

A client of one server: its link, socket, session and buffers, the workers that run
beside it, and a journal of what it did.

**Workers.** Each attempt has a retry worker, which looks at timeouts and retries in a
fixed period, and, once its socket is open, a poll worker, which reads the socket.  A
worker is kept as the moment of its next turn.
-/

namespace GameLink

/-- What is fixed for the life of a client. -/
structure Setup where
  settings : Settings
  suite : Suite
  integrity : IntegrityTable

structure Workers where
  /-- When the retry worker looks next, if it runs. -/
  retry : Option Moment := none
  /-- When the poll worker looks next, if it runs. -/
  poll : Option Moment := none
  /-- Retries that were decided on and have not begun. -/
  reconnects : Nat := 0
deriving DecidableEq, Repr

structure Client where
  setup : Setup
  link : Link
  socket : Option Socket := none
  session : Option Session := none
  pool : Pool
  workers : Workers := {}
  entropy : Entropy
  now : Moment
  /-- What the client did, the first first. -/
  journal : List Effect := []

namespace Client

/-- The thread on which a client uses its pool. -/
def thread : Thread := 0

def shortestPeriod : Duration := .ofMilliseconds 1

/-- A new client, with its pool filled. -/
def create (setup : Setup) (entropy : Entropy) (now : Moment) : Client :=
  let performance := setup.settings.performance
  { setup
    link := .idle setup.settings.client now
    pool :=
      (Pool.empty performance.bufferCapacity.toNat).preallocate thread
        performance.poolPrealloc.toNat
    entropy
    now }

/-- The client after it did something more. -/
def note (c : Client) (effect : Effect) : Client :=
  { c with journal := c.journal ++ [effect] }

/-- The client after it raised an event. -/
def raise (c : Client) (event : Event) : Client :=
  c.note (.raised event)

def count (c : Client) (tally : Tally) : Client :=
  c.note (.counted tally)

/-- The client after it counted several things. -/
def countAll (c : Client) (tallies : List Tally) : Client :=
  tallies.foldl count c

/-- The client after the socket took a datagram. -/
def noteSent (c : Client) (peer : Address) (datagram : Bytes) : Client :=
  (c.note (.sent peer datagram)).count (.sent datagram.length)

/-- Whether the network takes a datagram now. -/
def isCarried (c : Client) (net : Network) (peer : Address) (datagram : Bytes) : Bool :=
  net.carries c.journal.length peer datagram

/-- The socket and the address that datagrams go to, if there are both. -/
def route (c : Client) : Option Address :=
  if c.socket.isSome then c.link.remote else none

def retryPeriod (c : Client) : Duration :=
  c.setup.settings.client.retryTick.longer shortestPeriod

def pollPeriod (c : Client) : Duration :=
  c.setup.settings.client.pollInterval.longer shortestPeriod

/-- Whether outgoing data is sealed. -/
def isSecure (c : Client) : Bool :=
  c.session.isSome

/-- Whether the keys of the session are due to be renewed. -/
def needsRenewal (c : Client) : Bool :=
  (c.session.map fun s => s.renewalDue c.now).getD false

/-- Gives a buffer back to the pool and shares it at once. -/
def recycle (c : Client) (b : Buffer) : Client :=
  { c with pool := (c.pool.release thread b).merge thread }

/-- The client with another time allowed for attempts. -/
def setConnectTimeout (c : Client) (timeout : Duration) : Client :=
  { c with link := { c.link with connectTimeout := timeout } }

/-- The client with another pause before retries. -/
def setRetryInterval (c : Client) (interval : Duration) : Client :=
  { c with link := { c.link with retryInterval := interval } }

/-- The client with retries switched on or off. -/
def setRetryEnabled (c : Client) (enabled : Bool) : Client :=
  { c with link := { c.link with retryEnabled := enabled } }

def renewKeys (c : Client) : Except Failure Unit × Client :=
  match c.session with
  | none => (.error (.invalidState .sessionMissing), c)
  | some s => (.ok (), { c with session := some (s.renew c.setup.suite c.now) })

def describe (c : Client) : String :=
  let status := match c.link.status with
    | .disconnected => "Disconnected"
    | .connecting => "Connecting"
    | .connected => "Connected"
    | .connectionFailed => "ConnectionFailed"
  "UdpClient \x7b status: " ++ status ++ ", retry_count: " ++ toString c.link.retryCount.toNat
    ++ ", secure: " ++ toString c.isSecure ++ " \x7d"

end Client
end GameLink
