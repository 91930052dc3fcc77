import GameLink.Client.Basic

/-!
# Connecting and disconnecting

An attempt clears what is left of the link before, starts a retry worker, looks up the
server, opens a socket, sends the first request and publishes the socket.  Each part is
a function of its own; an attempt is their composition.

**Overtaking.** An attempt carries the generation it began with.  Publishing and failing
change the link only while that is still the link's own.
-/

namespace GameLink
namespace Client

def stopWorkers (c : Client) : Client :=
  { c with workers := { c.workers with retry := none, poll := none } }

/-- Gives up socket and session. -/
def clear (c : Client) : Client :=
  { c with socket := none, session := none }

def startRetryWorker (c : Client) : Client :=
  { c with workers := { c.workers with retry := some (c.now + c.retryPeriod) } }

/-- Starts the poll worker.  Its first look, at once, finds an empty socket. -/
def startPollWorker (c : Client) : Client :=
  { c with workers := { c.workers with poll := some (c.now + c.pollPeriod) } }

/-- Draws a key pair if the link is to be encrypted. -/
def drawKeyPair (c : Client) : Option KeyPair × Client :=
  if c.setup.settings.security.encryptionEnabled then
    let (pair, entropy) := KeyPair.generate c.setup.suite c.entropy
    (some pair, { c with entropy })
  else
    (none, c)

/-- The datagram of a connection request. -/
def request (publicKey : Option Key) (cookie : Option (Octets cookieSize)) : Bytes :=
  let room := 1 + publicKeySize + (if cookie.isSome then cookieSize else 0)
  ((Packet.connect publicKey cookie).encode (Buffer.empty room)).contents

/-- Looks up the server, opens a socket and draws the keys. -/
def openSocket (net : Network) (c : Client) (host : String) (port : UInt16) :
    Except Failure (Address × Option KeyPair) × Client :=
  match net.resolve host port with
  | none => (.error (.unresolved host port), c)
  | some remote =>
      if net.opens remote then
        let (pair, c) := c.drawKeyPair
        (.ok (remote, pair), c)
      else
        (.error .socket, c)

/-- Sends the first request of an attempt. -/
def sendRequest (net : Network) (c : Client) (remote : Address) (pair : Option KeyPair) :
    Except Failure Unit × Client :=
  let datagram := request (pair.map KeyPair.publicKey) none
  if c.isCarried net remote datagram then
    (.ok (), c.noteSent remote datagram)
  else
    (.error .socket, c)

/-- Publishes the socket of an attempt, unless the attempt was overtaken. -/
def publish (c : Client) (generation : Nat) (remote : Address) (pair : Option KeyPair) :
    Option Client :=
  if c.link.generation = generation ∧ c.link.status = .connecting then
    some
      { c with
        link := { c.link with remote := some remote, keyPair := pair }
        socket := some {} }
  else
    none

/-- Lets an attempt fail, unless it was overtaken. -/
def failAttempt (c : Client) (generation : Nat) : Client :=
  if c.link.generation = generation then
    (({ c with link := c.link.enter .connectionFailed c.now }).count
      .connectionError).raise .connectionError
  else
    c

/-- The client at the beginning of an attempt, up to the look for the server. -/
def beginAttempt (c : Client) (host : String) (port : UInt16) (isRetry : Bool) : Client :=
  (({ c with link := c.link.begin host port isRetry c.now }).stopWorkers.clear.count
    .connectAttempt).startRetryWorker

/-- Begins an attempt and carries it to the point where the request is sent. -/
def attempt (net : Network) (c : Client) (host : String) (port : UInt16)
    (isRetry : Bool) : Except Failure Unit × Client :=
  if c.link.mayBegin isRetry then
    let c := c.beginAttempt host port isRetry
    let generation := c.link.generation
    match c.openSocket net host port with
    | (.error failure, c) => (.error failure, c.failAttempt generation)
    | (.ok (remote, pair), c) =>
        match c.sendRequest net remote pair with
        | (.error failure, c) => (.error failure, c.failAttempt generation)
        | (.ok (), c) =>
            match c.publish generation remote pair with
            | some c => (.ok (), c.startPollWorker)
            | none => (.ok (), c)
  else
    (.error (.invalidState .attemptInProgress), c)

/-- Begins to connect to a host and a port. -/
def connect (net : Network) (c : Client) (host : String) (port : UInt16) :
    Except Failure Unit × Client :=
  c.attempt net host port false

/-- Begins to connect to the server of the settings. -/
def connectConfigured (net : Network) (c : Client) : Except Failure Unit × Client :=
  let settings := c.setup.settings.client
  c.connect net settings.serverAddress settings.serverPort

/-- Gives up the link. -/
def dropLink (c : Client) : Client :=
  ({ c with link := c.link.drop c.now }).clear

/-- Makes every attempt under way an overtaken one. -/
def overtake (c : Client) : Client :=
  { c with link := { c.link with generation := c.link.generation + 1 } }

/-- Forgets the retries and the keys of the attempts so far. -/
def forgetAttempts (c : Client) : Client :=
  { c with link := { c.link with retryCount := 0, keyPair := none } }

/-- Ends the link and stops both workers. -/
def disconnect (c : Client) : Client :=
  c.overtake.stopWorkers.dropLink.forgetAttempts

end Client
end GameLink
