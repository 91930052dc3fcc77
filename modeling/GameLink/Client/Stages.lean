import GameLink.Client.Shared

/-!
# Reading in parts

A turn of a poll worker consists of parts.  It may pause between two of them, and others go on
meanwhile: calls, the retry worker, the network.

**Parts.** The worker looks at the link; then it reads one datagram after the other.  An
acceptance that finds an attempt waiting takes the keys of the attempt and the generation of the
link along.  In a part of its own a session is agreed on.  In the last part the link comes up,
unless its generation is another one by then.

**Pauses.** A paused poll worker does not end, so that whoever stops it waits for it.
-/

namespace GameLink

/-- An acceptance that found an attempt waiting. -/
structure Answer where
  acceptance : Acceptance
  /-- The generation of the link at that time. -/
  generation : Nat
  /-- The key pair of the attempt, if it has one. -/
  pair : Option KeyPair
  /-- The buffer that holds the datagram of the acceptance. -/
  buffer : Buffer

/-- How far a turn of a poll worker has come. -/
inductive Reading
  | reading (remote : Address)
  /-- An acceptance has found the attempt waiting. -/
  | agreeing (remote : Address) (answer : Answer)
  /-- The session of the attempt is agreed on, if there is to be one. -/
  | settling (remote : Address) (answer : Answer)

/-- The acceptance that is acted on. -/
def Reading.answer? : Reading → Option Answer
  | .reading _ => none
  | .agreeing _ answer | .settling _ answer => some answer

/-- What a look at the link tells a poll worker. -/
inductive Look
  | read (remote : Address)
  /-- There is nothing to read now. -/
  | rest
  /-- There will be nothing to read any more. -/
  | stop

namespace Client

/-- The look whether there is anything to read from. -/
def lookForRemote (c : Client) : Look :=
  match c.link.remote with
  | some remote => .read remote
  | none => .rest

/-- Looks at the link and ends it if it was silent for too long. -/
def look (c : Client) : Look × Client :=
  match c.link.status with
  | .connected =>
      if c.setup.settings.client.keepaliveTimeout < c.link.lastActivity.since c.now then
        (.stop, c.dropLink.raise .disconnected)
      else
        (c.lookForRemote, c)
  | .connecting => (c.lookForRemote, c)
  | .connectionFailed => (.rest, c)
  | .disconnected => (.stop, c)

/-- The acceptance in a signed datagram that was loaded into a buffer. -/
def accepted? (b : Buffer) : Option Acceptance :=
  match b.verify with
  | .error _ => none
  | .ok b =>
      match Packet.decode b with
      | (.ok (.connectionAccepted a), _) => some a
      | _ => none

/-- The first part of an acceptance that finds an attempt waiting. -/
def beginAnswer? (c : Client) (bytes : Bytes) : Option (Answer × Client) :=
  match c.secureHeader? bytes, bareCookie? bytes with
  | none, none =>
      let (b, c) := c.loadedBuffer bytes
      match accepted? b with
      | none => none
      | some a =>
          let c := c.heard
          if c.link.status = .connecting then
            some (⟨a, c.link.generation, c.link.keyPair, b⟩,
              { c with link := { c.link with keyPair := none } })
          else
            none
  | _, _ => none

/-- Reads a datagram as far as the first part of an acceptance. -/
def readAnswer? (remote : Address) (c : Client) (arrival : Arrival) :
    Option (Answer × Client) :=
  if arrival.sender = remote ∧ arrival.datagram ≠ [] then
    (c.count (.received arrival.datagram.length)).beginAnswer? arrival.datagram
  else
    none

/-- The first datagram in the socket, and the client when it was taken out. -/
def nextArrival? (c : Client) : Option (Client × Arrival) :=
  match c.socket with
  | some ⟨arrival :: rest⟩ => some (c.withInbox rest, arrival)
  | _ => none

/-- Agrees on a session if the attempt has keys; an attempt that cannot agree fails. -/
def agree (c : Client) (answer : Answer) : Bool × Client :=
  match answer.pair with
  | none => (true, c)
  | some pair =>
      match c.acceptedSession pair answer.acceptance with
      | .error _ => (false, c.failAttempt answer.generation)
      | .ok s => (true, { c with session := some s })

/-- The link comes up, unless its attempt was overtaken. -/
def settle (c : Client) (answer : Answer) : Client :=
  if c.link.generation = answer.generation then
    c.establish answer.acceptance.clientId
  else
    { c with session := none }

/-- Gives the buffer of an acceptance back. -/
def putAway (c : Client) (answer : Answer) : Client :=
  { c with pool := c.pool.release thread answer.buffer }

end Client

namespace Station

/-- A poll worker goes on with what it has made of the client that it saw. -/
def goesOn (x : Station) (generation : Nat) (seen : Client) : Station :=
  { x with
    client := { seen with socket := x.socketAfter seen }
    crew :=
      x.crew.change ⟨.poll, generation⟩ fun w => { w with inbox := leftInbox seen } }

/-- A poll worker ends with what it has made of the client that it saw. -/
def ends (x : Station) (generation : Nat) (seen : Client) : Station :=
  { x with
    client := { seen with socket := x.socketAfter seen }
    crew := x.crew.dismiss ⟨.poll, generation⟩ }

end Station

/-- A client shared by several calls, whose poll workers read in parts. -/
structure StagedClient where
  shared : SharedClient
  /-- How far the poll worker of an attempt has come in a turn that is not over. -/
  readings : Nat → Option Reading := fun _ => none

/-- What happens to a client. -/
inductive Stage
  /-- A turn of anything; that of a poll worker only takes its first part. -/
  | turn (turn : Turn)
  /-- The poll worker of an attempt takes the next part of its turn. -/
  | goOn (generation : Nat)

namespace StagedClient

/-- A client that nothing was called on. -/
def ofClient (client : Client) : StagedClient where
  shared := .ofClient client

def station (s : StagedClient) : Station :=
  s.shared.station

def client (s : StagedClient) : Client :=
  s.station.client

/-- The client with another station, and a poll worker elsewhere in its turn. -/
def update (s : StagedClient) (station : Station) (generation : Nat) (reading : Option Reading) :
    StagedClient where
  shared := s.shared.update station
  readings other := if other = generation then reading else s.readings other

/-- The first part of a turn of a poll worker. -/
def look (s : StagedClient) (generation : Nat) : StagedClient :=
  match s.readings generation, s.station.crew.find? ⟨.poll, generation⟩ with
  | none, some worker =>
      match (s.station.seenBy worker).look with
      | (.read remote, seen) =>
          s.update (s.station.goesOn generation seen) generation (some (.reading remote))
      | (.rest, seen) => s.update (s.station.goesOn generation seen) generation none
      | (.stop, seen) => s.update (s.station.ends generation seen) generation none
  | _, _ => s

/-- What a poll worker in its turn sees of the client, and the datagram that it reads next. -/
def next? (s : StagedClient) (generation : Nat) : Option (Client × Arrival) :=
  match s.station.crew.find? ⟨.poll, generation⟩ with
  | none => none
  | some worker => (s.station.seenBy worker).nextArrival?

/-- A poll worker reads the next datagram, or finds none and ends its turn. -/
def readNext (net : Network) (s : StagedClient) (generation : Nat) (remote : Address) :
    StagedClient :=
  match s.next? generation with
  | none =>
      let client := { s.client with pool := s.client.pool.merge Client.thread }
      s.update { s.station with client } generation none
  | some (seen, arrival) =>
      match seen.readAnswer? remote arrival with
      | some (answer, seen) =>
          s.update (s.station.goesOn generation seen) generation (some (.agreeing remote answer))
      | none =>
          match seen.read net remote arrival with
          | (.goOn, seen) =>
              s.update (s.station.goesOn generation seen) generation (some (.reading remote))
          | (.stop, seen) =>
              let seen := { seen with pool := seen.pool.merge Client.thread }
              s.update (s.station.ends generation seen) generation none

/-- A poll worker takes the next part of its turn. -/
def goOn (net : Network) (s : StagedClient) (generation : Nat) : StagedClient :=
  match s.readings generation with
  | none => s
  | some (.reading remote) => s.readNext net generation remote
  | some (.agreeing remote answer) =>
      match s.client.agree answer with
      | (true, client) =>
          s.update { s.station with client } generation (some (.settling remote answer))
      | (false, client) =>
          s.update { s.station with client := client.putAway answer } generation
            (some (.reading remote))
  | some (.settling remote answer) =>
      s.update { s.station with client := (s.client.settle answer).putAway answer } generation
        (some (.reading remote))

def takeTurn (net : Network) (s : StagedClient) : Turn → StagedClient
  | .pollTurn generation => s.look generation
  -- a poll worker in the middle of its turn ends later
  | .leave ⟨.poll, generation⟩ =>
      if (s.readings generation).isSome then
        s
      else
        { s with shared := s.shared.take net (.leave ⟨.poll, generation⟩) }
  | turn => { s with shared := s.shared.take net turn }

def take (net : Network) (s : StagedClient) : Stage → StagedClient
  | .turn turn => s.takeTurn net turn
  | .goOn generation => s.goOn net generation

def run (s : StagedClient) (stages : List (Network × Stage)) : StagedClient :=
  stages.foldl (fun s stage => s.take stage.1 stage.2) s

@[simp] theorem run_nil (s : StagedClient) : s.run [] = s := by
  rfl

@[simp] theorem run_cons (s : StagedClient) (net : Network) (stage : Stage)
    (rest : List (Network × Stage)) :
    s.run ((net, stage) :: rest) = (s.take net stage).run rest := by
  rfl

theorem run_append (s : StagedClient) (first second : List (Network × Stage)) :
    s.run (first ++ second) = (s.run first).run second := by
  simp [run]

end StagedClient
end GameLink
