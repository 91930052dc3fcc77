import GameLink.Client.Call

/-!
# Clients shared by several calls

A client with calls under way and its workers as tasks.  In each turn one call takes its
next part, one worker takes a turn, or something else happens.

**Workers.** Nothing is said of the moments of their turns: a worker that runs may take one
at any time.  Each poll worker reads the socket of its own attempt.  A cancelled worker reads
nothing, and ends in a turn of its own.

**Results.** A turn of one call leaves the others where they are
(`getElem?_calls_resume`); a call that has returned takes no more parts
(`resume_of_returned`).
-/

namespace GameLink

/-- A client and the calls made on it, the first first. -/
structure SharedClient where
  station : Station
  calls : List Progress := []

/-- What the application does beside connecting and disconnecting, and time that passes. -/
inductive Errand
  | send (contents : Bytes)
  | sendAck (sequence : UInt16)
  | renewKeys
  | setConnectTimeout (timeout : Duration)
  | setRetryInterval (interval : Duration)
  | setRetryEnabled (enabled : Bool)
  | elapse (time : Duration)

def Errand.action : Errand → Action
  | .send contents => .send contents
  | .sendAck sequence => .sendAck sequence
  | .renewKeys => .renewKeys
  | .setConnectTimeout timeout => .setConnectTimeout timeout
  | .setRetryInterval interval => .setRetryInterval interval
  | .setRetryEnabled enabled => .setRetryEnabled enabled
  | .elapse time => .elapse time

/-- What happens in a turn. -/
inductive Turn
  /-- A call to connect takes its first part. -/
  | connect (host : String) (port : UInt16)
  /-- A call to disconnect takes its first part. -/
  | disconnect
  /-- A retry that was decided on takes its first part. -/
  | reconnect
  /-- A call takes its next part. -/
  | resume (index : Nat)
  | errand (errand : Errand)
  /-- A datagram reaches the socket of an attempt. -/
  | deliver (generation : Nat) (arrival : Arrival)
  | retryTurn (generation : Nat)
  | pollTurn (generation : Nat)
  /-- A worker that was cancelled ends. -/
  | leave (badge : Badge)

namespace Station

/-- A turn of a retry worker, if it runs. -/
def retryTurn (x : Station) (generation : Nat) : Station :=
  let badge : Badge := ⟨.retry, generation⟩
  if x.crew.runs badge then
    match x.client.retryTick with
    | (.wait, client) => { x with client }
    | (.stop, client) => { x with client, crew := x.crew.dismiss badge }
    | (.reconnect, client) =>
        { x with
          client :=
            { client with
              workers := { client.workers with reconnects := client.workers.reconnects + 1 } }
          crew := x.crew.dismiss badge }
  else
    x

/-- The client as a poll worker sees it, which reads the socket of its own attempt. -/
def seenBy (x : Station) (worker : Worker) : Client :=
  { x.client with socket := some ⟨if worker.isCancelled then [] else worker.inbox⟩ }

/-- The socket that is left when a poll worker has made another client of what it saw. -/
def socketAfter (x : Station) (seen : Client) : Option Socket :=
  if seen.socket.isSome then x.client.socket else none

/-- The datagrams that a poll worker left in its socket. -/
def leftInbox (seen : Client) : List Arrival :=
  (seen.socket.map Socket.inbox).getD []

/-- A turn of a poll worker, if it runs. -/
def pollTurn (net : Network) (x : Station) (generation : Nat) : Station :=
  let badge : Badge := ⟨.poll, generation⟩
  match x.crew.find? badge with
  | none => x
  | some worker =>
      match (x.seenBy worker).poll net with
      | (.goOn, seen) =>
          { x with
            client := { seen with socket := x.socketAfter seen }
            crew := x.crew.change badge fun w => { w with inbox := leftInbox seen } }
      | (.stop, seen) =>
          { x with
            client := { seen with socket := x.socketAfter seen }
            crew := x.crew.dismiss badge }

def deliver (x : Station) (generation : Nat) (arrival : Arrival) : Station :=
  { x with
    crew :=
      x.crew.change ⟨.poll, generation⟩ fun w => { w with inbox := w.inbox ++ [arrival] } }

end Station

namespace SharedClient

/-- A client that nothing was called on. -/
def ofClient (client : Client) : SharedClient where
  station := { client }

/-- The next part of a call, if there is such a call and it has not returned. -/
def resume (net : Network) (s : SharedClient) (index : Nat) : SharedClient :=
  match s.calls[index]? with
  | some (.paused call) =>
      let (progress, station) := call.advance net s.station
      { station, calls := s.calls.set index progress }
  | _ => s

/-- The client with one more call, which has not begun. -/
def make (s : SharedClient) (call : Call) : SharedClient :=
  { s with calls := s.calls ++ [.paused call] }

/-- A call takes its first part. -/
def call (net : Network) (s : SharedClient) (call : Call) : SharedClient :=
  (s.make call).resume net s.calls.length

/-- The client with something done to its station. -/
def update (s : SharedClient) (station : Station) : SharedClient :=
  { s with station }

/-- The first part of a retry that was decided on. -/
def reconnect (net : Network) (s : SharedClient) : SharedClient :=
  match s.station.client.takeRetry with
  | (none, client) => s.update { s.station with client }
  | (some (host, port), client) =>
      (s.update { s.station with client }).call net (.begin host port true)

def take (net : Network) (s : SharedClient) : Turn → SharedClient
  | .connect host port => s.call net (.begin host port false)
  | .disconnect => s.call net .overtake
  | .reconnect => s.reconnect net
  | .resume index => s.resume net index
  | .errand errand =>
      s.update { s.station with client := (s.station.client.act net errand.action).2 }
  | .deliver generation arrival => s.update (s.station.deliver generation arrival)
  | .retryTurn generation => s.update (s.station.retryTurn generation)
  | .pollTurn generation => s.update (s.station.pollTurn net generation)
  | .leave badge =>
      s.update { s.station with crew := s.station.crew.dismissCancelled badge }

def run (s : SharedClient) (turns : List (Network × Turn)) : SharedClient :=
  turns.foldl (fun s turn => s.take turn.1 turn.2) s

@[simp] theorem run_nil (s : SharedClient) : s.run [] = s := by
  rfl

@[simp] theorem run_cons (s : SharedClient) (net : Network) (turn : Turn)
    (rest : List (Network × Turn)) :
    s.run ((net, turn) :: rest) = (s.take net turn).run rest := by
  rfl

theorem run_append (s : SharedClient) (first second : List (Network × Turn)) :
    s.run (first ++ second) = (s.run first).run second := by
  simp [run]

/-- A turn of one call leaves the others where they are. -/
theorem getElem?_calls_resume {net : Network} {s : SharedClient} {index other : Nat}
    (h : other ≠ index) : (s.resume net index).calls[other]? = s.calls[other]? := by
  unfold resume
  split
  · exact List.getElem?_set_ne (Ne.symm h)
  · rfl

/-- A call that has returned takes no more parts. -/
theorem resume_of_returned {net : Network} {s : SharedClient} {index : Nat}
    {result : Except Failure Unit} (h : s.calls[index]? = some (.returned result)) :
    s.resume net index = s := by
  simp only [resume, h]

end SharedClient
end GameLink
