import GameLink.Client.Threads
import GameLink.Proofs.Client.Handlings

/-!
# What a move has a client do

The journal and the buffers of a client change in a few ways only, whatever calls are under way
and whatever workers run.

**Algorithm.** Each move is one doing (`ThreadedClient.doing`), and what it makes of journal and
buffers is what the doing makes of them (`Doing.apply`).  The doings of a run, each with the client
that it finds, are listed in their order (`ThreadedClient.scenes`).

**Results.**
* `ledger_advance`, `ledger_take`: the parts of calls and the turns of workers as doings.
* `ledger_act`: a move as a doing.
-/

namespace GameLink

/-- Something a client does. -/
inductive Doing
  | nothing
  /-- An attempt begins. -/
  | enter
  /-- What is left of the attempts before is cleared away. -/
  | clear
  | openSocket (attempt : Attempt)
  | request (attempt : Attempt) (remote : Address) (pair : Option KeyPair)
  /-- A look at the timeouts. -/
  | tick
  /-- A look at the link and at a socket in which datagrams wait. -/
  | look (inbox : List Arrival)
  /-- The datagram of a call to send is made. -/
  | prepare (message : OutgoingMessage) (remote : Address)
  | finish (posting : Posting)
  /-- All parts of a call to send. -/
  | carryOut (message : OutgoingMessage)

/-- What a client is set up with, what it did, and its buffers. -/
structure Ledger where
  setup : Setup
  journal : List Effect
  pool : Pool

namespace Client

def ledger (c : Client) : Ledger where
  setup := c.setup
  journal := c.journal
  pool := c.pool

/-- The client with a socket in which datagrams wait. -/
def facing (c : Client) (inbox : List Arrival) : Client :=
  { c with socket := some ⟨inbox⟩ }

end Client

/-- What a doing makes of a client, as far as its ledger goes. -/
def Doing.apply (net : Network) (c : Client) : Doing → Client
  | .nothing | .enter => c
  | .clear => c.count .connectAttempt
  | .openSocket attempt =>
      match c.openSocket net attempt.host attempt.port with
      | (.error _, c) => c.failAttempt attempt.generation
      | (.ok _, c) => c
  | .request attempt remote pair =>
      match c.sendRequest net remote pair with
      | (.error _, c) => c.failAttempt attempt.generation
      | (.ok (), c) => c
  | .tick => c.retryTick.2
  | .look inbox => ((c.facing inbox).poll net).2
  | .prepare message remote => (c.prepare remote message).2
  | .finish posting => (c.finishSending net posting).2
  | .carryOut message => (c.carryOut net message).2

section CallParts

/-- What a part of a call is. -/
def Call.doing (x : Station) : Call → Doing
  | .begin _ _ isRetry => if x.client.link.mayBegin isRetry then .enter else .nothing
  | .stopWorkers _ stopping =>
      match (stopping.advance x.crew).1 with
      | some _ => .nothing
      | none => .clear
  | .openSocket attempt => .openSocket attempt
  | .sendRequest attempt remote pair => .request attempt remote pair
  | .keepRetryWorker _ | .keepPollWorker _ | .overtake | .stopBothWorkers _ => .nothing

theorem ledger_of_publish {c published : Client} {generation : Nat} {remote : Address}
    {pair : Option KeyPair} (h : c.publish generation remote pair = some published) :
    published.ledger = c.ledger := by
  simp only [Client.publish] at h
  split at h
  · cases h
    rfl
  · cases h

theorem Call.ledger_advance (net : Network) (x : Station) (call : Call) :
    (call.advance net x).2.client.ledger = ((call.doing x).apply net x.client).ledger := by
  cases call with
  | begin host port isRetry =>
      simp only [advance, doing]
      split
      · rfl
      · rfl
  | stopWorkers attempt stopping =>
      simp only [advance, doing]
      rcases stopping.advance x.crew with ⟨_ | next, crew⟩
      · rfl
      · rfl
  | openSocket attempt =>
      simp only [advance, doing, Doing.apply]
      rcases x.client.openSocket net attempt.host attempt.port with ⟨failure | found, client⟩
      · rfl
      · rfl
  | sendRequest attempt remote pair =>
      simp only [advance, doing, Doing.apply]
      rcases x.client.sendRequest net remote pair with ⟨failure | ⟨⟩, client⟩
      · rfl
      · dsimp only
        split
        · rename_i published hpublish
          exact ledger_of_publish hpublish
        · rfl
  | stopBothWorkers stopping =>
      simp only [advance, doing]
      rcases stopping.advance x.crew with ⟨_ | next, crew⟩
      · rfl
      · rfl
  | keepRetryWorker attempt | keepPollWorker attempt | overtake => rfl

end CallParts

namespace SharedClient

/-- What a turn is. -/
def doing (s : SharedClient) : Turn → Doing
  | .connect host port => (Call.begin host port false).doing s.station
  | .reconnect =>
      match s.station.client.takeRetry with
      | (none, _) => .nothing
      | (some (host, port), client) => (Call.begin host port true).doing { s.station with client }
  | .resume index =>
      match s.calls[index]? with
      | some (.paused call) => call.doing s.station
      | _ => .nothing
  | .errand (.send contents) => .carryOut (.data contents)
  | .errand (.sendAck sequence) => .carryOut (.ack sequence)
  | .retryTurn generation => if s.station.crew.runs ⟨.retry, generation⟩ then .tick else .nothing
  | .pollTurn generation =>
      match s.station.crew.find? ⟨.poll, generation⟩ with
      | some worker => .look (if worker.isCancelled then [] else worker.inbox)
      | none => .nothing
  | .disconnect | .errand _ | .deliver .. | .leave _ => .nothing

theorem ledger_call (net : Network) (s : SharedClient) (call : Call) :
    (s.call net call).station.client.ledger =
      ((call.doing s.station).apply net s.station.client).ledger := by
  have hlast : (s.make call).calls[s.calls.length]? = some (.paused call) := by
    simp [make]
  simp only [SharedClient.call, resume, hlast]
  exact call.ledger_advance net s.station

theorem ledger_reconnect (net : Network) (s : SharedClient) :
    (s.reconnect net).station.client.ledger =
      ((s.doing .reconnect).apply net s.station.client).ledger := by
  have htaken : s.station.client.takeRetry.2.ledger = s.station.client.ledger := by
    simp only [Client.takeRetry]
    split
    · rfl
    · rfl
  simp only [reconnect, doing]
  generalize s.station.client.takeRetry = taken at htaken ⊢
  obtain ⟨_ | ⟨host, port⟩, client⟩ := taken
  · exact htaken
  · refine (ledger_call net (s.update { s.station with client }) _).trans ?_
    by_cases hmay : client.link.mayBegin true = true
    · simp only [Call.doing, update, hmay, if_true]
      exact htaken
    · simp only [Call.doing, update, hmay]
      exact htaken

theorem ledger_resume (net : Network) (s : SharedClient) (index : Nat) :
    (s.resume net index).station.client.ledger =
      ((s.doing (.resume index)).apply net s.station.client).ledger := by
  simp only [resume, doing]
  rcases s.calls[index]? with _ | call | result
  · rfl
  · exact call.ledger_advance net s.station
  · rfl

theorem ledger_errand (net : Network) (s : SharedClient) (errand : Errand) :
    (s.station.client.act net errand.action).2.ledger =
      ((s.doing (.errand errand)).apply net s.station.client).ledger := by
  cases errand with
  | send contents =>
      exact congrArg (fun outcome => outcome.2.ledger) (Client.carryOut_data contents).symm
  | sendAck sequence =>
      exact congrArg (fun outcome => outcome.2.ledger) (Client.carryOut_ack sequence).symm
  | renewKeys =>
      simp only [Errand.action, Client.act, Client.renewKeys]
      split
      · rfl
      · rfl
  | setConnectTimeout _ | setRetryInterval _ | setRetryEnabled _ | elapse _ => rfl

theorem ledger_retryTurn (s : SharedClient) (net : Network) (generation : Nat) :
    (s.station.retryTurn generation).client.ledger =
      ((s.doing (.retryTurn generation)).apply net s.station.client).ledger := by
  simp only [Station.retryTurn, doing]
  split
  · rcases hturn : s.station.client.retryTick with ⟨_ | _ | _, client⟩
    · simp only [Doing.apply, hturn]
    · simp only [Doing.apply, hturn]
      rfl
    · simp only [Doing.apply, hturn]
  · rfl

theorem ledger_pollTurn (net : Network) (s : SharedClient) (generation : Nat) :
    (s.station.pollTurn net generation).client.ledger =
      ((s.doing (.pollTurn generation)).apply net s.station.client).ledger := by
  simp only [Station.pollTurn, doing]
  cases s.station.crew.find? ⟨.poll, generation⟩ with
  | none => rfl
  | some worker =>
      have hfacing : s.station.seenBy worker =
          s.station.client.facing (if worker.isCancelled then [] else worker.inbox) := rfl
      rcases hpoll : (s.station.seenBy worker).poll net with ⟨_ | _, seen⟩
      · simp only [Doing.apply, ← hfacing, hpoll]
        rfl
      · simp only [Doing.apply, ← hfacing, hpoll]
        rfl

/-- A turn makes of the ledger what its doing makes of it. -/
theorem ledger_take (net : Network) (s : SharedClient) (turn : Turn) :
    (s.take net turn).station.client.ledger =
      ((s.doing turn).apply net s.station.client).ledger := by
  cases turn with
  | connect host port => exact ledger_call net s _
  | disconnect => exact ledger_call net s .overtake
  | reconnect => exact ledger_reconnect net s
  | resume index => exact ledger_resume net s index
  | errand errand => exact ledger_errand net s errand
  | retryTurn generation => exact ledger_retryTurn s net generation
  | pollTurn generation => exact ledger_pollTurn net s generation
  | deliver generation arrival | leave badge => rfl

end SharedClient

section Moves

/-- The ledger after two threads have exchanged their stacks. -/
def Ledger.exchange (l : Ledger) (t : Thread) : Ledger :=
  { l with pool := l.pool.exchange Client.thread t }

/-- A doing, and what it finds. -/
structure Scene where
  net : Network
  thread : Thread
  client : Client
  doing : Doing

namespace Scene

/-- The client after the doing, as far as its ledger goes. -/
def after (scene : Scene) : Client :=
  scene.doing.apply scene.net scene.client

end Scene

/-- What the next part of a call to send is.  A look leaves everything as it is. -/
def SendingProgress.doing : SendingProgress → Doing
  | .routed message remote => .prepare message remote
  | .waiting posting => .finish posting
  | .connected _ | .addressed .. | .returned _ => .nothing

theorem SendingProgress.ledger_advance (net : Network) (c : Client) (sending : SendingProgress) :
    (c.advanceSending net sending).2.ledger = (sending.doing.apply net c).ledger := by
  cases sending with
  | connected contents | addressed message remote | returned result => rfl
  | routed message remote => rfl
  | waiting posting => rfl

namespace ThreadedClient

/-- What a move is. -/
def doing (s : ThreadedClient) : Move → Doing
  | .turn turn => s.shared.doing turn
  | .begin _ => .nothing
  | .goOn index =>
      match s.sendings[index]? with
      | some sending => sending.doing
      | none => .nothing

/-- A move on a thread as a scene. -/
def scene (net : Network) (t : Thread) (s : ThreadedClient) (move : Move) : Scene where
  net
  thread := t
  client := (s.exchange t).client
  doing := (s.exchange t).doing move

/-- The scenes of a run. -/
def scenes (s : ThreadedClient) : List (Network × Thread × Move) → List Scene
  | [] => []
  | (net, t, move) :: rest => s.scene net t move :: (s.actOn net t move).scenes rest

theorem ledger_act (net : Network) (s : ThreadedClient) (move : Move) :
    (s.act net move).client.ledger = ((s.doing move).apply net s.client).ledger := by
  cases move with
  | turn turn => exact SharedClient.ledger_take net s.shared turn
  | begin message => rfl
  | goOn index =>
      simp only [act, doing]
      cases s.sendings[index]? with
      | none => rfl
      | some sending => exact sending.ledger_advance net s.client

end ThreadedClient

end Moves

end GameLink
