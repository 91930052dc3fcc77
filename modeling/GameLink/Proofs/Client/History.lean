import GameLink.Proofs.Client.Deliveries
import GameLink.Proofs.Client.Transitions

/-!
# The history of a client

A run of a client as a list of steps.  A step is what the application can see of it: where
the link stood, what it met, where the link stands then, and the events that were raised.  An
attempt is two steps, a turn of the poll worker has one for each datagram that is handled.

**Results.**
* `events_raise`: what is raised is added at the end.
* `events_openSocket`, `events_reply` and others: what raises nothing.
-/

namespace GameLink

/-- What a link meets in a step. -/
inductive Occasion
  /-- A call to connect, or a retry that was decided on. -/
  | beginning (isRetry : Bool)
  /-- The rest of an attempt: the server is looked up and asked. -/
  | asking
  /-- A call to disconnect. -/
  | ending
  /-- The retry worker looks at the timeout and the pause before a retry. -/
  | timer
  /-- The poll worker finds that the server was silent for too long. -/
  | silence
  /-- A datagram is handled.  The kind is that of the packet in a signed datagram. -/
  | datagram (kind : Option PacketKind)
  | other
deriving DecidableEq, Repr

/-- What the application can see of a step. -/
structure Step where
  before : LinkStatus
  occasion : Occasion
  after : LinkStatus
  raised : List Event
deriving DecidableEq, Repr

/-- Each step begins where the one before it ended. -/
def Linked : LinkStatus → List Step → LinkStatus → Prop
  | status, [], last => last = status
  | status, step :: steps, last => step.before = status ∧ Linked step.after steps last

/-- The kind of the packet in a signed datagram. -/
def signedKind? (bytes : Bytes) : Option PacketKind := do
  let body ← signedBody? bytes
  PacketKind.ofTag? (← body.head?)

namespace Client

/-- The events that a client has raised. -/
def events (c : Client) : List Event :=
  c.journal.filterMap Effect.event?

/-- The kind of the packet in a datagram that is handled as a signed one. -/
def Handling.kind? (h : Handling) : Option PacketKind :=
  match h.client.secureHeader? h.datagram, bareCookie? h.datagram with
  | none, none => signedKind? h.datagram
  | _, _ => none

/-- The step from one client to another. -/
def step (c : Client) (occasion : Occasion) (c' : Client) : Step where
  before := c.link.status
  occasion
  after := c'.link.status
  raised := c'.events.drop c.events.length

/-- The steps of an attempt, none if it may not begin. -/
def attemptSteps (net : Network) (c : Client) (host : String) (port : UInt16)
    (isRetry : Bool) : List Step :=
  if c.link.mayBegin isRetry then
    let started := c.beginAttempt host port isRetry
    [c.step (.beginning isRetry) started,
      started.step .asking (c.attempt net host port isRetry).2]
  else
    []

/-- The steps of a burst of datagrams. -/
def burstSteps (net : Network) (remote : Address) : List Arrival → Client → List Step
  | [], _ => []
  | arrival :: rest, c =>
      let c := c.withInbox rest
      if arrival.sender = remote then
        let c := c.count (.received arrival.datagram.length)
        if arrival.datagram = [] then
          burstSteps net remote rest c
        else
          let outcome := c.handleDatagram net remote arrival.datagram
          c.step (.datagram (Handling.kind? ⟨c, arrival.datagram⟩)) outcome.2 ::
            match outcome with
            | (.stop, _) => []
            | (.goOn, c) => burstSteps net remote rest c
      else
        burstSteps net remote rest c

def readSteps (net : Network) (c : Client) : List Step :=
  match c.link.remote, c.socket with
  | some remote, some socket => burstSteps net remote socket.inbox c
  | _, _ => []

/-- The steps of a look at the link and the socket. -/
def lookSteps (net : Network) (c : Client) : List Step :=
  match c.link.status with
  | .connected =>
      let silence := c.link.lastActivity.since c.now
      if c.setup.settings.client.keepaliveTimeout < silence then
        [c.step .silence (c.poll net).2]
      else
        c.readSteps net
  | .connecting => c.readSteps net
  | .connectionFailed | .disconnected => []

def pollSteps (net : Network) (c : Client) : List Step :=
  match c.workers.poll with
  | none => []
  | some _ => c.lookSteps net

def reconnectSteps (net : Network) (c : Client) : List Step :=
  match c.takeRetry with
  | (none, _) => []
  | (some (host, port), c) => attemptSteps net c host port true

def actSteps (net : Network) (c : Client) : Action → List Step
  | .connect host port => c.attemptSteps net host port false
  | .connectConfigured =>
      c.attemptSteps net c.setup.settings.client.serverAddress
        c.setup.settings.client.serverPort false
  | .disconnect => [c.step .ending c.disconnect]
  | .retryTurn => [c.step .timer c.retryTurn]
  | .reconnect => c.reconnectSteps net
  | .pollTurn => c.pollSteps net
  | action => [c.step .other (c.act net action).2]

/-- The steps of a run. -/
def history (c : Client) : List (Network × Action) → List Step
  | [] => []
  | (net, action) :: rest =>
      c.actSteps net action ++ (c.act net action).2.history rest

section Silence

variable {c c' : Client}

@[simp] theorem events_raise (c : Client) (event : Event) :
    (c.raise event).events = c.events ++ [event] := by
  simp [events, raise, note, Effect.event?]

@[simp] theorem events_count (c : Client) (tally : Tally) : (c.count tally).events = c.events := by
  simp [events, count, note, Effect.event?]

@[simp] theorem events_countAll (c : Client) (tallies : List Tally) :
    (c.countAll tallies).events = c.events := by
  induction tallies generalizing c with
  | nil => rfl
  | cons tally rest ih => exact (ih (c.count tally)).trans (events_count c tally)

@[simp] theorem events_noteSent (c : Client) (peer : Address) (datagram : Bytes) :
    (c.noteSent peer datagram).events = c.events := by
  simp [events, noteSent, count, note, Effect.event?]

@[simp] theorem events_recycle (c : Client) (b : Buffer) : (c.recycle b).events = c.events := by
  rfl

@[simp] theorem events_signed (c : Client) (bytes : Bytes) :
    (c.signed bytes).2.events = c.events := by
  simp only [signed]
  cases c.checkSize (bytes.length + Buffer.signatureSize) with
  | error failure => rfl
  | ok _ =>
      dsimp only
      split
      · rfl
      · rfl

@[simp] theorem events_sealOutbound (c : Client) (bytes : Bytes) :
    (c.sealOutbound bytes).2.events = c.events := by
  unfold sealOutbound
  split
  · dsimp only
    split
    · rfl
    · rw [events_countAll]
      rfl
  · rfl

@[simp] theorem events_reply
    (net : Network) (c : Client) (remote : Address) (packet : Packet) :
    (c.reply net remote packet).events = c.events := by
  simp only [reply]
  split
  · exact events_noteSent _ _ _
  · rfl

@[simp] theorem events_answerCookie
    (net : Network) (c : Client) (remote : Address) (cookie : Octets cookieSize) :
    (c.answerCookie net remote cookie).events = c.events := by
  unfold answerCookie
  split
  · split
    · rfl
    · dsimp only
      split
      · exact events_noteSent _ _ _
      · rfl
  · rfl

@[simp] theorem events_loadedBuffer (c : Client) (bytes : Bytes) :
    (c.loadedBuffer bytes).2.events = c.events := by
  simp only [loadedBuffer]
  split
  · rfl
  · rfl

@[simp] theorem events_openSocket
    (net : Network) (c : Client) (host : String) (port : UInt16) :
    (c.openSocket net host port).2.events = c.events := by
  simp only [openSocket]
  split
  · rfl
  · split
    · simp only [drawKeyPair]
      split
      · rfl
      · rfl
    · rfl

@[simp] theorem events_sendRequest
    (net : Network) (c : Client) (remote : Address) (pair : Option KeyPair) :
    (c.sendRequest net remote pair).2.events = c.events := by
  simp only [sendRequest]
  split
  · exact events_noteSent _ _ _
  · rfl

@[simp] theorem events_renewKeys (c : Client) : c.renewKeys.2.events = c.events := by
  simp only [renewKeys]
  split
  · rfl
  · rfl

@[simp] theorem events_beginAttempt
    (c : Client) (host : String) (port : UInt16) (isRetry : Bool) :
    (c.beginAttempt host port isRetry).events = c.events := by
  exact events_count _ .connectAttempt

@[simp] theorem events_takeRetry (c : Client) : c.takeRetry.2.events = c.events := by
  simp only [takeRetry]
  split
  · rfl
  · rfl

end Silence

section Showing

variable {c c' : Client}

/-- From one client to the next the link comes to a state and some events are raised. -/
structure Shows (c : Client) (status : LinkStatus) (raised : List Event) (c' : Client) :
    Prop where
  status : c'.link.status = status
  events : c'.events = c.events ++ raised

namespace Shows

variable {c'' : Client} {status : LinkStatus} {raised : List Event}

theorem of_standing (hstanding : c'.standing = c.standing) (hevents : c'.events = c.events) :
    Shows c c.link.status [] c' where
  status := congrArg Standing.status hstanding
  events := by rw [hevents, List.append_nil]

theorem raise {event : Event} (hstatus : c'.link.status = status) (hevents : c'.events = c.events) :
    Shows c status [event] (c'.raise event) where
  status := hstatus
  events := by rw [events_raise, hevents]

/-- What shows nothing may be put at the end. -/
theorem then_same (h : Shows c status raised c') (hstatus : c''.link.status = c'.link.status)
    (hevents : c''.events = c'.events) :
    Shows c status raised c'' where
  status := hstatus.trans h.status
  events := hevents.trans h.events

/-- A buffer that goes back to the pool shows nothing. -/
theorem recycle (h : Shows c status raised c') (b : Buffer) :
    Shows c status raised (c'.recycle b) :=
  h.then_same (congrArg Standing.status (standing_recycle c' b)) (events_recycle c' b)

/-- What shows nothing may be put at the start. -/
theorem after_same (h : Shows c' status raised c'') (hevents : c'.events = c.events) :
    Shows c status raised c'' where
  status := h.status
  events := by rw [h.events, hevents]

theorem step_eq (h : Shows c status raised c') (occasion : Occasion) :
    c.step occasion c' = ⟨c.link.status, occasion, status, raised⟩ := by
  rw [step, h.status, h.events, List.drop_left]

end Shows

theorem shows_failAttempt (c : Client) :
    Shows c .connectionFailed [.connectionError] (c.failAttempt c.link.generation) := by
  simp only [failAttempt, if_true]
  exact .raise rfl (events_count _ _)

/-- Sending shows nothing but that a datagram was not taken. -/
theorem shows_transmit (net : Network) (c : Client) (remote : Address) (datagram : Bytes) :
    ∃ raised, Shows c c.link.status raised (c.transmit net remote datagram).2 ∧
      (raised = [] ∨ raised = [.connectionError]) := by
  simp only [transmit]
  split
  · exact ⟨_, .of_standing rfl (events_noteSent _ _ _), Or.inl rfl⟩
  · exact ⟨_, .raise rfl (events_count _ _), Or.inr rfl⟩

theorem shows_send (net : Network) (c : Client) (bytes : Bytes) :
    ∃ raised, Shows c c.link.status raised (c.send net bytes).2 ∧
      (raised = [] ∨ raised = [.connectionError]) := by
  have hnone : ∃ raised, Shows c c.link.status raised c ∧
      (raised = [] ∨ raised = [Event.connectionError]) :=
    ⟨_, .of_standing rfl rfl, Or.inl rfl⟩
  simp only [send]
  split
  · exact hnone
  · cases c.route with
    | none => exact hnone
    | some remote =>
        have hstanding := standing_sealOutbound c bytes
        have hevents := events_sealOutbound c bytes
        dsimp only
        generalize c.sealOutbound bytes = outcome at hstanding hevents ⊢
        have hstatus : outcome.2.link.status = c.link.status :=
          congrArg Standing.status hstanding
        rcases outcome with ⟨failure | _ | datagram, after⟩
        · exact ⟨_, .of_standing hstanding hevents, Or.inl rfl⟩
        · have hsigned := standing_signed after bytes
          have hsignedEvents := events_signed after bytes
          dsimp only
          generalize after.signed bytes = signing at hsigned hsignedEvents ⊢
          have hsignedStatus : signing.2.link.status = after.link.status :=
            congrArg Standing.status hsigned
          rcases signing with ⟨failure | b, last⟩
          · exact ⟨_, .of_standing (hsigned.trans hstanding) (hsignedEvents.trans hevents),
              Or.inl rfl⟩
          · obtain ⟨raised, hshows, hraised⟩ := shows_transmit net last remote b.contents
            rw [hsignedStatus.trans hstatus] at hshows
            have hsame := hshows.after_same (hsignedEvents.trans hevents)
            exact ⟨raised, hsame.recycle b, hraised⟩
        · obtain ⟨raised, hshows, hraised⟩ := shows_transmit net after remote datagram
          rw [hstatus] at hshows
          exact ⟨raised, hshows.after_same hevents, hraised⟩

theorem shows_sendAck (net : Network) (c : Client) (sequence : UInt16) :
    ∃ raised, Shows c c.link.status raised (c.sendAck net sequence).2 ∧
      (raised = [] ∨ raised = [.connectionError]) := by
  simp only [sendAck]
  cases c.route with
  | none => exact ⟨_, .of_standing rfl rfl, Or.inl rfl⟩
  | some remote =>
      have hstatus : ({ c with pool := (c.pool.acquire thread).2 } : Client).link.status =
          c.link.status := rfl
      have hevents : ({ c with pool := (c.pool.acquire thread).2 } : Client).events =
          c.events := rfl
      dsimp only
      generalize ((Packet.ack sequence).encode (c.pool.acquire thread).1).sign = b
      generalize ({ c with pool := (c.pool.acquire thread).2 } : Client) = pooled
        at hstatus hevents ⊢
      obtain ⟨raised, hshows, hraised⟩ := shows_transmit net pooled remote b.contents
      rw [hstatus] at hshows
      exact ⟨raised, (hshows.after_same hevents).recycle b, hraised⟩

end Showing

end Client
end GameLink
