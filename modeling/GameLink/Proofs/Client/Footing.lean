import GameLink.Proofs.Client.Standing
import GameLink.Proofs.Client.Course
import GameLink.Client.Shared

/-!
# What a worker's turn can do to a link

The part of a client that decides which workers it needs: the state and the generation of its
link, where its attempt goes, whether it has a socket, and the retries that were decided on.

**Results.**
* `footing_errand`: sending, acknowledging, renewing keys, settings and time leave it as it is.
* `retryTurned`: all that a turn of a retry worker can do.
* `sways_handleDatagram`, `glances_poll`: all that a datagram, and a turn of a poll worker, can do.
-/

namespace GameLink

/-- What decides which workers a client needs. -/
structure Footing where
  status : LinkStatus
  generation : Nat
  target : Option (String × UInt16)
  remote : Option Address
  hasSocket : Bool
  reconnects : Nat

namespace Client

variable {net : Network} {c : Client}

def footing (c : Client) : Footing where
  status := c.link.status
  generation := c.link.generation
  target := c.link.target
  remote := c.link.remote
  hasSocket := c.socket.isSome
  reconnects := c.workers.reconnects

variable {c' : Client}

theorem footing_of_course (h : c'.course = c.course) : c'.footing = c.footing := by
  have hlink : c'.link = c.link := link_of_course h
  have hsocket : c'.socket.isSome = c.socket.isSome := congrArg Course.hasSocket h
  have hworkers : c'.workers = c.workers := congrArg Course.workers h
  simp only [footing, hlink, hsocket, hworkers]

/-- An errand leaves the footing as it is. -/
theorem footing_errand (net : Network) (c : Client) (errand : Errand) :
    (c.act net errand.action).2.footing = c.footing := by
  cases errand with
  | send contents => exact footing_of_course (course_send net c contents)
  | sendAck sequence => exact footing_of_course (course_sendAck net c sequence)
  | renewKeys => exact footing_of_course (course_renewKeys c)
  | setConnectTimeout timeout => rfl
  | setRetryInterval interval => rfl
  | setRetryEnabled enabled => rfl
  | elapse time => rfl

section Datagrams

@[simp] theorem footing_answerCookie (net : Network) (c : Client) (remote : Address)
    (cookie : Octets cookieSize) : (c.answerCookie net remote cookie).footing = c.footing := by
  unfold answerCookie
  split
  · split
    · rfl
    · dsimp only
      split
      · rfl
      · rfl
  · rfl

@[simp] theorem footing_openSecure (c : Client) (s : Session) (header : Header) (bytes : Bytes) :
    (c.openSecure s header bytes).footing = c.footing := by
  simp only [openSecure]
  split
  · rfl
  · exact footing_of_course (course_countAll _ _)

/-- From one state of a link to the next while its socket is read: an attempt that waits for its
answer may get one. -/
def Answers (before after : LinkStatus) : Prop :=
  after = before ∨ before = .connecting ∧ (after = .connected ∨ after = .connectionFailed)

theorem Answers.trans {first second third : LinkStatus} (h : Answers first second)
    (h' : Answers second third) : Answers first third := by
  rcases h with rfl | ⟨hfirst, hsecond⟩
  · exact h'
  · rcases h' with rfl | ⟨rfl, -⟩
    · exact Or.inr ⟨hfirst, hsecond⟩
    · simp at hsecond

/-- The link was given up: it is disconnected and of a newer generation. -/
structure Dropped (c c' : Client) : Prop where
  status : c'.link.status = .disconnected
  generation : c.link.generation < c'.link.generation
  socket : c'.socket = none
  reconnects : c'.workers.reconnects = c.workers.reconnects

/-- All that a datagram can do: the link stays up, or goes on waiting, or gets its answer, and the
reading goes on; or the attempt is denied or the link given up, and the reading ends. -/
inductive Sways (c : Client) : Flow × Client → Prop
  | kept {c' : Client} (status : LinkStatus) (hstatus : Answers c.link.status status)
      (hfooting : c'.footing = { c.footing with status }) : Sways c (.goOn, c')
  | denied {c' : Client} (hstatus : c.link.status = .connecting)
      (hfooting : c'.footing = { c.footing with status := .connectionFailed }) :
      Sways c (.stop, c')
  | dropped {c' : Client} (h : Dropped c c') : Sways c (.stop, c')

theorem Sways.of_eq (h : c'.footing = c.footing) : Sways c (.goOn, c') :=
  .kept c.link.status (Or.inl rfl) h

theorem sways_accept (c : Client) (a : Acceptance) : Sways c (.goOn, c.accept a) := by
  unfold accept
  split
  · rename_i hstatus
    dsimp only
    cases c.link.keyPair with
    | none => exact .kept .connected (Or.inr ⟨hstatus, Or.inl rfl⟩) rfl
    | some pair =>
        dsimp only
        split
        · refine .kept .connectionFailed (Or.inr ⟨hstatus, Or.inr rfl⟩) ?_
          simp only [failAttempt, if_true]
          rfl
        · exact .kept .connected (Or.inr ⟨hstatus, Or.inl rfl⟩) rfl
  · exact .of_eq rfl

theorem sways_handlePacket (net : Network) (c : Client) (remote : Address) (b : Buffer)
    (packet : Packet) : Sways c (c.handlePacket net remote b packet) := by
  cases packet with
  | ping timestamp => exact .of_eq (footing_of_course (course_reply ..))
  | pong timestamp => exact .of_eq rfl
  | reliable => exact .of_eq rfl
  | unreliable => exact .of_eq rfl
  | ack sequence => exact .of_eq rfl
  | connect publicKey cookie => exact .of_eq rfl
  | error => exact .of_eq rfl
  | connectionAccepted a => exact sways_accept c a
  | connectionDenied =>
      simp only [handlePacket]
      split
      · rename_i hstatus
        exact .denied hstatus rfl
      · exact .of_eq rfl
  | disconnect => exact .dropped ⟨rfl, Nat.lt_succ_self _, rfl, rfl⟩
  | checkIntegrity index =>
      simp only [handlePacket]
      split
      · exact .of_eq (footing_of_course (course_reply ..))
      · exact .of_eq rfl
  | cookie cookie => exact .of_eq (footing_answerCookie ..)

/-- What is left as it is may be put at the start. -/
theorem Sways.after_same {before : Client} {outcome : Flow × Client} (h : Sways c outcome)
    (hfooting : c.footing = before.footing) : Sways before outcome := by
  have hstatus : c.link.status = before.link.status := congrArg Footing.status hfooting
  have hgeneration : c.link.generation = before.link.generation :=
    congrArg Footing.generation hfooting
  cases h with
  | kept status hanswers hafter =>
      exact .kept status (hstatus ▸ hanswers) (hfooting ▸ hafter)
  | denied hconnecting hafter =>
      exact .denied (hstatus.symm.trans hconnecting) (hfooting ▸ hafter)
  | dropped h =>
      exact .dropped ⟨h.status, hgeneration ▸ h.generation, h.socket,
        h.reconnects.trans (congrArg Footing.reconnects hfooting)⟩

/-- And so may be put at the end what only touches the buffers. -/
theorem Sways.withPool {flow : Flow} (h : Sways c (flow, c')) (pool : Pool) :
    Sways c (flow, { c' with pool }) := by
  cases h with
  | kept status hanswers hafter => exact .kept status hanswers hafter
  | denied hconnecting hafter => exact .denied hconnecting hafter
  | dropped h => exact .dropped ⟨h.status, h.generation, h.socket, h.reconnects⟩

theorem sways_handlePlain (net : Network) (c : Client) (remote : Address) (b : Buffer) :
    Sways c (c.handlePlain net remote b) := by
  simp only [handlePlain]
  split
  · exact .of_eq rfl
  · split
    · exact .of_eq rfl
    · exact (sways_handlePacket net c.heard remote _ _).after_same rfl

theorem sways_handleDatagram (net : Network) (c : Client) (remote : Address) (bytes : Bytes) :
    Sways c (c.handleDatagram net remote bytes) := by
  simp only [handleDatagram]
  split
  · exact .of_eq (footing_openSecure ..)
  · split
    · exact .of_eq (footing_answerCookie ..)
    · exact ((sways_handlePlain net (c.loadedBuffer bytes).2 remote _).after_same
        (footing_of_course (course_loadedBuffer c bytes))).withPool _

end Datagrams

section Bursts

/-- All that a turn of a poll worker can do.  It ends with the reading. -/
inductive Glances (c : Client) : Flow × Client → Prop
  | same {c' : Client} (hfooting : c'.footing = c.footing) : Glances c (.goOn, c')
  | answered {c' : Client} (status : LinkStatus) (hremote : c.link.remote ≠ none)
      (hstatus : Answers c.link.status status)
      (hfooting : c'.footing = { c.footing with status }) : Glances c (.goOn, c')
  | denied {c' : Client} (hremote : c.link.remote ≠ none)
      (hstatus : c.link.status = .connecting)
      (hfooting : c'.footing = { c.footing with status := .connectionFailed }) :
      Glances c (.stop, c')
  | finished {c' : Client} (hstatus : c.link.status = .disconnected)
      (hfooting : c'.footing = c.footing) : Glances c (.stop, c')
  | dropped {c' : Client} (h : Dropped c c') : Glances c (.stop, c')

theorem Sways.glances {outcome : Flow × Client} (h : Sways c outcome)
    (hremote : c.link.remote ≠ none) : Glances c outcome := by
  cases h with
  | kept status hanswers hafter => exact .answered status hremote hanswers hafter
  | denied hconnecting hafter => exact .denied hremote hconnecting hafter
  | dropped h => exact .dropped h

/-- One datagram after the other. -/
theorem Sways.trans {outcome : Flow × Client} (h : Sways c (.goOn, c'))
    (h' : Sways c' outcome) : Sways c outcome := by
  cases h with
  | kept status hanswers hfooting =>
      have hstatus : c'.link.status = status := congrArg Footing.status hfooting
      have hgeneration : c'.link.generation = c.link.generation :=
        congrArg Footing.generation hfooting
      have hreconnects : c'.workers.reconnects = c.workers.reconnects :=
        congrArg Footing.reconnects hfooting
      cases h' with
      | kept last hlast hafter =>
          exact .kept last (hanswers.trans (hstatus ▸ hlast)) (by rw [hafter, hfooting])
      | denied hconnecting hafter =>
          have hbefore : c.link.status = .connecting := by
            rw [hstatus] at hconnecting
            subst hconnecting
            rcases hanswers with hsame | ⟨hbefore, -⟩
            · exact hsame.symm
            · exact hbefore
          exact .denied hbefore (by rw [hafter, hfooting])
      | dropped h =>
          exact .dropped ⟨h.status, hgeneration ▸ h.generation, h.socket,
            h.reconnects.trans hreconnects⟩

theorem sways_drain (net : Network) (remote : Address) (arrivals : List Arrival) (c : Client) :
    Sways c (drain net remote arrivals c) := by
  induction arrivals generalizing c with
  | nil => exact .of_eq rfl
  | cons arrival rest ih =>
      have hwaiting : (c.withInbox rest).footing = c.footing :=
        footing_of_course (course_withInbox c rest)
      rw [drain]
      split
      · have hcounted : ((c.withInbox rest).count (.received arrival.datagram.length)).footing =
            c.footing := hwaiting
        split
        · exact (ih _).after_same hcounted
        · have hdatagram := (sways_handleDatagram net
            ((c.withInbox rest).count (.received arrival.datagram.length)) remote
            arrival.datagram).after_same hcounted
          dsimp only
          split
          · rename_i after heq
            rw [heq] at hdatagram
            exact hdatagram
          · rename_i after heq
            rw [heq] at hdatagram
            exact hdatagram.trans (ih after)
      · exact (ih _).after_same hwaiting

theorem glances_readSocket (net : Network) (c : Client) : Glances c (c.readSocket net) := by
  simp only [readSocket]
  split
  · rename_i remote socket hremote hsocket
    have hdrained := (sways_drain net remote socket.inbox c).glances (by rw [hremote]; simp)
    generalize drain net remote socket.inbox c = outcome at hdrained ⊢
    obtain ⟨flow, after⟩ := outcome
    cases hdrained with
    | same hfooting => exact .same hfooting
    | answered status hremote hstatus hfooting => exact .answered status hremote hstatus hfooting
    | denied hremote hstatus hfooting => exact .denied hremote hstatus hfooting
    | finished hstatus hfooting => exact .finished hstatus hfooting
    | dropped h => exact .dropped ⟨h.status, h.generation, h.socket, h.reconnects⟩
  · exact .same rfl

theorem glances_poll (net : Network) (c : Client) : Glances c (c.poll net) := by
  simp only [poll]
  cases hstatus : c.link.status with
  | connected =>
      dsimp only
      split
      · exact .dropped ⟨rfl, Nat.lt_succ_self _, rfl, rfl⟩
      · exact glances_readSocket net c
  | connecting => exact glances_readSocket net c
  | connectionFailed => exact .same rfl
  | disconnected => exact .finished hstatus rfl

end Bursts

end Client

namespace Station

open Client

variable {x : Station}

/-- All that a turn of a retry worker can do. -/
inductive RetryTurned (x : Station) (generation : Nat) : Station → Prop
  | waited {client : Client} (hfooting : client.footing = x.client.footing) :
      RetryTurned x generation { x with client }
  | timedOut {client : Client} (hstatus : x.client.link.status = .connecting)
      (hfooting : client.footing = { x.client.footing with status := .connectionFailed }) :
      RetryTurned x generation { x with client }
  | decided {client : Client} (hstatus : x.client.link.status = .connectionFailed)
      (hfooting : client.footing =
        { x.client.footing with reconnects := x.client.workers.reconnects + 1 }) :
      RetryTurned x generation { x with client, crew := x.crew.dismiss ⟨.retry, generation⟩ }
  | ended (hstatus : x.client.link.status = .connected ∨ x.client.link.status = .disconnected) :
      RetryTurned x generation { x with crew := x.crew.dismiss ⟨.retry, generation⟩ }

theorem retryTurned (x : Station) (generation : Nat) :
    x.RetryTurned generation (x.retryTurn generation) := by
  simp only [retryTurn]
  split
  · have hlooks := looks_retryTick x.client
    generalize x.client.retryTick = outcome at hlooks ⊢
    cases hlooks with
    | waited => exact .waited rfl
    | timedOut hwaiting => exact .timedOut hwaiting rfl
    | decided hfailed => exact .decided hfailed rfl
    | stopped hsettled => exact .ended hsettled
  · exact .waited rfl

/-- All that a turn of a poll worker can do: the attempt gets its answer, if anything is read at
all, or the link is given up.  Only a worker that is not needed any more ends. -/
inductive PollTurned (x : Station) : Station → Prop
  | kept {client : Client} {crew : Crew} (status : LinkStatus)
      (hstatus : Answers x.client.link.status status)
      (hremote : x.client.link.remote = none → status = x.client.link.status)
      (hfooting : client.footing = { x.client.footing with status })
      (hkept : crew.kept = x.crew.kept)
      (hretry : ∀ generation, crew.isLive ⟨.retry, generation⟩ = x.crew.isLive ⟨.retry, generation⟩)
      (hlive : status = .connecting ∨ status = .connected →
        ∀ badge, crew.isLive badge = x.crew.isLive badge) :
      PollTurned x { x with client, crew }
  | dropped {client : Client} {crew : Crew} (h : Dropped x.client client)
      (hkept : crew.kept = x.crew.kept) : PollTurned x { x with client, crew }

theorem isLive_leave (crew : Crew) (generation other : Nat) :
    (crew.dismiss ⟨.poll, generation⟩).isLive ⟨.retry, other⟩ = crew.isLive ⟨.retry, other⟩ :=
  Crew.isLive_dismiss_of_ne (by simp)

/-- The footing of what a poll worker saw, with the socket of the client in its place. -/
theorem footing_socketAfter {worker : Worker} {seen : Client} {status : LinkStatus}
    (hfooting : seen.footing = { (x.seenBy worker).footing with status }) :
    ({ seen with socket := x.socketAfter seen } : Client).footing =
      { x.client.footing with status } := by
  have hsocket : seen.socket.isSome = true := congrArg Footing.hasSocket hfooting
  have hafter : x.socketAfter seen = x.client.socket := if_pos hsocket
  simp only [footing, seenBy, Footing.mk.injEq] at hfooting ⊢
  rw [hafter]
  exact ⟨hfooting.1, hfooting.2.1, hfooting.2.2.1, hfooting.2.2.2.1, rfl, hfooting.2.2.2.2.2⟩

theorem pollTurned (net : Network) (x : Station) (generation : Nat) :
    x.PollTurned (x.pollTurn net generation) := by
  simp only [pollTurn]
  split
  · exact .kept x.client.link.status (Or.inl rfl) (fun _ => rfl) rfl rfl (fun _ => rfl)
      fun _ _ => rfl
  · rename_i worker _
    have hpoll := glances_poll net (x.seenBy worker)
    have hlive : ∀ (f : List Arrival) (badge : Badge),
        (x.crew.change ⟨.poll, generation⟩ fun w => { w with inbox := f }).isLive badge =
          x.crew.isLive badge :=
      fun f badge => Crew.isLive_change (fun _ => rfl) fun _ => rfl
    generalize (x.seenBy worker).poll net = outcome at hpoll ⊢
    cases hpoll with
    | same hfooting =>
        exact .kept x.client.link.status (Or.inl rfl) (fun _ => rfl) (footing_socketAfter hfooting)
          rfl (fun _ => hlive _ _) fun _ => hlive _
    | answered status hremote hstatus hfooting =>
        exact .kept status hstatus (fun hnone => absurd hnone hremote)
          (footing_socketAfter hfooting) rfl (fun _ => hlive _ _) fun _ => hlive _
    | denied hremote hstatus hfooting =>
        exact .kept .connectionFailed (Or.inr ⟨hstatus, Or.inr rfl⟩)
          (fun hnone => absurd hnone hremote) (footing_socketAfter hfooting) rfl
          (isLive_leave _ _) (by simp)
    | finished hstatus hfooting =>
        have hover : x.client.link.status = .disconnected := hstatus
        exact .kept x.client.link.status (Or.inl rfl) (fun _ => rfl) (footing_socketAfter hfooting)
          rfl (isLive_leave _ _) (by simp [hover])
    | dropped h =>
        refine .dropped ⟨h.status, h.generation, ?_, h.reconnects⟩ rfl
        simp [socketAfter, h.socket]

end Station

end GameLink
