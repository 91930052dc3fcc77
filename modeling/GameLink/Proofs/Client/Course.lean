import GameLink.Client.Run

/-!
# What changes a link

A client's link, whether it has a socket, its workers and its clock.  Few steps change any of
them, and each does so in few ways.

**Results.**
* `course_send`, `course_sendAck`, `course_renewKeys`: calls that leave them as they are.
* `hears_handleDatagram`: all that a datagram can do to a link.
* `looks_retryTick`, `ticks_retryTurn`: all that a look at the timeouts, and a turn of the retry
  worker, can do.
-/

namespace GameLink

/-- The link of a client, whether it has a socket, its workers and its clock. -/
structure Course where
  link : Link
  hasSocket : Bool
  workers : Workers
  now : Moment

namespace Client

def course (c : Client) : Course where
  link := c.link
  hasSocket := c.socket.isSome
  workers := c.workers
  now := c.now

variable {c c' c'' : Client}

theorem link_of_course (h : c'.course = c.course) : c'.link = c.link :=
  congrArg Course.link h

section ApplicationCalls

@[simp] theorem course_countAll (c : Client) (tallies : List Tally) :
    (c.countAll tallies).course = c.course := by
  induction tallies generalizing c with
  | nil => rfl
  | cons tally rest ih => exact ih (c.count tally)

@[simp] theorem course_recycle (c : Client) (b : Buffer) : (c.recycle b).course = c.course := by
  rfl

@[simp] theorem course_withInbox (c : Client) (inbox : List Arrival) :
    (c.withInbox inbox).course = c.course := by
  simp [withInbox, course]

@[simp] theorem course_renewKeys (c : Client) : c.renewKeys.2.course = c.course := by
  simp only [renewKeys]
  cases c.session with
  | none => rfl
  | some s => rfl

@[simp] theorem course_transmit (net : Network) (c : Client) (remote : Address)
    (datagram : Bytes) : (c.transmit net remote datagram).2.course = c.course := by
  simp only [transmit]
  split
  · rfl
  · rfl

@[simp] theorem course_signed (c : Client) (bytes : Bytes) :
    (c.signed bytes).2.course = c.course := by
  simp only [signed]
  cases c.checkSize (bytes.length + Buffer.signatureSize) with
  | error failure => rfl
  | ok _ =>
      dsimp only
      split
      · rfl
      · rfl

@[simp] theorem course_sealOutbound (c : Client) (bytes : Bytes) :
    (c.sealOutbound bytes).2.course = c.course := by
  unfold sealOutbound
  split
  · dsimp only
    split
    · rfl
    · exact course_countAll _ _
  · rfl

@[simp] theorem course_send (net : Network) (c : Client) (bytes : Bytes) :
    (c.send net bytes).2.course = c.course := by
  simp only [send]
  split
  · rfl
  · cases c.route with
    | none => rfl
    | some remote =>
        have hsealed := course_sealOutbound c bytes
        dsimp only
        generalize c.sealOutbound bytes = outcome at hsealed ⊢
        rcases outcome with ⟨failure | _ | datagram, after⟩
        · exact hsealed
        · have hsigned := course_signed after bytes
          dsimp only
          generalize after.signed bytes = signing at hsigned ⊢
          rcases signing with ⟨failure | b, last⟩
          · exact hsigned.trans hsealed
          · rw [course_recycle, course_transmit]
            exact hsigned.trans hsealed
        · rw [course_transmit]
          exact hsealed

@[simp] theorem course_sendAck (net : Network) (c : Client) (sequence : UInt16) :
    (c.sendAck net sequence).2.course = c.course := by
  simp only [sendAck]
  cases c.route with
  | none => rfl
  | some remote =>
      dsimp only
      rw [course_recycle, course_transmit]
      rfl

end ApplicationCalls

section Datagrams

@[simp] theorem course_reply (net : Network) (c : Client) (remote : Address) (packet : Packet) :
    (c.reply net remote packet).course = c.course := by
  simp only [reply]
  split
  · rfl
  · rfl

@[simp] theorem course_loadedBuffer (c : Client) (bytes : Bytes) :
    (c.loadedBuffer bytes).2.course = c.course := by
  simp only [loadedBuffer]
  split
  · rfl
  · rfl

end Datagrams

end Client

/-- All that a datagram can do to a link at a moment. -/
inductive Link.Hears (now : Moment) (l : Link) : Link → Prop
  | heard (lastActivity : Moment) : Hears now l { l with lastActivity }
  | cookie (lastActivity : Moment) (hwaiting : l.status = .connecting)
      (hfirst : l.cookieAnswered = false) :
      Hears now l { l with lastActivity, cookieAnswered := true }
  /-- An attempt gets its answer. -/
  | settled (lastActivity : Moment) (hwaiting : l.status = .connecting) {status : LinkStatus}
      (hstatus : status = .connected ∨ status = .connectionFailed) (clientId : Option UInt32)
      (keyPair : Option KeyPair) :
      Hears now l { l.enter status now with clientId, keyPair, lastActivity }
  | dropped (lastActivity : Moment) : Hears now l { l.drop now with lastActivity }

namespace Client

variable {c c' c'' : Client}

/-- All that a datagram can do to a client, but for its session, its buffers and its journal. -/
structure Hears (c c' : Client) : Prop where
  link : c.link.Hears c.now c'.link
  workers : c'.workers = c.workers
  now : c'.now = c.now

namespace Hears

theorem of_course (h : c'.course = c.course) : Hears c c' where
  link := by
    rw [link_of_course h]
    exact .heard c.link.lastActivity
  workers := congrArg Course.workers h
  now := congrArg Course.now h

theorem after_course (h : Hears c' c'') (hcourse : c'.course = c.course) : Hears c c'' where
  link := by
    have hlink := h.link
    rwa [link_of_course hcourse, show c'.now = c.now from congrArg Course.now hcourse] at hlink
  workers := h.workers.trans (congrArg Course.workers hcourse)
  now := h.now.trans (congrArg Course.now hcourse)

/-- That the peer was heard before changes nothing else. -/
theorem after_heard (h : Hears c.heard c') : Hears c c' where
  link := by
    have hlink := h.link
    generalize c'.link = link at hlink ⊢
    cases hlink with
    | heard lastActivity => exact .heard lastActivity
    | cookie lastActivity hwaiting hfirst => exact .cookie lastActivity hwaiting hfirst
    | settled lastActivity hwaiting hstatus clientId keyPair =>
        exact @Link.Hears.settled c.now c.link lastActivity hwaiting _ hstatus clientId keyPair
    | dropped lastActivity => exact .dropped lastActivity
  workers := h.workers
  now := h.now

end Hears

theorem hears_openSecure (c : Client) (s : Session) (header : Header) (bytes : Bytes) :
    Hears c (c.openSecure s header bytes) := by
  simp only [openSecure]
  split
  · exact ⟨.heard c.now, rfl, rfl⟩
  · exact .of_course (course_countAll _ _)

theorem hears_answerCookie (net : Network) (c : Client) (remote : Address)
    (cookie : Octets cookieSize) : Hears c (c.answerCookie net remote cookie) := by
  unfold answerCookie
  split
  · rename_i hopen
    have hfirst : c.link.cookieAnswered = false := by simpa using hopen.2
    cases c.link.keyPair with
    | none => exact .of_course rfl
    | some pair =>
        dsimp only
        split
        · exact ⟨.cookie c.link.lastActivity hopen.1 hfirst, rfl, rfl⟩
        · exact ⟨.cookie c.link.lastActivity hopen.1 hfirst, rfl, rfl⟩
  · exact .of_course rfl

theorem hears_accept (c : Client) (a : Acceptance) : Hears c (c.accept a) := by
  unfold accept
  split
  · rename_i hwaiting
    have hup := @Link.Hears.settled c.now c.link c.now hwaiting _ (Or.inl rfl) a.clientId none
    dsimp only
    cases c.link.keyPair with
    | none => exact ⟨hup, rfl, rfl⟩
    | some pair =>
        dsimp only
        split
        · rw [failAttempt, if_pos rfl]
          exact ⟨.settled c.link.lastActivity hwaiting (Or.inr rfl) c.link.clientId none, rfl, rfl⟩
        · exact ⟨hup, rfl, rfl⟩
  · exact .of_course rfl

theorem hears_handlePacket (net : Network) (c : Client) (remote : Address) (b : Buffer)
    (packet : Packet) : Hears c (c.handlePacket net remote b packet).2 := by
  cases packet with
  | ping timestamp => exact .of_course (course_reply ..)
  | connectionAccepted a => exact hears_accept c a
  | cookie cookie => exact hears_answerCookie net c remote cookie
  | connectionDenied =>
      simp only [handlePacket]
      split
      · rename_i hwaiting
        exact ⟨.settled c.link.lastActivity hwaiting (Or.inr rfl) c.link.clientId c.link.keyPair,
          rfl, rfl⟩
      · exact .of_course rfl
  | disconnect => exact ⟨.dropped c.link.lastActivity, rfl, rfl⟩
  | checkIntegrity index =>
      simp only [handlePacket]
      split
      · exact .of_course (course_reply ..)
      · exact .of_course rfl
  | reliable | unreliable | pong _ | ack _ | connect _ _ | error => exact .of_course rfl

theorem hears_handlePlain (net : Network) (c : Client) (remote : Address) (b : Buffer) :
    Hears c (c.handlePlain net remote b).2 := by
  simp only [handlePlain]
  split
  · exact .of_course rfl
  · split
    · exact .of_course rfl
    · exact (hears_handlePacket net c.heard remote _ _).after_heard

/-- All that a datagram can do. -/
theorem hears_handleDatagram (net : Network) (c : Client) (remote : Address) (bytes : Bytes) :
    Hears c (c.handleDatagram net remote bytes).2 := by
  simp only [handleDatagram]
  split
  · exact hears_openSecure c _ _ bytes
  · split
    · exact hears_answerCookie net c remote _
    · have hplain := (hears_handlePlain net (c.loadedBuffer bytes).2 remote
        (c.loadedBuffer bytes).1).after_course (course_loadedBuffer c bytes)
      exact ⟨hplain.link, hplain.workers, hplain.now⟩

section RetryTurns

/-- All that a look at the timeouts can do. -/
inductive Looks (c : Client) : RetryAction × Client → Prop
  /-- It is too early for anything. -/
  | waited (hopen : c.link.status = .connecting ∨ c.link.status = .connectionFailed)
      (hearly : c.link.status = .connecting →
        c.link.phaseStarted.since c.now < c.link.connectTimeout) :
      Looks c (.wait, c)
  | timedOut (hwaiting : c.link.status = .connecting)
      (hlate : c.link.connectTimeout ≤ c.link.phaseStarted.since c.now) :
      Looks c (.wait, (({ c with link := c.link.enter .connectionFailed c.now }).count
        .connectionError).raise .connectionError)
  /-- A retry is decided on. -/
  | decided (hfailed : c.link.status = .connectionFailed) (henabled : c.link.retryEnabled = true)
      (hlate : c.link.retryInterval ≤ c.link.phaseStarted.since c.now) :
      Looks c (.reconnect,
        { c with
          link := { c.link with retryCount := c.link.retryCount + 1, phaseStarted := c.now } })
  | stopped (hsettled : c.link.status = .connected ∨ c.link.status = .disconnected) :
      Looks c (.stop, c)

theorem looks_retryTick (c : Client) : Looks c c.retryTick := by
  cases hstatus : c.link.status with
  | connecting =>
      simp only [retryTick, hstatus]
      split
      · rename_i hearly
        exact .waited (Or.inl hstatus) fun _ => hearly
      · rename_i hlate
        exact .timedOut hstatus (Nat.le_of_not_lt hlate)
  | connectionFailed =>
      simp only [retryTick, hstatus]
      split
      · exact .waited (Or.inr hstatus) fun hwaiting => by cases hstatus.symm.trans hwaiting
      · rename_i hdue
        simp only [not_or] at hdue
        obtain ⟨henabled, -, hlate⟩ := hdue
        rw [← hstatus]
        exact .decided hstatus (by simpa using henabled) (Nat.le_of_not_lt hlate)
  | connected =>
      simp only [retryTick, hstatus]
      exact .stopped (Or.inl hstatus)
  | disconnected =>
      simp only [retryTick, hstatus]
      exact .stopped (Or.inr hstatus)

/-- All that a turn of the retry worker can do. -/
inductive Ticks (c : Client) : Client → Prop
  | resting (hretry : c.workers.retry = none) : Ticks c c
  | waited (hopen : c.link.status = .connecting ∨ c.link.status = .connectionFailed)
      (hearly : c.link.status = .connecting →
        c.link.phaseStarted.since c.now < c.link.connectTimeout) :
      Ticks c c.startRetryWorker
  | timedOut (hwaiting : c.link.status = .connecting)
      (hlate : c.link.connectTimeout ≤ c.link.phaseStarted.since c.now) :
      Ticks c ((({ c with link := c.link.enter .connectionFailed c.now }).count
        .connectionError).raise .connectionError).startRetryWorker
  | decided (hfailed : c.link.status = .connectionFailed) (henabled : c.link.retryEnabled = true)
      (hlate : c.link.retryInterval ≤ c.link.phaseStarted.since c.now) :
      Ticks c
        { c with
          link := { c.link with retryCount := c.link.retryCount + 1, phaseStarted := c.now }
          workers :=
            { c.workers with retry := none, reconnects := c.workers.reconnects + 1 } }
  | stopped (hsettled : c.link.status = .connected ∨ c.link.status = .disconnected) :
      Ticks c { c with workers := { c.workers with retry := none } }

theorem ticks_retryTurn (c : Client) : Ticks c c.retryTurn := by
  rw [retryTurn]
  cases hretry : c.workers.retry with
  | none => exact .resting hretry
  | some next =>
      have hlooks := looks_retryTick c
      generalize c.retryTick = outcome at hlooks ⊢
      cases hlooks with
      | waited hopen hearly => exact .waited hopen hearly
      | timedOut hwaiting hlate => exact .timedOut hwaiting hlate
      | decided hfailed henabled hlate => exact .decided hfailed henabled hlate
      | stopped hsettled => exact .stopped hsettled

end RetryTurns

end Client
end GameLink
