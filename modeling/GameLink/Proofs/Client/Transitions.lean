import GameLink.Proofs.Client.Course
import GameLink.Proofs.Client.Handlings
import GameLink.Proofs.Client.Standing
import Mathlib.Logic.Relation

/-!
# How a client changes its standing

Everything that happens to a client leaves it where it stands or takes it along one of
a few transitions.  A burst of datagrams takes several, one for each datagram.

**Results.**
* `leads_handleDatagram`: a datagram that does not end the reading does not end the link.
* `passes_act`: an action takes a client along transitions, and so does each datagram that
  is handled in it.
* `passes_run`: so does a run.
-/

namespace GameLink
namespace Standing

/-- A transition from one standing to another. -/
inductive Transition (s : Standing) : Standing → Prop
  /-- An attempt begins and fails before its socket is in use. -/
  | attemptFailed
      (hstatus : s.status = .disconnected ∨ s.status = .connectionFailed) :
      Transition s
        { setup := s.setup
          status := .connectionFailed
          remote := none
          clientId := none
          keyPair := none
          hasSocket := false
          sessionId := none }
  /-- An attempt begins and waits for its answer, with keys if the link is to be
  encrypted. -/
  | attemptBegun
      (hstatus : s.status = .disconnected ∨ s.status = .connectionFailed)
      (remote : Address)
      (keyPair : Option KeyPair)
      (hkeys : keyPair.isSome = s.isEncrypting) :
      Transition s
        { setup := s.setup
          status := .connecting
          remote := some remote
          clientId := none
          keyPair
          hasSocket := true
          sessionId := none }
  /-- An attempt takes too long or is denied. -/
  | givenUp
      (hstatus : s.status = .connecting) :
      Transition s { s with status := .connectionFailed }
  /-- An attempt with keys gets an acceptance that it cannot use. -/
  | refused
      (hstatus : s.status = .connecting)
      (hkeys : s.keyPair.isSome) :
      Transition s { s with status := .connectionFailed, keyPair := none }
  /-- An attempt without keys is accepted. -/
  | acceptedPlain
      (hstatus : s.status = .connecting)
      (hkeys : s.keyPair = none)
      (clientId : Option UInt32) :
      Transition s { s with status := .connected, clientId }
  /-- An attempt with keys is accepted and gets its session. -/
  | acceptedSecure
      (hstatus : s.status = .connecting)
      (hkeys : s.keyPair.isSome)
      (clientId : UInt32) :
      Transition s
        { s with
          status := .connected
          clientId := some clientId
          keyPair := none
          sessionId := some clientId }
  /-- The link ends: the server says so or is silent for too long. -/
  | dropped
      (hstatus : s.status ≠ .disconnected) :
      Transition s
        { s with
          status := .disconnected
          remote := none
          clientId := none
          hasSocket := false
          sessionId := none }
  /-- The application ends the link. -/
  | disconnected :
      Transition s
        { setup := s.setup
          status := .disconnected
          remote := none
          clientId := none
          keyPair := none
          hasSocket := false
          sessionId := none }

/-- Transitions one after the other. -/
abbrev Reaches : Standing → Standing → Prop :=
  Relation.ReflTransGen Transition

theorem Reaches.of_eq {s t : Standing} (h : t = s) : Reaches s t := by
  rw [h]

theorem Reaches.setup_eq {s t : Standing} (h : Reaches s t) : t.setup = s.setup := by
  induction h with
  | refl => rfl
  | tail _ hlast ih =>
      rw [← ih]
      cases hlast <;> rfl

theorem Transition.reaches {s t : Standing} (h : Transition s t) : Reaches s t :=
  Relation.ReflTransGen.single h

end Standing

namespace Client

open Standing

variable {net : Network} {c : Client}

section Attempts

/-- The link is as good as unused when an attempt begins. -/
theorem standing_beginAttempt
    (c : Client) (host : String) (port : UInt16) (isRetry : Bool) :
    (c.beginAttempt host port isRetry).standing =
      { setup := c.standing.setup
        status := .connecting
        remote := none
        clientId := none
        keyPair := none
        hasSocket := false
        sessionId := none } := by
  rfl

theorem isSome_drawKeyPair (c : Client) :
    c.drawKeyPair.1.isSome = c.standing.isEncrypting := by
  simp only [drawKeyPair, standing, Standing.isEncrypting]
  cases c.setup.settings.security.encryptionEnabled with
  | true => rfl
  | false => rfl

/-- Looking up the server leaves the link as it is, and where a client stands. -/
theorem standing_openSocket (net : Network) (c : Client) (host : String) (port : UInt16) :
    (c.openSocket net host port).2.link = c.link ∧
      (c.openSocket net host port).2.standing = c.standing := by
  simp only [openSocket]
  cases net.resolve host port with
  | none => exact ⟨rfl, rfl⟩
  | some remote =>
      dsimp only
      split
      · simp only [drawKeyPair]
        split
        · exact ⟨rfl, rfl⟩
        · exact ⟨rfl, rfl⟩
      · exact ⟨rfl, rfl⟩

/-- The keys found with the server are there exactly if the link is to be encrypted. -/
theorem isSome_of_openSocket
    {host : String} {port : UInt16} {remote : Address} {pair : Option KeyPair}
    (h : (c.openSocket net host port).1 = .ok (remote, pair)) :
    pair.isSome = c.standing.isEncrypting := by
  simp only [openSocket] at h
  cases hresolve : net.resolve host port with
  | none =>
      simp only [hresolve] at h
      cases h
  | some found =>
      simp only [hresolve] at h
      split at h
      · cases h
        exact isSome_drawKeyPair c
      · cases h

theorem standing_sendRequest
    (net : Network) (c : Client) (remote : Address) (pair : Option KeyPair) :
    (c.sendRequest net remote pair).2.link = c.link ∧
      (c.sendRequest net remote pair).2.standing = c.standing := by
  simp only [sendRequest]
  split
  · exact ⟨rfl, rfl⟩
  · exact ⟨rfl, rfl⟩

/-- An attempt that was not overtaken fails. -/
theorem standing_failAttempt
    {generation : Nat} (h : c.link.generation = generation) :
    (c.failAttempt generation).standing =
      { c.standing with status := .connectionFailed } := by
  simp only [failAttempt]
  rw [if_pos h]
  rfl

/-- An attempt that was not overtaken publishes its socket and its keys. -/
theorem standing_publish
    {generation : Nat} {standing : Standing} (remote : Address) (pair : Option KeyPair)
    (hcurrent : c.link.generation = generation)
    (hstanding : c.standing = standing)
    (hstatus : standing.status = .connecting) :
    ∃ published, c.publish generation remote pair = some published ∧
      published.standing =
        { standing with remote := some remote, keyPair := pair, hasSocket := true } := by
  subst hstanding
  refine ⟨_, if_pos ⟨hcurrent, hstatus⟩, rfl⟩

/-- Where an attempt leads: it is not begun, it fails, or it waits for its answer. -/
theorem reaches_attempt
    (net : Network) (c : Client) (host : String) (port : UInt16) (isRetry : Bool) :
    Reaches c.standing (c.attempt net host port isRetry).2.standing := by
  unfold attempt
  split
  · rename_i hmay
    have hstatus : c.standing.status = .disconnected ∨
        c.standing.status = .connectionFailed := by
      simp only [Link.mayBegin] at hmay
      cases isRetry with
      | true => exact Or.inr (by simpa [standing] using hmay)
      | false => simpa [standing] using hmay
    have hbegin := standing_beginAttempt c host port isRetry
    dsimp only
    generalize c.beginAttempt host port isRetry = started at hbegin ⊢
    obtain ⟨hopenLink, hopen⟩ := standing_openSocket net started host port
    have hkeys := @isSome_of_openSocket net started host port
    generalize started.openSocket net host port = opening at hopenLink hopen hkeys ⊢
    rcases opening with ⟨failure | ⟨remote, pair⟩, opened⟩
    · refine (Transition.attemptFailed hstatus).reaches.trans (Reaches.of_eq ?_)
      rw [standing_failAttempt (congrArg Link.generation hopenLink), hopen, hbegin]
    · obtain ⟨hsendLink, hsend⟩ := standing_sendRequest net opened remote pair
      dsimp only
      generalize opened.sendRequest net remote pair = sending at hsendLink hsend ⊢
      rcases sending with ⟨failure | _, sent⟩
      · refine (Transition.attemptFailed hstatus).reaches.trans (Reaches.of_eq ?_)
        rw [standing_failAttempt (congrArg Link.generation (hsendLink.trans hopenLink)),
          hsend, hopen, hbegin]
      · have hcurrent : sent.link.generation = started.link.generation :=
          congrArg Link.generation (hsendLink.trans hopenLink)
        have hstanding : sent.standing = started.standing := hsend.trans hopen
        obtain ⟨published, hpublish, hpublished⟩ :=
          standing_publish remote pair hcurrent (hstanding.trans hbegin) rfl
        refine (Transition.attemptBegun hstatus remote pair ?_).reaches.trans
          (Reaches.of_eq ?_)
        · rw [hkeys rfl, hbegin]
          rfl
        · simp only [hpublish]
          rw [standing_startPollWorker, hpublished]
  · exact Relation.ReflTransGen.refl

end Attempts

section Datagrams

theorem standing_establish (c : Client) (clientId : Option UInt32) :
    (c.establish clientId).standing =
      { c.standing with status := .connected, clientId } := by
  rfl

theorem connectionId_of_acceptedSession
    {pair : KeyPair} {a : Acceptance} {s : Session}
    (h : c.acceptedSession pair a = .ok s) :
    a.clientId = some s.connectionId := by
  simp only [acceptedSession] at h
  split at h
  · rename_i keys id hkeys hid
    cases hsession : Session.asClient c.setup.suite c.now pair.privateKey.bytes
        keys.serverPublic.bytes keys.salt.bytes id with
    | error failure =>
        rw [hsession] at h
        cases h
    | ok made =>
        rw [hsession] at h
        cases h
        rw [hid, ← Session.connectionId_of_asClient hsession]
        rfl
  · cases h

/-- An acceptance is passed over, ends its attempt or brings the link up. -/
theorem standing_accept_cases (c : Client) (a : Acceptance) :
    (c.accept a).standing = c.standing ∨
      (Transition c.standing (c.accept a).standing ∧
        (c.accept a).standing.status ≠ .disconnected) := by
  unfold accept
  split
  · rename_i hstatus
    right
    dsimp only
    cases hpair : c.link.keyPair with
    | none =>
        have hstanding :
            (({ c with link := { c.link with keyPair := none } } : Client).establish
              a.clientId).standing =
              { c.standing with status := .connected, clientId := a.clientId } := by
          rw [standing_establish]
          simp [standing, hpair]
        dsimp only
        rw [hstanding]
        exact ⟨.acceptedPlain hstatus hpair a.clientId, by simp⟩
    | some pair =>
        have hkeys : c.standing.keyPair.isSome := by
          simp [standing, hpair]
        dsimp only
        split
        · rw [standing_failAttempt rfl]
          exact ⟨.refused hstatus hkeys, by simp⟩
        · rename_i s hsession
          rw [standing_establish, connectionId_of_acceptedSession hsession]
          exact ⟨.acceptedSecure hstatus hkeys s.connectionId, by simp⟩
  · exact Or.inl rfl

/-- A datagram leaves a client where it stands or takes it along one transition.  Unless
that ends the reading, the link is not given up. -/
def Leads (c : Client) (outcome : Flow × Client) : Prop :=
  Reaches c.standing outcome.2.standing ∧
    (outcome.1 = .goOn → outcome.2.standing.status ≠ .disconnected)

theorem Leads.of_eq
    {flow : Flow} {after : Client} (hopen : c.standing.status ≠ .disconnected)
    (h : after.standing = c.standing) :
    c.Leads (flow, after) := by
  refine ⟨Reaches.of_eq h, fun _ => ?_⟩
  rw [h]
  exact hopen

theorem leads_handlePacket
    (net : Network) (remote : Address) (b : Buffer) (packet : Packet)
    (hopen : c.standing.status ≠ .disconnected) :
    c.Leads (c.handlePacket net remote b packet) := by
  cases packet with
  | ping timestamp => exact .of_eq hopen (standing_reply ..)
  | pong timestamp => exact .of_eq hopen rfl
  | reliable => exact .of_eq hopen rfl
  | unreliable => exact .of_eq hopen rfl
  | ack sequence => exact .of_eq hopen rfl
  | connect publicKey cookie => exact .of_eq hopen rfl
  | error => exact .of_eq hopen rfl
  | connectionAccepted a =>
      rcases standing_accept_cases c a with hsame | ⟨htransition, hstatus⟩
      · exact .of_eq hopen hsame
      · exact ⟨htransition.reaches, fun _ => hstatus⟩
  | connectionDenied =>
      by_cases hstatus : c.link.status = .connecting
      · simp only [handlePacket, hstatus, if_true]
        exact ⟨(Transition.givenUp hstatus).reaches, by simp⟩
      · simp only [handlePacket, hstatus, if_false]
        exact .of_eq hopen rfl
  | disconnect => exact ⟨(Transition.dropped hopen).reaches, by simp [handlePacket]⟩
  | checkIntegrity index =>
      by_cases henabled : c.setup.settings.security.integrityCheckEnabled = true
      · simp only [handlePacket, henabled, if_true]
        exact .of_eq hopen (standing_reply ..)
      · simp only [handlePacket, henabled]
        exact .of_eq hopen rfl
  | cookie cookie => exact .of_eq hopen (standing_answerCookie ..)

theorem leads_handlePlain
    (net : Network) (remote : Address) (b : Buffer)
    (hopen : c.standing.status ≠ .disconnected) :
    c.Leads (c.handlePlain net remote b) := by
  simp only [handlePlain]
  split
  · exact .of_eq hopen rfl
  · split
    · exact .of_eq hopen rfl
    · exact leads_handlePacket (c := c.heard) net remote _ _ hopen

theorem leads_handleDatagram
    (net : Network) (remote : Address) (bytes : Bytes)
    (hopen : c.standing.status ≠ .disconnected) :
    c.Leads (c.handleDatagram net remote bytes) := by
  simp only [handleDatagram]
  split
  · rename_i s header hheader
    exact .of_eq hopen (standing_openSecure (session_of_secureHeader hheader) header bytes)
  · split
    · exact .of_eq hopen (standing_answerCookie ..)
    · have hloaded := standing_loadedBuffer c bytes
      generalize c.loadedBuffer bytes = loaded at hloaded ⊢
      obtain ⟨b, after⟩ := loaded
      have hplain := leads_handlePlain (c := after) net remote b (by rw [hloaded]; exact hopen)
      simp only [Leads] at hplain ⊢
      rw [hloaded] at hplain
      exact hplain

/-- Transitions lead from one client to the next and to the clients that handle some
datagrams on the way. -/
structure Passes (c : Client) (hs : List Handling) (c' : Client) : Prop where
  reaches : Reaches c.standing c'.standing
  handled : ∀ h ∈ hs, Reaches c.standing h.client.standing

namespace Passes

variable {c' c'' : Client} {hs hs' : List Handling}

theorem of_reaches (h : Reaches c.standing c'.standing) : Passes c [] c' where
  reaches := h
  handled := by simp

theorem refl (c : Client) : Passes c [] c :=
  of_reaches Relation.ReflTransGen.refl

theorem trans (h : Passes c hs c') (h' : Passes c' hs' c'') : Passes c (hs ++ hs') c'' where
  reaches := h.reaches.trans h'.reaches
  handled := by
    intro handling hmem
    rcases List.mem_append.mp hmem with hfirst | hsecond
    · exact h.handled handling hfirst
    · exact h.reaches.trans (h'.handled handling hsecond)

/-- What is left where it stands may be put at the start. -/
theorem of_standing_eq (hstanding : c'.standing = c.standing) (h : Passes c' hs c'') :
    Passes c hs c'' := by
  have htrans := (of_reaches (Reaches.of_eq hstanding)).trans h
  rw [List.nil_append] at htrans
  exact htrans

/-- What is left where it stands may be put at the end. -/
theorem to_standing_eq (h : Passes c hs c') (hstanding : c''.standing = c'.standing) :
    Passes c hs c'' where
  reaches := h.reaches.trans (Reaches.of_eq hstanding)
  handled := h.handled

/-- A datagram is handled by the client that it finds. -/
theorem handling {bytes : Bytes} (h : Reaches c.standing c'.standing) :
    Passes c [⟨c, bytes⟩] c' where
  reaches := h
  handled := by
    intro handling hmem
    rw [List.mem_singleton.mp hmem]

end Passes

theorem passes_drain
    (net : Network) (remote : Address) (arrivals : List Arrival)
    (hopen : c.standing.status ≠ .disconnected) :
    Passes c (burst net remote arrivals c) (drain net remote arrivals c).2 := by
  induction arrivals generalizing c with
  | nil => exact .refl c
  | cons arrival rest ih =>
      have hinbox := standing_withInbox c rest
      simp only [drain, burst]
      split
      · have hcounted :
            ((c.withInbox rest).count (.received arrival.datagram.length)).standing =
              c.standing := by
          rw [standing_count, hinbox]
        generalize (c.withInbox rest).count (.received arrival.datagram.length) = counted
          at hcounted ⊢
        have hstill : counted.standing.status ≠ .disconnected := by
          rw [hcounted]
          exact hopen
        apply Passes.of_standing_eq hcounted
        split
        · exact ih hstill
        · have hleads := leads_handleDatagram (c := counted) net remote arrival.datagram hstill
          generalize counted.handleDatagram net remote arrival.datagram = outcome at hleads ⊢
          obtain ⟨_ | _, after⟩ := outcome
          · exact (Passes.handling hleads.1).trans (ih (hleads.2 rfl))
          · exact .handling hleads.1
      · apply Passes.of_standing_eq hinbox
        exact ih (by rw [hinbox]; exact hopen)

end Datagrams

section Workers

theorem passes_readSocket
    (net : Network) (hopen : c.standing.status ≠ .disconnected) :
    Passes c (c.readHandlings net) (c.readSocket net).2 := by
  simp only [readHandlings, readSocket]
  cases c.link.remote with
  | none => exact .refl c
  | some remote =>
      cases c.socket with
      | none => exact .refl c
      | some socket => exact (passes_drain net remote socket.inbox hopen).to_standing_eq rfl

theorem passes_poll (net : Network) (c : Client) :
    Passes c (c.lookHandlings net) (c.poll net).2 := by
  unfold lookHandlings poll
  cases hstatus : c.link.status with
  | connected =>
      have hopen : c.standing.status ≠ .disconnected := by
        simp [standing, hstatus]
      dsimp only
      split
      · exact .of_reaches (Transition.dropped hopen).reaches
      · exact passes_readSocket net hopen
  | connecting => exact passes_readSocket net (by simp [standing, hstatus])
  | connectionFailed => exact .refl c
  | disconnected => exact .refl c

theorem passes_pollTurn (net : Network) (c : Client) :
    Passes c (c.pollHandlings net) (c.pollTurn net) := by
  simp only [pollHandlings, pollTurn]
  cases c.workers.poll with
  | none => exact .refl c
  | some next =>
      have hpoll := passes_poll net c
      dsimp only
      generalize c.poll net = outcome at hpoll ⊢
      obtain ⟨_ | _, after⟩ := outcome
      · exact hpoll.to_standing_eq rfl
      · exact hpoll.to_standing_eq rfl

theorem reaches_retryTurn (c : Client) :
    Reaches c.standing c.retryTurn.standing := by
  have hticks := ticks_retryTurn c
  generalize c.retryTurn = after at hticks ⊢
  cases hticks with
  | timedOut hwaiting => exact (Transition.givenUp hwaiting).reaches
  | resting | waited | decided | stopped => exact Relation.ReflTransGen.refl

theorem reaches_reconnect (net : Network) (c : Client) :
    Reaches c.standing (c.reconnect net).standing := by
  have htake : c.takeRetry.2.standing = c.standing := by
    simp only [takeRetry]
    split
    · rfl
    · rfl
  simp only [reconnect]
  generalize c.takeRetry = taken at htake ⊢
  obtain ⟨_ | ⟨host, port⟩, after⟩ := taken
  · exact Reaches.of_eq htake
  · rw [← htake]
    exact reaches_attempt net after host port true

end Workers

section ActionRuns

/-- Whatever is no turn of the poll worker handles no datagram. -/
theorem reaches_act (net : Network) (c : Client) {action : Action} (h : action ≠ .pollTurn) :
    Reaches c.standing (c.act net action).2.standing := by
  cases action with
  | connect host port => exact reaches_attempt net c host port false
  | connectConfigured => exact reaches_attempt net c _ _ false
  | disconnect => exact Transition.disconnected.reaches
  | send contents => exact Reaches.of_eq (standing_send net c contents)
  | sendAck sequence => exact Reaches.of_eq (standing_sendAck net c sequence)
  | renewKeys => exact Reaches.of_eq (standing_renewKeys c)
  | setConnectTimeout timeout => exact Relation.ReflTransGen.refl
  | setRetryInterval interval => exact Relation.ReflTransGen.refl
  | setRetryEnabled enabled => exact Relation.ReflTransGen.refl
  | deliver arrival => exact Reaches.of_eq (standing_deliver c arrival)
  | elapse time => exact Relation.ReflTransGen.refl
  | retryTurn => exact reaches_retryTurn c
  | reconnect => exact reaches_reconnect net c
  | pollTurn => exact absurd rfl h

theorem passes_act (net : Network) (c : Client) (action : Action) :
    Passes c (c.actHandlings net action) (c.act net action).2 := by
  cases action with
  | pollTurn => exact passes_pollTurn net c
  | _ => exact .of_reaches (reaches_act net c nofun)

/-- Where a run leads. -/
theorem passes_run (c : Client) (actions : List (Network × Action)) :
    Passes c (c.handlings actions) (c.run actions) := by
  induction actions generalizing c with
  | nil => exact .refl c
  | cons step rest ih =>
      obtain ⟨net, action⟩ := step
      exact (passes_act net c action).trans (ih _)

end ActionRuns

end Client
end GameLink
