import GameLink.Proofs.Client.Consistency
import GameLink.Proofs.Client.History

/-!
# The lifecycle of a link

A link is connected, fails, is retried and ends along a few arrows, each with its occasion and
its event.  A step off these arrows comes from a datagram that only a link that is up should
act on: one with application data or a disconnect, on a link that is not up.

**Results.**
* `takes_handleDatagram`: what a datagram does is along an arrow, or it is a stray one.
* `unfolds_run`: a run is a list of such steps.
* `paired_of_documented`: along the arrows a link ends once for each time it came up.
* `lifecycle_exact`: which steps of a run are off the arrows, and what they do.
-/

namespace GameLink

/-- Whether a packet concerns only a link that is up. -/
def PacketKind.needsLink : PacketKind → Bool
  | .reliable | .unreliable | .disconnect => true
  | _ => false

def Occasion.needsLink : Occasion → Bool
  | .datagram (some kind) => kind.needsLink
  | _ => false

namespace Step

/-- The arrows of a link: where it stands, what it meets, where it stands then, and the events
that are raised. -/
inductive Arrow : LinkStatus → Occasion → LinkStatus → List Event → Prop
  | stays (status : LinkStatus) (occasion : Occasion) : Arrow status occasion status []
  /-- A datagram is not taken. -/
  | unsent (status : LinkStatus) : Arrow status .other status [.connectionError]
  | connect (status : LinkStatus) (h : status = .disconnected ∨ status = .connectionFailed) :
      Arrow status (.beginning false) .connecting []
  | retry : Arrow .connectionFailed (.beginning true) .connecting []
  /-- The server has no address, there is no socket, or the request is not taken. -/
  | askedInVain : Arrow .connecting .asking .connectionFailed [.connectionError]
  | timedOut : Arrow .connecting .timer .connectionFailed [.connectionError]
  | denied :
      Arrow .connecting (.datagram (some .connectionDenied)) .connectionFailed [.connectDenied]
  /-- An acceptance has no key material that leads to a session. -/
  | unusable :
      Arrow .connecting (.datagram (some .connectionAccepted)) .connectionFailed
        [.connectionError]
  | accepted (clientId : Option UInt32) :
      Arrow .connecting (.datagram (some .connectionAccepted)) .connected [.connected clientId]
  /-- A sealed datagram, or a signed one with a data tag. -/
  | data (kind : Option PacketKind)
      (h : kind = none ∨ kind = some .reliable ∨ kind = some .unreliable)
      (contents : Bytes) (position : Nat) :
      Arrow .connected (.datagram kind) .connected [.data contents position]
  | closed : Arrow .connected (.datagram (some .disconnect)) .disconnected [.disconnected]
  | silent : Arrow .connected .silence .disconnected [.disconnected]
  | ended (status : LinkStatus) : Arrow status .ending .disconnected []

/-- A step along an arrow. -/
def Documented (s : Step) : Prop :=
  Arrow s.before s.occasion s.after s.raised

/-- A datagram that concerns only a link that is up is handled on one that is not. -/
def Stray (s : Step) : Prop :=
  s.before ≠ .connected ∧ s.occasion.needsLink = true

/-- What a stray datagram does: a disconnect ends the link and is raised, and data is raised. -/
def ActsAnyway (s : Step) : Prop :=
  match s.occasion with
  | .datagram (some .disconnect) => s.after = .disconnected ∧ s.raised = [.disconnected]
  | _ => s.after = s.before ∧ ∃ contents position, s.raised = [.data contents position]

/-- Among events, the link ends only after it came up, and once for each time. -/
def Paired : Bool → List Event → Prop
  | _, [] => True
  | up, event :: rest =>
      match event with
      | .connected _ => Paired true rest
      | .disconnected => up = true ∧ Paired false rest
      | _ => Paired up rest

/-- Along the arrows a link ends once for each time it came up. -/
theorem paired_of_documented
    {steps : List Step} {status last : LinkStatus} {up : Bool}
    (hlinked : Linked status steps last) (hdocumented : ∀ step ∈ steps, step.Documented)
    (hup : status = .connected → up = true) :
    Paired up (steps.flatMap raised) := by
  -- while the link is up, an event that it came up is not yet answered by one that it ended
  induction steps generalizing status up with
  | nil => trivial
  | cons step steps ih =>
      obtain ⟨before, occasion, after, raised⟩ := step
      obtain ⟨hbefore, hrest⟩ := hlinked
      have harrow := hdocumented _ List.mem_cons_self
      have hothers := fun other hmem => hdocumented other (List.mem_cons_of_mem _ hmem)
      have hbegin : before = .connected → up = true := fun h => hup (hbefore.symm.trans h)
      simp only [Documented] at harrow hrest
      rw [List.flatMap_cons]
      cases harrow with
      | stays => exact ih hrest hothers hbegin
      | unsent => exact ih hrest hothers hbegin
      | connect => exact ih hrest hothers nofun
      | retry => exact ih hrest hothers nofun
      | askedInVain => exact ih hrest hothers nofun
      | timedOut => exact ih hrest hothers nofun
      | denied => exact ih hrest hothers nofun
      | unusable => exact ih hrest hothers nofun
      | accepted clientId => exact ih hrest hothers fun _ => rfl
      | data => exact ih hrest hothers hbegin
      | closed => exact ⟨hbegin rfl, ih hrest hothers nofun⟩
      | silent => exact ⟨hbegin rfl, ih hrest hothers nofun⟩
      | ended => exact ih hrest hothers nofun

/-- A step is along an arrow exactly if it is not a stray datagram's. -/
structure Judged (s : Step) : Prop where
  documented_iff : s.Documented ↔ ¬ s.Stray
  anyway : s.Stray → s.ActsAnyway

namespace Judged

variable {before after : LinkStatus} {occasion : Occasion} {raised : List Event}

theorem of_arrow
    (h : Arrow before occasion after raised)
    (hlink : before = .connected ∨ occasion.needsLink = false) :
    Judged ⟨before, occasion, after, raised⟩ := by
  have hnot : ¬ Stray ⟨before, occasion, after, raised⟩ := by
    rintro ⟨hdown, hneeds⟩
    rcases hlink with hup | hneedless
    · exact hdown hup
    · rw [hneedless] at hneeds
      cases hneeds
  exact ⟨⟨fun _ => hnot, fun _ => h⟩, fun hstray => absurd hstray hnot⟩

theorem of_disconnect (before : LinkStatus) :
    Judged ⟨before, .datagram (some .disconnect), .disconnected, [.disconnected]⟩ := by
  refine ⟨⟨?_, ?_⟩, fun _ => ⟨rfl, rfl⟩⟩
  · rintro ⟨⟩ ⟨hdown, _⟩
    exact hdown rfl
  · intro hnot
    have hup : before = .connected := not_not.mp fun hdown => hnot ⟨hdown, rfl⟩
    subst hup
    exact Arrow.closed

theorem of_data
    (before : LinkStatus) {kind : PacketKind}
    (hkind : kind = .reliable ∨ kind = .unreliable) (contents : Bytes) (position : Nat) :
    Judged ⟨before, .datagram (some kind), before, [.data contents position]⟩ := by
  have hneeds : (Occasion.datagram (some kind)).needsLink = true := by
    rcases hkind with rfl | rfl
    · rfl
    · rfl
  refine ⟨⟨?_, ?_⟩, ?_⟩
  · rintro ⟨⟩ ⟨hdown, _⟩
    exact hdown rfl
  · intro hnot
    have hup : before = .connected := not_not.mp fun hdown => hnot ⟨hdown, hneeds⟩
    subst hup
    exact Arrow.data (some kind) (Or.inr (by simpa using hkind)) contents position
  · intro _
    rcases hkind with rfl | rfl
    · exact ⟨rfl, contents, position, rfl⟩
    · exact ⟨rfl, contents, position, rfl⟩

end Judged
end Step

namespace Client

open Standing

variable {c c' c'' : Client} {occasion : Occasion}

/-- From one client to the next there is one step, and it is judged. -/
def Takes (c : Client) (occasion : Occasion) (c' : Client) : Prop :=
  ∃ status raised, Shows c status raised c' ∧
    Step.Judged ⟨c.link.status, occasion, status, raised⟩

namespace Takes

theorem stays
    (hstanding : c'.standing = c.standing) (hevents : c'.events = c.events)
    (hneedless : occasion.needsLink = false) : Takes c occasion c' :=
  ⟨_, _, .of_standing hstanding hevents, .of_arrow (.stays _ _) (Or.inr hneedless)⟩

theorem along
    {before status : LinkStatus} {raised : List Event} (hbefore : c.link.status = before)
    (h : Shows c status raised c') (harrow : Step.Arrow before occasion status raised)
    (hneedless : occasion.needsLink = false) : Takes c occasion c' := by
  subst hbefore
  exact ⟨status, raised, h, .of_arrow harrow (Or.inr hneedless)⟩

/-- What shows nothing may be put at the start. -/
theorem after_same
    (h : Takes c' occasion c'') (hstatus : c'.link.status = c.link.status)
    (hevents : c'.events = c.events) : Takes c occasion c'' := by
  obtain ⟨status, raised, hshows, hjudged⟩ := h
  rw [hstatus] at hjudged
  exact ⟨status, raised, hshows.after_same hevents, hjudged⟩

theorem then_same
    (h : Takes c occasion c') (hstatus : c''.link.status = c'.link.status)
    (hevents : c''.events = c'.events) : Takes c occasion c'' := by
  obtain ⟨status, raised, hshows, hjudged⟩ := h
  exact ⟨status, raised, hshows.then_same hstatus hevents, hjudged⟩

theorem judged_step (h : Takes c occasion c') : (c.step occasion c').Judged := by
  obtain ⟨status, raised, hshows, hjudged⟩ := h
  rw [hshows.step_eq]
  exact hjudged

end Takes

section Datagrams

/-- Only the first acceptance of an attempt has an effect. -/
theorem takes_accept (c : Client) (a : Acceptance) :
    Takes c (.datagram (some .connectionAccepted)) (c.accept a) := by
  unfold accept
  split
  · rename_i hstatus
    dsimp only
    split
    · exact .along hstatus (.raise rfl (events_count _ _)) (.accepted a.clientId) rfl
    · split
      · have hshows := shows_failAttempt { c with link := { c.link with keyPair := none } }
        exact .along hstatus ⟨hshows.status, hshows.events⟩ .unusable rfl
      · exact .along hstatus (.raise rfl (events_count _ _)) (.accepted a.clientId) rfl
  · exact .stays rfl rfl rfl

theorem takes_handlePacket
    (net : Network) (c : Client) (remote : Address) (b : Buffer) (packet : Packet) :
    Takes c (.datagram (some packet.kind)) (c.handlePacket net remote b packet).2 := by
  cases packet with
  | ping timestamp => exact .stays (standing_reply ..) (events_reply ..) rfl
  | reliable => exact ⟨_, _, .raise rfl rfl, .of_data _ (Or.inl rfl) _ _⟩
  | unreliable => exact ⟨_, _, .raise rfl rfl, .of_data _ (Or.inr rfl) _ _⟩
  | connectionAccepted a => exact takes_accept c a
  | connectionDenied =>
      by_cases hstatus : c.link.status = .connecting
      · simp only [handlePacket, hstatus, if_true]
        exact .along hstatus (.raise rfl rfl) .denied rfl
      · simp only [handlePacket, hstatus, if_false]
        exact .stays rfl rfl rfl
  | disconnect => exact ⟨_, _, .raise rfl rfl, .of_disconnect _⟩
  | checkIntegrity index =>
      by_cases henabled : c.setup.settings.security.integrityCheckEnabled = true
      · simp only [handlePacket, henabled, if_true]
        exact .stays (standing_reply ..) (events_reply ..) rfl
      · simp only [handlePacket, henabled]
        exact .stays rfl rfl rfl
  | cookie cookie => exact .stays (standing_answerCookie ..) (events_answerCookie ..) rfl
  | pong _ | ack _ | connect _ _ | error => exact .stays rfl rfl rfl

theorem signedKind?_of_body {bytes body : Bytes} (h : signedBody? bytes = some body) :
    signedKind? bytes = body.head?.bind PacketKind.ofTag? := by
  simp [signedKind?, h]

/-- Only a cookie may be too short for its kind. -/
theorem takes_undecodable
    {b rest : Buffer} {kind : PacketKind} {failure : Failure}
    (h : Packet.readFields b kind = (.error failure, rest)) (c : Client) :
    Takes c (.datagram (some kind)) c := by
  cases kind with
  | cookie => exact .stays rfl rfl rfl
  | _ => cases congrArg Prod.fst h

/-- A signed datagram is one step, of the kind of its packet. -/
theorem takes_handlePlain
    (net : Network) (c : Client) (remote : Address) {b : Buffer} {bytes : Bytes}
    (hloaded : b.Loaded bytes) :
    Takes c (.datagram (signedKind? bytes)) (c.handlePlain net remote b).2 := by
  cases hsigned : signedBody? bytes with
  | none =>
      have hkind : signedKind? bytes = none := by simp [signedKind?, hsigned]
      obtain ⟨failure, hverify⟩ := hloaded.verify_of_unsigned hsigned
      simp only [handlePlain, hverify, hkind]
      exact .stays (standing_count ..) (events_count ..) rfl
  | some body =>
      obtain ⟨b', hverify, hbody⟩ := hloaded.verify_of_signed hsigned
      rw [signedKind?_of_body hsigned]
      simp only [handlePlain, hverify]
      have hunread : b'.unread = body := by
        rw [Buffer.unread, hbody.contents, hbody.position, List.drop_zero]
      cases body with
      | nil =>
          have hzero : b'.remaining = 0 := by
            rw [Buffer.remaining, hbody.length, hbody.position]
            rfl
          have hdecode : Packet.decode b' = (.error (.malformed .emptyDatagram), b') := by
            rw [Packet.decode, if_pos hzero]
          simp only [hdecode]
          exact .stays rfl rfl rfl
      | cons tag tail =>
          simp only [List.head?_cons, Option.bind_some]
          cases hkind : PacketKind.ofTag? tag with
          | none =>
              simp only [Packet.decode_of_unknown hunread hkind]
              exact .stays rfl rfl rfl
          | some kind =>
              rw [Packet.decode_of_known hunread hkind]
              rcases hread : Packet.readFields (b'.advance 1) kind with ⟨failure | packet, rest⟩
              · exact takes_undecodable hread c
              · have hsame := Packet.kind_of_readFields hread
                subst hsame
                exact (takes_handlePacket net c.heard remote rest packet).after_same rfl rfl

/-- What a client has to be for its datagrams to be judged: its parts agree, and its buffers
are of one capacity. -/
structure Ready (c : Client) : Prop where
  sound : c.standing.Sound
  uniform : c.pool.Uniform

/-- A sealed datagram is only opened on a link that is up. -/
theorem takes_openSecure
    {s : Session} (hc : c.Ready) (hs : c.session = some s) (header : Header) (bytes : Bytes) :
    Takes c (.datagram none) (c.openSecure s header bytes) := by
  have hup : c.link.status = .connected :=
    (consistent_of_sound hc.sound).connected_of_isSome (Or.inl (by rw [hs]; rfl))
  simp only [openSecure]
  split
  · exact .along hup (.raise hup rfl) (.data none (Or.inl rfl) _ _) rfl
  · exact .stays (standing_countAll ..) (events_countAll ..) rfl

/-- A datagram is one step. -/
theorem takes_handleDatagram
    (net : Network) (remote : Address) (bytes : Bytes) (hc : c.Ready) :
    Takes c (.datagram (Handling.kind? ⟨c, bytes⟩)) (c.handleDatagram net remote bytes).2 := by
  simp only [handleDatagram, Handling.kind?]
  cases hheader : c.secureHeader? bytes with
  | some secure => exact takes_openSecure hc (session_of_secureHeader hheader) secure.2 bytes
  | none =>
      cases hcookie : bareCookie? bytes with
      | some cookie => exact .stays (standing_answerCookie ..) (events_answerCookie ..) rfl
      | none =>
          have hloaded := loaded_loadedBuffer bytes hc.uniform
          have hstatus : (c.loadedBuffer bytes).2.link.status = c.link.status :=
            congrArg Standing.status (standing_loadedBuffer c bytes)
          have hevents := events_loadedBuffer c bytes
          dsimp only
          generalize c.loadedBuffer bytes = loaded at hloaded hstatus hevents ⊢
          exact ((takes_handlePlain net loaded.2 remote hloaded).after_same hstatus
            hevents).then_same rfl rfl

end Datagrams

section Runs

/-- A client comes to another in steps, and each of them is judged. -/
structure Unfolds (c : Client) (steps : List Step) (c' : Client) : Prop where
  linked : Linked c.link.status steps c'.link.status
  events : c'.events = c.events ++ steps.flatMap Step.raised
  judged : ∀ step ∈ steps, step.Judged

theorem linked_append
    {first second : List Step} {status middle last : LinkStatus}
    (h : Linked status first middle) (h' : Linked middle second last) :
    Linked status (first ++ second) last := by
  induction first generalizing status with
  | nil =>
      cases h
      exact h'
  | cons step steps ih => exact ⟨h.1, ih h.2⟩

namespace Unfolds

variable {steps steps' : List Step}

theorem refl (c : Client) : Unfolds c [] c where
  linked := rfl
  events := (List.append_nil _).symm
  judged := by simp

theorem trans (h : Unfolds c steps c') (h' : Unfolds c' steps' c'') :
    Unfolds c (steps ++ steps') c'' where
  linked := linked_append h.linked h'.linked
  events := by
    rw [h'.events, h.events, List.flatMap_append, List.append_assoc]
  judged := by
    intro step hmem
    rcases List.mem_append.mp hmem with hfirst | hsecond
    · exact h.judged step hfirst
    · exact h'.judged step hsecond

theorem of_same
    (hstatus : c'.link.status = c.link.status) (hevents : c'.events = c.events) :
    Unfolds c [] c' where
  linked := hstatus
  events := by rw [hevents, List.flatMap_nil, List.append_nil]
  judged := by simp

theorem single (h : Takes c occasion c') : Unfolds c [c.step occasion c'] c' where
  linked := ⟨rfl, rfl⟩
  events := by
    obtain ⟨status, raised, hshows, _⟩ := h
    rw [hshows.step_eq, hshows.events]
    simp
  judged := by
    intro step hmem
    rw [List.mem_singleton.mp hmem]
    exact h.judged_step

theorem after_same
    (h : Unfolds c' steps c'') (hstatus : c'.link.status = c.link.status)
    (hevents : c'.events = c.events) : Unfolds c steps c'' :=
  (of_same hstatus hevents).trans h

theorem then_same
    (h : Unfolds c steps c') (hstatus : c''.link.status = c'.link.status)
    (hevents : c''.events = c'.events) : Unfolds c steps c'' := by
  have htrans := h.trans (of_same hstatus hevents)
  rw [List.append_nil] at htrans
  exact htrans

end Unfolds

theorem takes_beginAttempt
    (host : String) (port : UInt16) {isRetry : Bool} (hmay : c.link.mayBegin isRetry = true) :
    Takes c (.beginning isRetry) (c.beginAttempt host port isRetry) := by
  have hshows : Shows c .connecting [] (c.beginAttempt host port isRetry) := by
    refine ⟨rfl, ?_⟩
    rw [events_beginAttempt, List.append_nil]
  cases isRetry with
  | false => exact .along rfl hshows (.connect _ (by simpa [Link.mayBegin] using hmay)) rfl
  | true =>
      have hfailed : c.link.status = .connectionFailed := by simpa [Link.mayBegin] using hmay
      exact .along hfailed hshows .retry rfl

/-- An attempt that began waits for its answer or has failed. -/
theorem takes_asking
    (net : Network) (c : Client) (host : String) (port : UInt16) {isRetry : Bool}
    (hmay : c.link.mayBegin isRetry = true) :
    Takes (c.beginAttempt host port isRetry) .asking (c.attempt net host port isRetry).2 := by
  have hconnecting : (c.beginAttempt host port isRetry).link.status = .connecting := rfl
  simp only [attempt, hmay, if_true]
  generalize c.beginAttempt host port isRetry = started at hconnecting ⊢
  obtain ⟨hopenLink, hopen⟩ := standing_openSocket net started host port
  have hopenEvents := events_openSocket net started host port
  generalize started.openSocket net host port = opening at hopenLink hopen hopenEvents ⊢
  have hvain {after : Client} (hlink : after.link = started.link)
      (hevents : after.events = started.events) :
      Takes started .asking (after.failAttempt started.link.generation) := by
    rw [← hlink]
    exact .along hconnecting ((shows_failAttempt after).after_same hevents) .askedInVain rfl
  rcases opening with ⟨failure | ⟨remote, pair⟩, opened⟩
  · exact hvain hopenLink hopenEvents
  · obtain ⟨hsendLink, hsend⟩ := standing_sendRequest net opened remote pair
    have hsendEvents := events_sendRequest net opened remote pair
    dsimp only
    generalize opened.sendRequest net remote pair = sending at hsendLink hsend hsendEvents ⊢
    rcases sending with ⟨failure | _, sent⟩
    · exact hvain (hsendLink.trans hopenLink) (hsendEvents.trans hopenEvents)
    · have hsent : Takes started .asking sent :=
        .stays (hsend.trans hopen) (hsendEvents.trans hopenEvents) rfl
      dsimp only
      split
      · rename_i published hpublish
        simp only [publish] at hpublish
        split at hpublish
        · cases hpublish
          exact hsent.then_same rfl rfl
        · cases hpublish
      · exact hsent

/-- An attempt is a call that begins it and the request to the server. -/
theorem unfolds_attempt
    (net : Network) (c : Client) (host : String) (port : UInt16) (isRetry : Bool) :
    Unfolds c (c.attemptSteps net host port isRetry) (c.attempt net host port isRetry).2 := by
  unfold attemptSteps
  by_cases hmay : c.link.mayBegin isRetry
  · rw [if_pos hmay]
    exact (Unfolds.single (takes_beginAttempt host port hmay)).trans
      (.single (takes_asking net c host port hmay))
  · have hsame : (c.attempt net host port isRetry).2 = c := by
      rw [attempt, if_neg hmay]
    rw [if_neg hmay, hsame]
    exact .refl c

theorem takes_retryTurn (c : Client) : Takes c .timer c.retryTurn := by
  have hticks := ticks_retryTurn c
  generalize c.retryTurn = after at hticks ⊢
  cases hticks with
  | timedOut hwaiting =>
      have hcounted : (({ c with link := c.link.enter .connectionFailed c.now }).count
          .connectionError).events = c.events := events_count _ _
      exact .along hwaiting ((Shows.raise rfl hcounted).then_same rfl rfl) .timedOut rfl
  | resting | waited | decided | stopped => exact .stays rfl rfl rfl

theorem unfolds_reconnect (net : Network) (c : Client) :
    Unfolds c (c.reconnectSteps net) (c.reconnect net) := by
  have hstatus : c.takeRetry.2.link.status = c.link.status := by
    simp only [takeRetry]
    split
    · rfl
    · rfl
  have hevents := events_takeRetry c
  simp only [reconnectSteps, reconnect]
  generalize c.takeRetry = taken at hstatus hevents ⊢
  obtain ⟨_ | ⟨host, port⟩, after⟩ := taken
  · exact .of_same hstatus hevents
  · exact (unfolds_attempt net after host port true).after_same hstatus hevents

namespace Ready

theorem of_same (hc : c.Ready) (hstanding : c'.standing = c.standing) (hpool : c'.pool = c.pool) :
    c'.Ready where
  sound := by
    rw [hstanding]
    exact hc.sound
  uniform := by
    rw [hpool]
    exact hc.uniform

theorem handleDatagram
    (hc : c.Ready) (net : Network) (remote : Address) (bytes : Bytes)
    (hopen : c.standing.status ≠ .disconnected) :
    (c.handleDatagram net remote bytes).2.Ready where
  sound := hc.sound.reaches (leads_handleDatagram net remote bytes hopen).1
  uniform := (delivers_handleDatagram net c remote bytes hc.uniform).uniform hc.uniform

theorem act (hc : c.Ready) (net : Network) (action : Action) : (c.act net action).2.Ready where
  sound := hc.sound.reaches (passes_act net c action).reaches
  uniform := (delivers_act net c action hc.uniform).uniform hc.uniform

end Ready

theorem unfolds_drain
    (net : Network) (remote : Address) (arrivals : List Arrival) (hc : c.Ready)
    (hopen : c.standing.status ≠ .disconnected) :
    Unfolds c (burstSteps net remote arrivals c) (drain net remote arrivals c).2 := by
  -- handling goes on with the next datagram only while the link is not ended
  induction arrivals generalizing c with
  | nil => exact .refl c
  | cons arrival rest ih =>
      simp only [drain, burstSteps]
      split
      · generalize hcount :
          (c.withInbox rest).count (.received arrival.datagram.length) = counted
        have hstanding : counted.standing = c.standing := by
          rw [← hcount, standing_count, standing_withInbox]
        have hevents : counted.events = c.events := by
          rw [← hcount, events_count]
          rfl
        have hpool : counted.pool = c.pool := by
          rw [← hcount]
          rfl
        have hready := hc.of_same hstanding hpool
        have hstillOpen : counted.standing.status ≠ .disconnected := by
          rw [hstanding]
          exact hopen
        refine Unfolds.after_same ?_ (congrArg Standing.status hstanding) hevents
        split
        · exact ih hready hstillOpen
        · have htakes := takes_handleDatagram net remote arrival.datagram hready
          have hleads := leads_handleDatagram net remote arrival.datagram hstillOpen
          have hnext := hready.handleDatagram net remote arrival.datagram hstillOpen
          generalize counted.handleDatagram net remote arrival.datagram = outcome
            at htakes hleads hnext ⊢
          obtain ⟨_ | _, after⟩ := outcome
          · exact (Unfolds.single htakes).trans (ih hnext (hleads.2 rfl))
          · exact .single htakes
      · have hready := hc.of_same (standing_withInbox c rest) rfl
        have hstillOpen : (c.withInbox rest).standing.status ≠ .disconnected := by
          rw [standing_withInbox]
          exact hopen
        exact (ih hready hstillOpen).after_same rfl rfl

theorem unfolds_readSocket
    (net : Network) (hc : c.Ready) (hopen : c.standing.status ≠ .disconnected) :
    Unfolds c (c.readSteps net) (c.readSocket net).2 := by
  simp only [readSteps, readSocket]
  cases c.link.remote with
  | none => exact .refl c
  | some remote =>
      cases c.socket with
      | none => exact .refl c
      | some socket => exact (unfolds_drain net remote socket.inbox hc hopen).then_same rfl rfl

theorem unfolds_poll (net : Network) (hc : c.Ready) :
    Unfolds c (c.lookSteps net) (c.poll net).2 := by
  unfold lookSteps
  cases hstatus : c.link.status with
  | connected =>
      have hopen : c.standing.status ≠ .disconnected := by
        simp [standing, hstatus]
      dsimp only
      split
      · rename_i hsilent
        have hdropped : (c.poll net).2 = c.dropLink.raise .disconnected := by
          simp only [poll, hstatus, if_pos hsilent]
        have hshows : Shows c .disconnected [.disconnected] (c.poll net).2 := by
          rw [hdropped]
          exact .raise rfl rfl
        exact .single (.along hstatus hshows .silent rfl)
      · rename_i hheard
        simp only [poll, hstatus, if_neg hheard]
        exact unfolds_readSocket net hc hopen
  | connecting =>
      simp only [poll, hstatus]
      exact unfolds_readSocket net hc (by simp [standing, hstatus])
  | connectionFailed =>
      simp only [poll, hstatus]
      exact .refl c
  | disconnected =>
      simp only [poll, hstatus]
      exact .refl c

theorem unfolds_pollTurn (net : Network) (hc : c.Ready) :
    Unfolds c (c.pollSteps net) (c.pollTurn net) := by
  simp only [pollSteps, pollTurn]
  cases c.workers.poll with
  | none => exact .refl c
  | some next =>
      have hpoll := unfolds_poll net hc
      dsimp only
      generalize c.poll net = outcome at hpoll ⊢
      obtain ⟨_ | _, after⟩ := outcome
      · exact hpoll.then_same rfl rfl
      · exact hpoll.then_same rfl rfl

theorem unfolds_act (net : Network) (hc : c.Ready) (action : Action) :
    Unfolds c (c.actSteps net action) (c.act net action).2 := by
  have hsent {after : Client}
      (h : ∃ raised, Shows c c.link.status raised after ∧
        (raised = [] ∨ raised = [.connectionError])) :
      Unfolds c [c.step .other after] after := by
    obtain ⟨raised, hshows, rfl | rfl⟩ := h
    · exact .single (.along rfl hshows (.stays _ _) rfl)
    · exact .single (.along rfl hshows (.unsent _) rfl)
  cases action with
  | connect host port => exact unfolds_attempt net c host port false
  | connectConfigured => exact unfolds_attempt net c _ _ false
  | disconnect =>
      have hshows : Shows c .disconnected [] c.disconnect := ⟨rfl, (List.append_nil _).symm⟩
      exact .single (.along rfl hshows (.ended _) rfl)
  | retryTurn => exact .single (takes_retryTurn c)
  | reconnect => exact unfolds_reconnect net c
  | pollTurn => exact unfolds_pollTurn net hc
  | send contents => exact hsent (shows_send net c contents)
  | sendAck sequence => exact hsent (shows_sendAck net c sequence)
  | renewKeys => exact .single (.stays (standing_renewKeys c) (events_renewKeys c) rfl)
  | deliver arrival => exact .single (.stays (standing_deliver c arrival) rfl rfl)
  | setConnectTimeout _ | setRetryInterval _ | setRetryEnabled _ | elapse _ =>
      exact .single (.stays rfl rfl rfl)

/-- A run unfolds in its history. -/
theorem unfolds_run (hc : c.Ready) (actions : List (Network × Action)) :
    Unfolds c (c.history actions) (c.run actions) := by
  induction actions generalizing c with
  | nil => exact .refl c
  | cons taken rest ih =>
      obtain ⟨net, action⟩ := taken
      exact (unfolds_act net hc action).trans (ih (hc.act net action))

/-- The status of a new client changes, and its events are raised, in the steps of its history.
A step is along one of the arrows exactly if it does not come from a datagram with application
data or a disconnect on a link that is not up; such a datagram is acted on all the same.  If
there is none, the link ends once for each time it came up. -/
theorem lifecycle_exact
    (setup : Setup) (entropy : Entropy) (now : Moment)
    (actions : List (Network × Action)) :
    let c := create setup entropy now
    Linked .disconnected (c.history actions) (c.run actions).link.status ∧
      (c.run actions).events = (c.history actions).flatMap Step.raised ∧
      (∀ step ∈ c.history actions,
        (step.Documented ↔ ¬ step.Stray) ∧ (step.Stray → step.ActsAnyway)) ∧
      ((∀ step ∈ c.history actions, ¬ step.Stray) →
        Step.Paired false (c.run actions).events) := by
  intro c
  have hready : c.Ready := by
    refine ⟨?_, (Pool.Uniform.empty _).preallocate _ _⟩
    constructor <;> simp [c, create, standing, Link.idle]
  have hrun := unfolds_run hready actions
  have hlinked : Linked .disconnected (c.history actions) (c.run actions).link.status :=
    hrun.linked
  have hevents : (c.run actions).events = (c.history actions).flatMap Step.raised := hrun.events
  refine ⟨hlinked, hevents, fun step hmem => ?_, fun hnone => ?_⟩
  · exact ⟨(hrun.judged step hmem).documented_iff, (hrun.judged step hmem).anyway⟩
  · rw [hevents]
    refine Step.paired_of_documented hlinked (fun step hmem => ?_) fun hup => ?_
    · exact (hrun.judged step hmem).documented_iff.mpr (hnone step hmem)
    · cases hup

/-- The client connects; signed data and a disconnect reach it before any acceptance. -/
def strayActions : List (Network × Action) :=
  [(.single 1, .connectConfigured),
    (.single 1, .deliver ⟨⟨1, 3565⟩, signedDatagram [3, 104, 105]⟩),
    (.single 1, .deliver ⟨⟨1, 3565⟩, signedDatagram [6]⟩),
    (.single 1, .pollTurn)]

/-- A client that is connecting delivers data and ends a link that never came up. -/
theorem stray_datagrams_acted_on :
    ((create sampleSetup (.cyclic []) .zero).run strayActions).events =
        [.data [3, 104, 105] 1, .disconnected] ∧
      ((create sampleSetup (.cyclic []) .zero).run strayActions).link.status = .disconnected ∧
      ∃ step ∈ (create sampleSetup (.cyclic []) .zero).history strayActions,
        step.before = .connecting ∧ ¬ step.Documented := by
  have hevents : ((create sampleSetup (.cyclic []) .zero).run strayActions).events =
      [.data [3, 104, 105] 1, .disconnected] := by
    decide +kernel
  have hmem : (⟨.connecting, .datagram (some .disconnect), .disconnected, [.disconnected]⟩ : Step) ∈
      (create sampleSetup (.cyclic []) .zero).history strayActions := by
    decide +kernel
  obtain ⟨_, _, hsteps, _⟩ := lifecycle_exact sampleSetup (.cyclic []) .zero strayActions
  refine ⟨hevents, by decide +kernel, _, hmem, rfl, fun hdocumented => ?_⟩
  exact (hsteps _ hmem).1.mp hdocumented ⟨by decide, rfl⟩

end Runs

end Client
end GameLink
