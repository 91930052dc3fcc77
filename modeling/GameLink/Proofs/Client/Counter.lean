import GameLink.Proofs.Client.Course
import GameLink.Proofs.Client.Sending
import GameLink.Proofs.Session.SendCounter

/-!
# The counter of a session in a run

As long as a client keeps the keys of its session, the counter of the session only moves
forward, whatever else happens.

**Results.**
* `Session.nextSend_lt_afterSealing`: sealing leaves the number behind that it used up.
* `advances_act`: whatever happens to a client but a renewal of its keys, the counter of its
  session does not go back, unless the link came up anew.
-/

namespace GameLink

/-- Whether the link came up. -/
def Event.isConnected : Event → Bool
  | .connected _ => true
  | _ => false

/-- A number that was used up is left behind. -/
theorem Session.nextSend_lt_afterSealing
    {s : Session} (hlast : s.nextSend ≠ lastNumber) (sealed : Bytes) :
    s.nextSend < (s.afterSealing (s.nextSend + 1) sealed).nextSend := by
  have hlt := s.nextSend.toNat_lt
  rw [Ne, SealingRun.eq_lastNumber_iff] at hlast
  rw [afterSealing, UInt64.lt_iff_toNat_lt, UInt64.toNat_add, UInt64.toNat_one]
  omega

namespace Client

variable {c c' c'' : Client}

/-- How often the link came up. -/
def connections (c : Client) : Nat :=
  c.events.countP Event.isConnected

/-- From one client to a later one, the link came up anew, or a session that is still there has a
counter that did not go back. -/
structure Advances (c c' : Client) : Prop where
  events : c.events <+: c'.events
  session :
    c'.connections = c.connections → ∀ s', c'.session = some s' →
      ∃ s, c.session = some s ∧ s.nextSend ≤ s'.nextSend

namespace Advances

theorem of_le
    (hevents : c.events <+: c'.events)
    (hsession : ∀ s', c'.session = some s' → ∃ s, c.session = some s ∧ s.nextSend ≤ s'.nextSend) :
    Advances c c' :=
  ⟨hevents, fun _ => hsession⟩

theorem of_session_eq (hevents : c.events <+: c'.events) (hsession : c'.session = c.session) :
    Advances c c' :=
  of_le hevents fun s' hs' => ⟨s', hsession ▸ hs', UInt64.le_refl _⟩

theorem of_session_none (hevents : c.events <+: c'.events) (hsession : c'.session = none) :
    Advances c c' :=
  of_le hevents fun s' hs' => by
    rw [hsession] at hs'
    cases hs'

theorem of_connected {clientId : Option UInt32}
    (hevents : c'.events = c.events ++ [.connected clientId]) : Advances c c' where
  events := ⟨_, hevents.symm⟩
  session := by
    intro hsame
    simp [connections, hevents, Event.isConnected] at hsame

theorem of_same (hevents : c'.events = c.events) (hsession : c'.session = c.session) :
    Advances c c' :=
  of_session_eq ⟨[], by rw [hevents, List.append_nil]⟩ hsession

theorem refl (c : Client) : Advances c c :=
  of_same rfl rfl

theorem count (c : Client) (tally : Tally) : Advances c (c.count tally) :=
  of_same (events_count c tally) rfl

theorem connections_le (h : Advances c c') : c.connections ≤ c'.connections :=
  h.events.sublist.countP_le

theorem trans (h : Advances c c') (h' : Advances c' c'') : Advances c c'' where
  events := h.events.trans h'.events
  session := by
    intro hsame s'' hs''
    have hfirst := h.connections_le
    have hsecond := h'.connections_le
    obtain ⟨s', hs', hlater⟩ := h'.session (by omega) s'' hs''
    obtain ⟨s, hs, hearlier⟩ := h.session (by omega) s' hs'
    exact ⟨s, hs, UInt64.le_trans hearlier hlater⟩

end Advances

section AttemptWorkers

theorem prefix_of_unfolds {steps : List Step} (h : Unfolds c steps c') : c.events <+: c'.events :=
  ⟨_, h.events.symm⟩

theorem prefix_of_takes {occasion : Occasion} (h : Takes c occasion c') :
    c.events <+: c'.events := by
  obtain ⟨_, raised, hshows, -⟩ := h
  exact ⟨raised, hshows.events.symm⟩

theorem session_openSocket (net : Network) (c : Client) (host : String) (port : UInt16) :
    (c.openSocket net host port).2.session = c.session := by
  simp only [openSocket]
  split
  · rfl
  · split
    · simp only [drawKeyPair]
      split
      · rfl
      · rfl
    · rfl

theorem session_sendRequest
    (net : Network) (c : Client) (remote : Address) (pair : Option KeyPair) :
    (c.sendRequest net remote pair).2.session = c.session := by
  simp only [sendRequest]
  split
  · rfl
  · rfl

theorem session_failAttempt (c : Client) (generation : Nat) :
    (c.failAttempt generation).session = c.session := by
  simp only [failAttempt]
  split
  · rfl
  · rfl

theorem session_of_publish {published : Client} {generation : Nat} {remote : Address}
    {pair : Option KeyPair} (h : c.publish generation remote pair = some published) :
    published.session = c.session := by
  simp only [publish] at h
  split at h
  · cases h
    rfl
  · cases h

/-- An attempt that begins gives up the session. -/
theorem session_attempt
    (net : Network) (c : Client) (host : String) (port : UInt16) (isRetry : Bool) :
    (c.attempt net host port isRetry).2.session = c.session ∨
      (c.attempt net host port isRetry).2.session = none := by
  unfold attempt
  split
  · refine Or.inr ?_
    have hbegin : (c.beginAttempt host port isRetry).session = none := rfl
    dsimp only
    generalize c.beginAttempt host port isRetry = started at hbegin ⊢
    have hopen := (session_openSocket net started host port).trans hbegin
    generalize started.openSocket net host port = opening at hopen ⊢
    rcases opening with ⟨failure | ⟨remote, pair⟩, opened⟩
    · exact (session_failAttempt opened _).trans hopen
    · have hsend := (session_sendRequest net opened remote pair).trans hopen
      dsimp only
      generalize opened.sendRequest net remote pair = sending at hsend ⊢
      rcases sending with ⟨failure | _, sent⟩
      · exact (session_failAttempt sent _).trans hsend
      · dsimp only
        split
        · rename_i published hpublish
          exact (session_of_publish hpublish).trans hsend
        · exact hsend
  · exact Or.inl rfl

theorem session_retryTurn (c : Client) : c.retryTurn.session = c.session := by
  have hticks := ticks_retryTurn c
  generalize c.retryTurn = after at hticks ⊢
  cases hticks with
  | _ => rfl

theorem session_takeRetry (c : Client) : c.takeRetry.2.session = c.session := by
  simp only [takeRetry]
  split
  · rfl
  · rfl

end AttemptWorkers

section Calls

theorem session_sendAck (net : Network) (c : Client) (sequence : UInt16) :
    (c.sendAck net sequence).2.session = c.session := by
  simp only [sendAck]
  cases c.route with
  | none => rfl
  | some remote =>
      dsimp only [recycle]
      rw [session_transmit]

/-- Sealing leaves the session as it is or moves its counter. -/
theorem le_sealOutbound (c : Client) (contents : Bytes) :
    ∀ s', (c.sealOutbound contents).2.session = some s' →
      ∃ s, c.session = some s ∧ s.nextSend ≤ s'.nextSend := by
  intro s' hs'
  have hseals := seals_sealOutbound c contents
  generalize c.sealOutbound contents = outcome at hseals hs'
  cases hseals with
  | notSealed => exact ⟨s', hs', UInt64.le_refl _⟩
  | refused => exact ⟨s', hs', UInt64.le_refl _⟩
  | framed s hs f _ hlast _ tallies =>
      rw [session_countAll] at hs'
      cases hs'
      refine ⟨s, hs, ?_⟩
      exact UInt64.le_of_lt (Session.nextSend_lt_afterSealing hlast f.sealed)

theorem le_send (net : Network) (c : Client) (contents : Bytes) :
    ∀ s', (c.send net contents).2.session = some s' →
      ∃ s, c.session = some s ∧ s.nextSend ≤ s'.nextSend := by
  by_cases hcan : c.CanSend contents
  · rw [session_send hcan]
    exact le_sealOutbound c contents
  · rw [send_of_not_canSend hcan]
    exact fun s' hs' => ⟨s', hs', UInt64.le_refl _⟩

end Calls

section Datagrams

theorem session_reply (net : Network) (c : Client) (remote : Address) (packet : Packet) :
    (c.reply net remote packet).session = c.session := by
  simp only [reply]
  split
  · rfl
  · rfl

theorem session_answerCookie
    (net : Network) (c : Client) (remote : Address) (cookie : Octets cookieSize) :
    (c.answerCookie net remote cookie).session = c.session := by
  unfold answerCookie
  split
  · split
    · rfl
    · dsimp only
      split
      · rfl
      · rfl
  · rfl

/-- Opening a payload moves the window of the session, not its counter. -/
theorem le_openSecure
    {s : Session} (hs : c.session = some s) (header : Header) (bytes : Bytes) :
    ∀ s', (c.openSecure s header bytes).session = some s' →
      ∃ s, c.session = some s ∧ s.nextSend ≤ s'.nextSend := by
  intro s' hs'
  simp only [openSecure] at hs'
  split at hs'
  · rename_i message opened hopen
    obtain ⟨_, -, hat⟩ := Session.openPacked_eq_ok_iff.mp hopen
    obtain ⟨-, -, rfl⟩ := Session.openAt_eq_ok_iff.mp hat
    cases hs'
    exact ⟨s, hs, UInt64.le_refl _⟩
  · rw [session_countAll] at hs'
    exact ⟨s', hs', UInt64.le_refl _⟩

/-- A session comes with the link. -/
theorem session_accept (c : Client) (a : Acceptance) :
    (c.accept a).session = c.session ∨
      (c.accept a).events = c.events ++ [.connected a.clientId] := by
  unfold accept
  split
  · dsimp only
    split
    · exact Or.inl rfl
    · split
      · exact Or.inl (session_failAttempt _ _)
      · refine Or.inr ?_
        rw [establish, events_raise, events_count]
        rfl
  · exact Or.inl rfl

theorem advances_handlePacket
    (net : Network) (c : Client) (remote : Address) (b : Buffer) (packet : Packet) :
    Advances c (c.handlePacket net remote b packet).2 := by
  have hevents := prefix_of_takes (takes_handlePacket net c remote b packet)
  cases packet with
  | ping timestamp => exact .of_session_eq hevents (session_reply ..)
  | connectionAccepted a =>
      rcases session_accept c a with hsame | hconnected
      · exact .of_session_eq hevents hsame
      · exact .of_connected hconnected
  | connectionDenied =>
      refine .of_session_eq hevents ?_
      simp only [handlePacket]
      split
      · rfl
      · rfl
  | disconnect => exact .of_session_none hevents rfl
  | checkIntegrity index =>
      refine .of_session_eq hevents ?_
      simp only [handlePacket]
      split
      · exact session_reply ..
      · rfl
  | cookie cookie => exact .of_session_eq hevents (session_answerCookie ..)
  | reliable | unreliable | pong _ | ack _ | connect _ _ | error =>
      exact .of_session_eq hevents rfl

theorem advances_handlePlain (net : Network) (c : Client) (remote : Address) (b : Buffer) :
    Advances c (c.handlePlain net remote b).2 := by
  simp only [handlePlain]
  split
  · exact .count c _
  · split
    · exact .refl c
    · have hheard : Advances c c.heard := .of_same rfl rfl
      exact hheard.trans (advances_handlePacket net c.heard remote _ _)

theorem advances_handleDatagram (net : Network) (c : Client) (remote : Address) (bytes : Bytes) :
    Advances c (c.handleDatagram net remote bytes).2 := by
  simp only [handleDatagram]
  split
  · rename_i s header hheader
    refine .of_le ?_ (le_openSecure (session_of_secureHeader hheader) header bytes)
    simp only [openSecure]
    split
    · exact ⟨_, (events_raise _ _).symm⟩
    · exact ⟨[], by rw [events_countAll, List.append_nil]⟩
  · split
    · exact .of_same (events_answerCookie ..) (session_answerCookie ..)
    · have hloaded : Advances c (c.loadedBuffer bytes).2 := by
        refine .of_same (events_loadedBuffer ..) ?_
        simp only [loadedBuffer]
        split
        · rfl
        · rfl
      generalize c.loadedBuffer bytes = loaded at hloaded ⊢
      exact (hloaded.trans (advances_handlePlain net loaded.2 remote loaded.1)).trans
        (.of_same rfl rfl)

theorem advances_drain
    (net : Network) (remote : Address) (arrivals : List Arrival) (c : Client) :
    Advances c (drain net remote arrivals c).2 := by
  induction arrivals generalizing c with
  | nil => exact .refl c
  | cons arrival rest ih =>
      have hread : Advances c ((c.withInbox rest).read net remote arrival).2 := by
        have hinbox : Advances c (c.withInbox rest) := .of_same rfl rfl
        simp only [read]
        split
        · have hcounted := hinbox.trans (.count _ (.received arrival.datagram.length))
          split
          · exact hcounted
          · exact hcounted.trans (advances_handleDatagram net _ remote arrival.datagram)
        · exact hinbox
      rw [drain_cons]
      generalize (c.withInbox rest).read net remote arrival = outcome at hread ⊢
      obtain ⟨_ | _, after⟩ := outcome
      · exact hread.trans (ih after)
      · exact hread

theorem advances_poll (net : Network) (c : Client) : Advances c (c.poll net).2 := by
  have hread : Advances c (c.readSocket net).2 := by
    simp only [readSocket]
    split
    · exact (advances_drain net _ _ c).trans (.of_same rfl rfl)
    · exact .refl c
  simp only [poll]
  split
  · split
    · exact .of_session_none ⟨_, (events_raise _ _).symm⟩ rfl
    · exact hread
  · exact hread
  · exact .refl c
  · exact .refl c

theorem advances_pollTurn (net : Network) (c : Client) : Advances c (c.pollTurn net) := by
  have hpoll := advances_poll net c
  simp only [pollTurn]
  split
  · exact .refl c
  · generalize c.poll net = outcome at hpoll ⊢
    obtain ⟨_ | _, after⟩ := outcome
    · exact hpoll.trans (.of_same rfl rfl)
    · exact hpoll.trans (.of_same rfl rfl)

/-- Whatever happens to a client but a renewal of its keys, the counter of its session does not
go back, unless the link came up anew. -/
theorem advances_act
    (net : Network) (hc : c.Ready) {action : Action} (hkept : action ≠ .renewKeys) :
    Advances c (c.act net action).2 := by
  have hevents := prefix_of_unfolds (unfolds_act net hc action)
  have hattempt {host : String} {port : UInt16} {isRetry : Bool} {before : Client}
      (hbefore : before.session = c.session)
      (hevents : c.events <+: (before.attempt net host port isRetry).2.events) :
      Advances c (before.attempt net host port isRetry).2 := by
    rcases session_attempt net before host port isRetry with hsame | hnone
    · exact .of_session_eq hevents (hsame.trans hbefore)
    · exact .of_session_none hevents hnone
  cases action with
  | connect host port => exact hattempt rfl hevents
  | connectConfigured => exact hattempt rfl hevents
  | disconnect => exact .of_session_none hevents rfl
  | send contents => exact .of_le hevents (le_send net c contents)
  | sendAck sequence => exact .of_session_eq hevents (session_sendAck net c sequence)
  | renewKeys => exact absurd rfl hkept
  | retryTurn => exact .of_session_eq hevents (session_retryTurn c)
  | reconnect =>
      have htake := session_takeRetry c
      simp only [act, reconnect] at hevents ⊢
      generalize c.takeRetry = taken at htake hevents ⊢
      obtain ⟨_ | ⟨host, port⟩, after⟩ := taken
      · exact .of_session_eq hevents htake
      · exact hattempt htake hevents
  | pollTurn => exact advances_pollTurn net c
  | setConnectTimeout _ | setRetryInterval _ | setRetryEnabled _ | deliver _ | elapse _ =>
      exact .of_session_eq hevents rfl

end Datagrams

end Client
end GameLink
