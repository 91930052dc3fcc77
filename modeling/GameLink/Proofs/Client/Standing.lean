import GameLink.Client.Run
import GameLink.Proofs.Session.Operations

/-!
# Where a client stands

What a client is to its server at a moment: the state of its link, whether it has a
socket and a session, and the keys of its attempt.  Buffers, timers, counters, workers
and the contents of the socket are left out.

**Results.**
* Sending, acknowledging, answering, renewing keys and opening sealed datagrams leave a
  client where it stands (`standing_send`, `standing_openSecure` and others).
-/

namespace GameLink

/-- What a client is to its server. -/
structure Standing where
  setup : Setup
  status : LinkStatus
  remote : Option Address
  clientId : Option UInt32
  keyPair : Option KeyPair
  hasSocket : Bool
  /-- The connection number of the session. -/
  sessionId : Option UInt32

/-- Whether links are to be encrypted. -/
def Standing.isEncrypting (s : Standing) : Bool :=
  s.setup.settings.security.encryptionEnabled

namespace Client

/-- Where a client stands. -/
def standing (c : Client) : Standing where
  setup := c.setup
  status := c.link.status
  remote := c.link.remote
  clientId := c.link.clientId
  keyPair := c.link.keyPair
  hasSocket := c.socket.isSome
  sessionId := c.session.map Session.connectionId

variable {net : Network} {c : Client}

@[simp] theorem standing_count (c : Client) (tally : Tally) :
    (c.count tally).standing = c.standing := by
  rfl

@[simp] theorem standing_countAll (c : Client) (tallies : List Tally) :
    (c.countAll tallies).standing = c.standing := by
  induction tallies generalizing c with
  | nil => rfl
  | cons tally rest ih => exact ih (c.count tally)

@[simp] theorem standing_recycle (c : Client) (b : Buffer) :
    (c.recycle b).standing = c.standing := by
  rfl

@[simp] theorem standing_startPollWorker (c : Client) :
    c.startPollWorker.standing = c.standing := by
  rfl

@[simp] theorem standing_withInbox (c : Client) (inbox : List Arrival) :
    (c.withInbox inbox).standing = c.standing := by
  simp [withInbox, standing]

@[simp] theorem standing_deliver (c : Client) (arrival : Arrival) :
    (c.deliver arrival).standing = c.standing := by
  simp [deliver, standing]

/-- A session with the same connection number in place of the session. -/
theorem standing_withSession
    {s s' : Session} (hs : c.session = some s) (hid : s'.connectionId = s.connectionId) :
    ({ c with session := some s' } : Client).standing = c.standing := by
  simp [standing, hs, hid]

@[simp] theorem standing_renewKeys (c : Client) :
    c.renewKeys.2.standing = c.standing := by
  simp only [renewKeys]
  cases hs : c.session with
  | none => rfl
  | some s => exact standing_withSession hs rfl

@[simp] theorem standing_transmit
    (net : Network) (c : Client) (remote : Address) (datagram : Bytes) :
    (c.transmit net remote datagram).2.standing = c.standing := by
  simp only [transmit]
  split
  · rfl
  · rfl

@[simp] theorem standing_signed (c : Client) (bytes : Bytes) :
    (c.signed bytes).2.standing = c.standing := by
  simp only [signed]
  cases c.checkSize (bytes.length + Buffer.signatureSize) with
  | error failure => rfl
  | ok _ =>
      dsimp only
      split
      · rfl
      · rfl

theorem connectionId_of_sealPayload
    {s s' : Session} {header : Header} {payload : Bytes} {packed : Packed}
    {tallies : List Tally}
    (h : c.sealPayload s header payload = .ok (packed, tallies, s')) :
    s'.connectionId = s.connectionId := by
  simp only [sealPayload] at h
  split at h
  · obtain ⟨sealed, hsealed, -⟩ := Session.sealPacked_eq_ok_iff.mp h
    exact Session.connectionId_of_sealNext hsealed
  · cases hsealed : s.sealNext c.setup.suite payload header.associatedData with
    | error failure =>
        rw [hsealed] at h
        cases h
    | ok outcome =>
        rw [hsealed] at h
        cases h
        exact Session.connectionId_of_sealNext hsealed

@[simp] theorem standing_sealOutbound (c : Client) (bytes : Bytes) :
    (c.sealOutbound bytes).2.standing = c.standing := by
  unfold sealOutbound
  split
  · rename_i channel s hchannel hs
    dsimp only
    split
    · rfl
    · rename_i packed tallies s' hsealed
      rw [standing_countAll]
      exact standing_withSession hs (connectionId_of_sealPayload hsealed)
  · rfl

@[simp] theorem standing_send (net : Network) (c : Client) (bytes : Bytes) :
    (c.send net bytes).2.standing = c.standing := by
  simp only [send]
  split
  · rfl
  · cases c.route with
    | none => rfl
    | some remote =>
        have hsealed := standing_sealOutbound c bytes
        dsimp only
        generalize c.sealOutbound bytes = outcome at hsealed ⊢
        rcases outcome with ⟨failure | _ | datagram, after⟩
        · exact hsealed
        · have hsigned := standing_signed after bytes
          dsimp only
          generalize after.signed bytes = signing at hsigned ⊢
          rcases signing with ⟨failure | b, last⟩
          · exact hsigned.trans hsealed
          · rw [standing_recycle, standing_transmit]
            exact hsigned.trans hsealed
        · rw [standing_transmit]
          exact hsealed

@[simp] theorem standing_sendAck (net : Network) (c : Client) (sequence : UInt16) :
    (c.sendAck net sequence).2.standing = c.standing := by
  simp only [sendAck]
  cases c.route with
  | none => rfl
  | some remote =>
      dsimp only
      rw [standing_recycle, standing_transmit]
      rfl

@[simp] theorem standing_reply
    (net : Network) (c : Client) (remote : Address) (packet : Packet) :
    (c.reply net remote packet).standing = c.standing := by
  simp only [reply]
  split
  · rfl
  · rfl

@[simp] theorem standing_answerCookie
    (net : Network) (c : Client) (remote : Address) (cookie : Octets cookieSize) :
    (c.answerCookie net remote cookie).standing = c.standing := by
  unfold answerCookie
  split
  · split
    · rfl
    · dsimp only
      split
      · rfl
      · rfl
  · rfl

@[simp] theorem standing_loadedBuffer (c : Client) (bytes : Bytes) :
    (c.loadedBuffer bytes).2.standing = c.standing := by
  simp only [loadedBuffer]
  split
  · rfl
  · rfl

theorem session_of_secureHeader
    {bytes : Bytes} {s : Session} {header : Header}
    (h : c.secureHeader? bytes = some (s, header)) :
    c.session = some s := by
  simp only [secureHeader?] at h
  split at h
  · cases h
  · split at h
    · rename_i s' header' hs hheader
      split at h
      · cases h
        exact hs
      · cases h
    · cases h

theorem standing_openSecure
    {s : Session} (hs : c.session = some s) (header : Header) (bytes : Bytes) :
    (c.openSecure s header bytes).standing = c.standing := by
  simp only [openSecure]
  split
  · rename_i message s' hopen
    exact standing_withSession hs (Session.connectionId_of_openPacked hopen)
  · rw [standing_countAll]

end Client
end GameLink
