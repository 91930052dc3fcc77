import GameLink.Proofs.Client.Books
import GameLink.Proofs.Client.Deliveries

/-!
# Which datagrams a client reads

A look at the socket reads datagrams of the server, empty ones too, until the socket is empty or
a datagram ends the reading.  Each is counted with its length, and once more if it is refused; some
are answered.

**Refusals.** A datagram of the secure channel is refused by the replay window or by the cipher.
A plain one is refused for its signature.

**Results.**
* `refusals_of_secure`: a datagram of the secure channel is refused as the session counts it.
* `books_handleDatagram`: what is done about a datagram.
* `books_poll`: what is done in a look at the link and the socket.
-/

namespace GameLink
namespace Client

/-- What is sent in answer to a packet. -/
def answerPosts (c : Client) : Packet → List Post
  | .ping timestamp => [.packet c.pool.bufferCapacity (.pong timestamp)]
  | .checkIntegrity index =>
      if c.setup.settings.security.integrityCheckEnabled then
        [.packet c.pool.bufferCapacity (.checkIntegrity (c.setup.integrity.key index))]
      else
        []
  | .cookie cookie => c.cookiePosts cookie
  | _ => []

/-- What is sent in answer to a plain datagram. -/
def plainPosts (c : Client) (bytes : Bytes) : List Post :=
  match signedBody? bytes with
  | none => []
  | some body =>
      match (Packet.decode (.ofBytes body)).1 with
      | .ok packet => c.answerPosts packet
      | .error _ => []

namespace Handling

/-- What is sent in answer to a datagram. -/
def posts (h : Handling) : List Post :=
  match h.client.secureHeader? h.datagram with
  | some _ => []
  | none =>
      match bareCookie? h.datagram with
      | some cookie => h.client.cookiePosts cookie
      | none => h.client.plainPosts h.datagram

/-- The answers to a datagram that the network takes. -/
def sent (net : Network) (remote : Address) (h : Handling) : List Post :=
  h.client.carried net remote h.posts

/-- The session, the header and the sealed payload of a datagram of the secure channel, if it can
be unpacked. -/
def sealed? (h : Handling) : Option (Session × Header × Bytes) :=
  match h.client.secureHeader? h.datagram with
  | none => none
  | some (s, header) =>
      match Packing.unpack ⟨h.datagram.drop Header.size, header.flags.compressed⟩ with
      | .ok sealed => some (s, header, sealed)
      | .error _ => none

/-- Whether the replay window refuses a datagram of the secure channel. -/
def isReplayed (h : Handling) : Bool :=
  match h.sealed? with
  | some (s, header, _) => !s.received.isFresh header.sequence
  | none => false

/-- Whether the cipher refuses a datagram of the secure channel. -/
def isForged (h : Handling) : Bool :=
  match h.sealed? with
  | some (s, header, sealed) =>
      s.received.isFresh header.sequence &&
        (h.client.setup.suite.open? s.receiveKey (s.nonce header.sequence)
          header.associatedData sealed).isNone
  | none => false

/-- Whether a plain datagram is not signed.  There is nothing to be said of an empty one. -/
def isUnsigned (h : Handling) : Bool :=
  h.datagram ≠ [] && (h.client.secureHeader? h.datagram).isNone &&
    (bareCookie? h.datagram).isNone && (signedBody? h.datagram).isNone

/-- What is counted of a datagram that is refused. -/
def refusals (h : Handling) : List Tally :=
  (if h.isUnsigned then [.checksumFailure] else []) ++
    ((if h.isReplayed then [.replayRejection] else []) ++
      (if h.isForged then [.decryptFailure] else []))

/-- What is counted of a datagram that is read. -/
def notices (h : Handling) : List Tally :=
  .received h.datagram.length :: h.refusals

theorem isNotice_of_refusals (h : Handling) : ∀ tally ∈ h.refusals, tally.isNotice = true := by
  intro tally htally
  simp only [refusals, List.mem_append] at htally
  rcases htally with hunsigned | hreplayed | hforged
  · split at hunsigned
    · rw [List.mem_singleton.mp hunsigned]
      rfl
    · cases hunsigned
  · split at hreplayed
    · rw [List.mem_singleton.mp hreplayed]
      rfl
    · cases hreplayed
  · split at hforged
    · rw [List.mem_singleton.mp hforged]
      rfl
    · cases hforged

end Handling

variable {net : Network} {c : Client}

section SecureChannel

theorem sealed?_of_plain {bytes : Bytes} (h : c.secureHeader? bytes = none) :
    Handling.sealed? ⟨c, bytes⟩ = none := by
  simp only [Handling.sealed?, h]

theorem refusals_of_plain {bytes : Bytes} (h : c.secureHeader? bytes = none) :
    Handling.refusals ⟨c, bytes⟩ =
      if (Handling.isUnsigned ⟨c, bytes⟩) then [.checksumFailure] else [] := by
  simp only [Handling.refusals, Handling.isReplayed, Handling.isForged, sealed?_of_plain h,
    Bool.false_eq_true, if_false, List.append_nil]

/-- What is counted of a payload that is not opened. -/
def openingNotices {α : Type} : Except Failure α → List Tally
  | .ok _ => []
  | .error failure => Session.openingTallies failure

theorem openingNotices_openAt (suite : Suite) (s : Session) (sealed associated : Bytes)
    (sequence : UInt64) :
    openingNotices (s.openAt suite sealed associated sequence) =
      (if !s.received.isFresh sequence then [.replayRejection] else []) ++
        (if s.received.isFresh sequence &&
            (suite.open? s.receiveKey (s.nonce sequence) associated sealed).isNone then
          [.decryptFailure]
        else
          []) := by
  simp only [Session.openAt]
  by_cases hfresh : s.received.isFresh sequence = true
  · rw [if_pos hfresh, hfresh]
    cases suite.open? s.receiveKey (s.nonce sequence) associated sealed with
    | none => rfl
    | some message => rfl
  · rw [if_neg hfresh, Bool.eq_false_iff.mpr hfresh]
    rfl

/-- A payload that cannot be unpacked is not counted. -/
theorem openingTallies_of_unpack {packed : Packed} {failure : Failure}
    (h : Packing.unpack packed = .error failure) : Session.openingTallies failure = [] := by
  simp only [Packing.unpack, Block.decompress] at h
  split at h
  · split at h
    · cases h
    · cases h
      rfl
  · cases h

/-- A datagram of the secure channel is refused as the session counts it. -/
theorem refusals_of_secure {bytes : Bytes} {s : Session} {header : Header}
    (h : c.secureHeader? bytes = some (s, header)) :
    Handling.refusals ⟨c, bytes⟩ =
      openingNotices (s.openPacked c.setup.suite
        ⟨bytes.drop Header.size, header.flags.compressed⟩ header.associatedData
        header.sequence) := by
  have hsigned : Handling.isUnsigned ⟨c, bytes⟩ = false := by
    simp [Handling.isUnsigned, h]
  simp only [Handling.refusals, hsigned, Handling.isReplayed, Handling.isForged,
    Handling.sealed?, h, Session.openPacked]
  cases hpacked : Packing.unpack ⟨bytes.drop Header.size, header.flags.compressed⟩ with
  | error failure => exact (openingTallies_of_unpack hpacked).symm
  | ok sealed => exact (openingNotices_openAt _ _ _ _ _).symm

theorem notes_openSecure {bytes : Bytes} {s : Session} {header : Header}
    (h : c.secureHeader? bytes = some (s, header)) :
    Notes [] (Handling.refusals ⟨c, bytes⟩) c (c.openSecure s header bytes) := by
  have hnotices := Handling.isNotice_of_refusals ⟨c, bytes⟩
  rw [refusals_of_secure h] at hnotices ⊢
  simp only [openSecure]
  generalize s.openPacked c.setup.suite _ _ _ = outcome at hnotices ⊢
  rcases outcome with failure | ⟨message, s'⟩
  · exact .allNoticed c hnotices
  · exact (Notes.told _ rfl).after rfl

end SecureChannel

section PlainDatagrams

theorem books_handlePacket (hpool : c.pool.Uniform) (remote : Address) (b : Buffer)
    (packet : Packet) :
    Books 0 0 (c.carried net remote (c.answerPosts packet)) [] c
      (c.handlePacket net remote b packet).2 := by
  cases packet with
  | ping timestamp => exact books_reply hpool remote rfl
  | connectionAccepted a => exact .of_notes (notes_accept c a)
  | cookie cookie => exact .of_notes (notes_answerCookie net c remote cookie)
  | connectionDenied =>
      simp only [handlePacket]
      split
      · exact .of_notes ((Notes.told _ rfl).after rfl)
      · exact .refl c
  | checkIntegrity index =>
      simp only [handlePacket, answerPosts]
      split
      · exact books_reply hpool remote rfl
      · exact .refl c
  | reliable | unreliable => exact .of_notes (.told c rfl)
  | disconnect => exact .of_notes ((Notes.told c.dropLink rfl).after rfl)
  | pong _ | ack _ | connect _ _ | error => exact .refl c

/-- What is done about a plain datagram depends on its octets. -/
theorem books_handlePlain (net : Network) (hpool : c.pool.Uniform) (remote : Address)
    {b : Buffer} {bytes : Bytes} (hb : b.Loaded bytes) :
    Books 0 0 (c.carried net remote (c.plainPosts bytes))
      (if (signedBody? bytes).isNone then [.checksumFailure] else []) c
      (c.handlePlain net remote b).2 := by
  unfold plainPosts handlePlain
  cases hbody : signedBody? bytes with
  | none =>
      obtain ⟨failure, hverify⟩ := hb.verify_of_unsigned hbody
      rw [hverify]
      exact .of_notes (.noticed c rfl)
  | some body =>
      obtain ⟨rest, hverify, hrest⟩ := hb.verify_of_signed hbody
      have hsame := Packet.decode_congr hrest.left (Buffer.loaded_ofBytes body).left
      rw [hverify]
      dsimp only
      rw [← hsame]
      rcases Packet.decode rest with ⟨failure | packet, last⟩
      · exact .refl c
      · exact (books_handlePacket (c := c.heard) hpool remote last packet).after rfl

end PlainDatagrams

section Datagrams

/-- A client that a buffer was taken from answers as before. -/
theorem plainPosts_taken (c : Client) (bytes : Bytes) :
    c.taken.plainPosts bytes = c.plainPosts bytes := by
  have hanswer (packet : Packet) : c.taken.answerPosts packet = c.answerPosts packet := by
    cases packet with
    | ping timestamp => simp only [answerPosts, taken, Pool.bufferCapacity_acquire]
    | checkIntegrity index => simp only [answerPosts, taken, Pool.bufferCapacity_acquire]
    | _ => rfl
  simp only [plainPosts, hanswer]

/-- The buffer of a plain datagram is given back, or it was not from the pool. -/
theorem books_plain (net : Network) (hpool : c.pool.Uniform) (remote : Address)
    (bytes : Bytes) :
    let loaded := c.loadedBuffer bytes
    let after := (loaded.2.handlePlain net remote loaded.1).2
    Books 0 0 (c.carried net remote (c.plainPosts bytes))
      (if (signedBody? bytes).isNone then [.checksumFailure] else []) c
      { after with pool := after.pool.release thread loaded.1 } := by
  have hloaded := loaded_loadedBuffer bytes hpool
  simp only [loadedBuffer] at hloaded ⊢
  split at hloaded
  · rename_i hfits
    rw [if_pos hfits]
    have htaken : Books 0 1 [] [] c c.taken := .pooled (.acquire thread c.pool)
    have hplain := (books_handlePlain net (c := c.taken) (hpool.acquire thread) remote
      hloaded).beside 1
    rw [plainPosts_taken] at hplain
    refine (htaken.trans hplain).then_pooled (.release ?_ thread)
    rw [hplain.traffic.bufferCapacity, taken, Pool.bufferCapacity_acquire,
      ← hpool.capacity_acquire thread]
    simp only [Buffer.load, Buffer.capacity, List.length_append, List.length_take,
      List.length_drop]
    omega
  · rename_i hlarge
    rw [if_neg hlarge]
    have hplain := books_handlePlain net hpool remote hloaded
    have hother : (Buffer.ofBytes bytes).capacity ≠
        (c.handlePlain net remote (Buffer.ofBytes bytes)).2.pool.bufferCapacity := by
      rw [hplain.traffic.bufferCapacity]
      exact fun heq => hlarge (Nat.le_of_eq heq)
    simp only [Pool.release, if_neg hother]
    exact hplain

/-- What is done about a datagram. -/
theorem books_handleDatagram (net : Network) (hpool : c.pool.Uniform) (remote : Address)
    {bytes : Bytes} (hbytes : bytes ≠ []) :
    Books 0 0 (Handling.sent net remote ⟨c, bytes⟩) (Handling.refusals ⟨c, bytes⟩) c
      (c.handleDatagram net remote bytes).2 := by
  simp only [Handling.sent, Handling.posts, handleDatagram]
  cases hheader : c.secureHeader? bytes with
  | some secure => exact .of_notes (notes_openSecure hheader)
  | none =>
      rw [refusals_of_plain hheader]
      cases hcookie : bareCookie? bytes with
      | some cookie =>
          have hsigned : Handling.isUnsigned ⟨c, bytes⟩ = false := by
            simp [Handling.isUnsigned, hcookie]
          rw [hsigned]
          exact .of_notes (notes_answerCookie net c remote cookie)
      | none =>
          have hsigned : Handling.isUnsigned ⟨c, bytes⟩ = (signedBody? bytes).isNone := by
            simp [Handling.isUnsigned, hheader, hcookie, hbytes]
          rw [hsigned]
          exact books_plain net hpool remote bytes

end Datagrams

section Bursts

/-- The datagrams of the server that are read, with the client at each, empty ones included. -/
def readings (net : Network) (remote : Address) : List Arrival → Client → List Handling
  | [], _ => []
  | arrival :: rest, c =>
      let c := c.withInbox rest
      if arrival.sender = remote then
        let c := c.count (.received arrival.datagram.length)
        ⟨c, arrival.datagram⟩ ::
          if arrival.datagram = [] then
            readings net remote rest c
          else
            match c.handleDatagram net remote arrival.datagram with
            | (.stop, _) => []
            | (.goOn, c) => readings net remote rest c
      else
        readings net remote rest c

/-- The server and the datagrams in the socket, if there are both. -/
def inbound? (c : Client) : Option (Address × List Arrival) :=
  match c.link.remote, c.socket with
  | some remote, some socket => some (remote, socket.inbox)
  | _, _ => none

/-- The server and the datagrams in the socket, if a look goes on to read it. -/
def looks? (c : Client) : Option (Address × List Arrival) :=
  match c.link.status with
  | .connected =>
      let silence := c.link.lastActivity.since c.now
      if c.setup.settings.client.keepaliveTimeout < silence then none else c.inbound?
  | .connecting => c.inbound?
  | .connectionFailed | .disconnected => none

/-- What is read of the datagrams of a server, if there are any. -/
def readingsOf (net : Network) (c : Client) : Option (Address × List Arrival) → List Handling
  | some (remote, inbox) => readings net remote inbox c
  | none => []

/-- What is sent in answer to the datagrams of a server, if there are any. -/
def answersTo (net : Network) (c : Client) : Option (Address × List Arrival) → List Post
  | some (remote, inbox) => (readings net remote inbox c).flatMap (Handling.sent net remote)
  | none => []

/-- An empty datagram is neither answered nor refused. -/
theorem ignored_empty (net : Network) (remote : Address) (c : Client) :
    Handling.sent net remote ⟨c, []⟩ = [] ∧ Handling.refusals ⟨c, []⟩ = [] := by
  have hheader : c.secureHeader? [] = none := if_pos (by decide)
  have hsigned : signedBody? [] = none := by decide
  constructor
  · simp only [Handling.sent, Handling.posts, hheader, plainPosts, hsigned]
    rfl
  · rw [refusals_of_plain hheader]
    rfl

/-- What is done about a burst of datagrams. -/
theorem books_drain (net : Network) (remote : Address) (arrivals : List Arrival)
    (hpool : c.pool.Uniform) :
    Books 0 0 ((readings net remote arrivals c).flatMap (Handling.sent net remote))
      ((readings net remote arrivals c).flatMap Handling.notices) c
      (drain net remote arrivals c).2 := by
  induction arrivals generalizing c with
  | nil => exact .refl c
  | cons arrival rest ih =>
      simp only [drain, readings]
      split
      · have hcounted : Books 0 0 [] [.received arrival.datagram.length] c
            ((c.withInbox rest).count (.received arrival.datagram.length)) :=
          (Books.of_notes (.noticed (c.withInbox rest) rfl)).after rfl
        have huniform := hcounted.uniform hpool
        generalize (c.withInbox rest).count (.received arrival.datagram.length) = counted
          at hcounted huniform ⊢
        rw [List.flatMap_cons, List.flatMap_cons, Handling.notices]
        by_cases hempty : arrival.datagram = []
        · obtain ⟨hsent, hrefusals⟩ := ignored_empty net remote counted
          have hrest := hcounted.trans (ih huniform)
          rw [if_pos hempty, if_pos hempty, hempty, hsent, hrefusals]
          rw [hempty] at hrest
          exact hrest
        · have hhandled := books_handleDatagram net huniform remote hempty
          have hone := hcounted.trans hhandled
          have hafter := hhandled.uniform huniform
          rw [if_neg hempty, if_neg hempty]
          generalize counted.handleDatagram net remote arrival.datagram = outcome at hone hafter ⊢
          obtain ⟨_ | _, after⟩ := outcome
          · exact hone.trans (ih hafter)
          · rw [List.flatMap_nil, List.flatMap_nil, List.append_nil, List.append_nil]
            exact hone
      · exact (ih (c := c.withInbox rest) hpool).after rfl

theorem books_readSocket (net : Network) (hpool : c.pool.Uniform) :
    Books 0 0 (c.answersTo net c.inbound?)
      ((c.readingsOf net c.inbound?).flatMap Handling.notices) c (c.readSocket net).2 := by
  simp only [inbound?, readSocket]
  cases c.link.remote with
  | none => exact .refl c
  | some remote =>
      cases c.socket with
      | none => exact .refl c
      | some socket =>
          exact (books_drain net remote socket.inbox hpool).then_pooled (.merge thread _)

/-- What is done in a look at the link and the socket. -/
theorem books_poll (net : Network) (hpool : c.pool.Uniform) :
    Books 0 0 (c.answersTo net c.looks?) ((c.readingsOf net c.looks?).flatMap Handling.notices) c
      (c.poll net).2 := by
  simp only [looks?, poll]
  cases c.link.status with
  | connected =>
      dsimp only
      split
      · exact .of_notes ((Notes.told c.dropLink rfl).after rfl)
      · exact books_readSocket net hpool
  | connecting => exact books_readSocket net hpool
  | connectionFailed | disconnected => exact .refl c

end Bursts

end Client
end GameLink
