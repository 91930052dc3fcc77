import GameLink.Proofs.Client.Course
import GameLink.Proofs.Client.Doings
import GameLink.Proofs.Client.Journal
import GameLink.Proofs.PoolThreads

/-!
# What a step does to the ledger

A step writes into the journal and uses buffers of the pool, and leaves the setup as it is.

**Algorithm.** For each step it is said once which datagrams it sends, which tallies it counts by
themselves, how many buffers it gives back that were in use before, and how many it leaves in use
(`Books`); steps that use no buffer are told apart (`Notes`).  All that is said of journal and pool
later follows from this.

**Results.**
* `Notes.trans`, `Books.trans`: what one step does after another.
* `notes_transmit`, `books_reply`, `notes_answerCookie`: the steps that send.
* `books_prepare`, `books_finishSending`, `books_carryOut`: the parts of a call to send.
-/

namespace GameLink
namespace Client

/-- What is written down from one client to the next; no buffer is used. -/
structure Notes (posts : List Post) (notices : List Tally) (c c' : Client) : Prop where
  setup : c'.setup = c.setup
  pool : c'.pool = c.pool
  journal : ∃ added, c'.journal = c.journal ++ added ∧ Records posts notices added

/-- What is written down from one client to the next, while on its thread `n` buffers are given
back and `m` are taken. -/
structure Books (n m : Nat) (posts : List Post) (notices : List Tally) (c c' : Client) :
    Prop where
  setup : c'.setup = c.setup
  traffic : Pool.Traffic thread n m c.pool c'.pool
  journal : ∃ added, c'.journal = c.journal ++ added ∧ Records posts notices added

variable {c c' c'' : Client} {n m k : Nat} {posts posts' : List Post}
  {notices notices' : List Tally}

namespace Notes

theorem of_ledger (h : c'.ledger = c.ledger) : Notes [] [] c c' where
  setup := congrArg Ledger.setup h
  pool := congrArg Ledger.pool h
  journal := ⟨[], (congrArg Ledger.journal h).trans (List.append_nil _).symm, .nil⟩

theorem refl (c : Client) : Notes [] [] c c :=
  of_ledger rfl

/-- What one step writes after another. -/
theorem trans (h : Notes posts notices c c') (h' : Notes posts' notices' c' c'') :
    Notes (posts ++ posts') (notices ++ notices') c c'' where
  setup := h'.setup.trans h.setup
  pool := h'.pool.trans h.pool
  journal := by
    obtain ⟨added, hjournal, hrecords⟩ := h.journal
    obtain ⟨added', hjournal', hrecords'⟩ := h'.journal
    refine ⟨added ++ added', ?_, hrecords.append hrecords'⟩
    rw [hjournal', hjournal, List.append_assoc]

theorem after (h : Notes posts notices c' c'') (hledger : c'.ledger = c.ledger) :
    Notes posts notices c c'' :=
  (of_ledger hledger).trans h

theorem sent (c : Client) (peer : Address) (p : Post) :
    Notes [p] [] c (c.noteSent peer p.datagram) where
  setup := rfl
  pool := rfl
  journal := ⟨[.sent peer p.datagram, .counted (.sent p.datagram.length)],
    by simp [noteSent, count, note], .post peer p⟩

theorem failed (c : Client) :
    Notes [] [] c ((c.count .connectionError).raise .connectionError) where
  setup := rfl
  pool := rfl
  journal := ⟨[.counted .connectionError, .raised .connectionError],
    by simp [count, raise, note], .failure⟩

theorem accepted (c : Client) (clientId : Option UInt32) :
    Notes [] [] c ((c.count .connectionEstablished).raise (.connected clientId)) where
  setup := rfl
  pool := rfl
  journal := ⟨[.counted .connectionEstablished, .raised (.connected clientId)],
    by simp [count, raise, note], .accepted clientId⟩

theorem told (c : Client) {event : Event} (h : event.isUncounted = true) :
    Notes [] [] c (c.raise event) where
  setup := rfl
  pool := rfl
  journal := ⟨[.raised event], rfl, .told h⟩

theorem noticed (c : Client) {tally : Tally} (h : tally.isNotice = true) :
    Notes [] [tally] c (c.count tally) where
  setup := rfl
  pool := rfl
  journal := ⟨[.counted tally], rfl, .notice h⟩

theorem allNoticed (c : Client) {tallies : List Tally}
    (h : ∀ tally ∈ tallies, tally.isNotice = true) : Notes [] tallies c (c.countAll tallies) where
  setup := setup_countAll c tallies
  pool := pool_countAll c tallies
  journal := ⟨tallies.map Effect.counted, journal_countAll c tallies, .allNotices h⟩

theorem of_packs (h : Packs c c') : Notes [] [] c c' where
  setup := h.setup
  pool := h.pool
  journal := by
    obtain ⟨tallies, hpacking, hjournal⟩ := h.journal
    exact ⟨tallies.map Effect.counted, hjournal, .allPacking hpacking⟩

end Notes

section BufferSteps

namespace Books

theorem of_notes (h : Notes posts notices c c') : Books n n posts notices c c' where
  setup := h.setup
  traffic := h.pool ▸ .refl thread n c.pool
  journal := h.journal

theorem refl (c : Client) : Books n n [] [] c c :=
  of_notes (.refl c)

/-- What one step does after another. -/
theorem trans (h : Books n m posts notices c c') (h' : Books m k posts' notices' c' c'') :
    Books n k (posts ++ posts') (notices ++ notices') c c'' where
  setup := h'.setup.trans h.setup
  traffic := h.traffic.trans h'.traffic
  journal := by
    obtain ⟨added, hjournal, hrecords⟩ := h.journal
    obtain ⟨added', hjournal', hrecords'⟩ := h'.journal
    refine ⟨added ++ added', ?_, hrecords.append hrecords'⟩
    rw [hjournal', hjournal, List.append_assoc]

theorem after (h : Books n m posts notices c' c'') (hledger : c'.ledger = c.ledger) :
    Books n m posts notices c c'' :=
  (of_notes (.of_ledger hledger)).trans h

theorem beside (h : Books n m posts notices c c') (k : Nat) :
    Books (k + n) (k + m) posts notices c c' where
  setup := h.setup
  traffic := h.traffic.beside k
  journal := h.journal

/-- A step that only uses the pool. -/
theorem pooled {pool : Pool} (h : Pool.Traffic thread n m c.pool pool) :
    Books n m [] [] c { c with pool } where
  setup := rfl
  traffic := h
  journal := ⟨[], (List.append_nil _).symm, .nil⟩

/-- A step after which only the pool is used. -/
theorem then_pooled (h : Books n m posts notices c c') {pool : Pool}
    (htraffic : Pool.Traffic thread m k c'.pool pool) :
    Books n k posts notices c { c' with pool } where
  setup := h.setup
  traffic := h.traffic.trans htraffic
  journal := h.journal

theorem uniform (h : Books n m posts notices c c') (hpool : c.pool.Uniform) : c'.pool.Uniform :=
  h.traffic.uniform hpool

end Books

variable {net : Network}

end BufferSteps

section SendingSteps

/-- Those datagrams that the network takes. -/
def carried (net : Network) (c : Client) (remote : Address) (posts : List Post) : List Post :=
  posts.filter fun p => c.isCarried net remote p.datagram

theorem carried_singleton (net : Network) (c : Client) (remote : Address) (p : Post) :
    c.carried net remote [p] = if c.isCarried net remote p.datagram then [p] else [] := by
  rw [carried, List.filter_cons, List.filter_nil]

theorem notes_transmit (net : Network) (c : Client) (remote : Address) (p : Post) :
    Notes (c.carried net remote [p]) [] c (c.transmit net remote p.datagram).2 := by
  rw [carried_singleton]
  simp only [transmit]
  split
  · exact .sent c remote p
  · exact .failed c

/-- A step that gives up quietly what the network does not take. -/
theorem notes_noteSent (net : Network) (c : Client) (remote : Address) (p : Post) :
    Notes (c.carried net remote [p]) [] c
      (if c.isCarried net remote p.datagram then c.noteSent remote p.datagram else c) := by
  rw [carried_singleton]
  split
  · exact .sent c remote p
  · exact .refl c

theorem books_reply (hpool : c.pool.Uniform) (remote : Address) {p : Packet}
    (hnumber : p.number?.isSome) :
    Books 0 0 (c.carried net remote [.packet c.pool.bufferCapacity p]) [] c
      (c.reply net remote p) := by
  have hdatagram := Packet.contents_sign_encode (hpool.spare_acquire thread) hnumber
  have htaken : Books 0 1 [] [] c c.taken := .pooled (.acquire thread c.pool)
  have hsent := notes_noteSent net c.taken remote (.packet c.pool.bufferCapacity p)
  have hcapacity : (p.encode (c.pool.acquire thread).1).sign.capacity =
      (if c.taken.isCarried net remote (Post.packet c.pool.bufferCapacity p).datagram then
        c.taken.noteSent remote (Post.packet c.pool.bufferCapacity p).datagram
      else
        c.taken).pool.bufferCapacity := by
    rw [hsent.pool, Buffer.capacity_sign, Packet.capacity_encode, hpool.capacity_acquire]
    exact (Pool.bufferCapacity_acquire _ _).symm
  simp only [reply, hdatagram]
  exact (htaken.trans (.of_notes hsent)).then_pooled (.release hcapacity thread)

/-- What is sent in answer to a cookie. -/
def cookiePosts (c : Client) (cookie : Octets cookieSize) : List Post :=
  if c.link.status = .connecting ∧ !c.link.cookieAnswered then
    match c.link.keyPair with
    | none => []
    | some pair => [.request (some pair.publicKey) (some cookie)]
  else
    []

theorem notes_answerCookie (net : Network) (c : Client) (remote : Address)
    (cookie : Octets cookieSize) :
    Notes (c.carried net remote (c.cookiePosts cookie)) [] c
      (c.answerCookie net remote cookie) := by
  unfold answerCookie cookiePosts
  split
  · cases c.link.keyPair with
    | none => exact .refl c
    | some pair =>
        have hsent := notes_noteSent net
          { c with link := { c.link with cookieAnswered := true } } remote
          (.request (some pair.publicKey) (some cookie))
        exact hsent.after rfl
  · exact .refl c

theorem notes_sendRequest (net : Network) (c : Client) (remote : Address)
    (pair : Option KeyPair) :
    Notes (c.carried net remote [.request (pair.map KeyPair.publicKey) none]) [] c
      (c.sendRequest net remote pair).2 := by
  have hdatagram : request (pair.map KeyPair.publicKey) none =
      (Post.request (pair.map KeyPair.publicKey) none).datagram := rfl
  rw [carried_singleton]
  simp only [sendRequest, hdatagram]
  split
  · exact .sent c remote _
  · exact .refl c

end SendingSteps

section Attempts

theorem notes_failAttempt (c : Client) (generation : Nat) :
    Notes [] [] c (c.failAttempt generation) := by
  have hentered : ({ c with link := c.link.enter .connectionFailed c.now } : Client).ledger =
      c.ledger := rfl
  simp only [failAttempt]
  split
  · exact (Notes.failed _).after hentered
  · exact .refl c

theorem notes_establish (c : Client) (clientId : Option UInt32) :
    Notes [] [] c (c.establish clientId) := by
  have haccepted := Notes.accepted
    { c with
      link := { c.link.enter .connected c.now with clientId, lastActivity := c.now } } clientId
  exact haccepted.after rfl

theorem notes_accept (c : Client) (a : Acceptance) : Notes [] [] c (c.accept a) := by
  unfold accept
  split
  · dsimp only
    split
    · exact (notes_establish _ a.clientId).after rfl
    · split
      · exact (notes_failAttempt _ _).after rfl
      · exact (notes_establish _ a.clientId).after rfl
  · exact .refl c

theorem notes_retryTick (c : Client) : Notes [] [] c c.retryTick.2 := by
  have hentered : ({ c with link := c.link.enter .connectionFailed c.now } : Client).ledger =
      c.ledger := rfl
  have hlooks := looks_retryTick c
  generalize c.retryTick = outcome at hlooks ⊢
  cases hlooks with
  | timedOut => exact (Notes.failed _).after hentered
  | waited | stopped => exact .refl c
  | decided => exact .of_ledger rfl

theorem ledger_openSocket (net : Network) (c : Client) (host : String) (port : UInt16) :
    (c.openSocket net host port).2.ledger = c.ledger := by
  simp only [openSocket]
  split
  · rfl
  · split
    · simp only [drawKeyPair]
      split
      · rfl
      · rfl
    · rfl

end Attempts

end Client

section SendCalls

/-- How many buffers a parcel keeps in use. -/
def Parcel.lent : Parcel → Nat
  | .sealed _ => 0
  | .pooled _ => 1

/-- The datagram of a call that waits for the socket. -/
def SendingProgress.posting? : SendingProgress → Option Posting
  | .waiting posting => some posting
  | .connected _ | .addressed .. | .routed .. | .returned _ => none

/-- How many buffers a call keeps in use. -/
def SendingProgress.lent (sending : SendingProgress) : Nat :=
  (sending.posting?.map fun posting => posting.parcel.lent).getD 0

namespace Client

variable {c : Client} {net : Network}

theorem posting?_findRemote (message : OutgoingMessage) :
    (c.findRemote message).posting? = none := by
  unfold findRemote
  split
  · rfl
  · rfl

theorem posting?_findSocket (message : OutgoingMessage) (remote : Address) :
    (c.findSocket message remote).posting? = none := by
  unfold findSocket
  split
  · rfl
  · rfl

theorem posting?_beginSending (message : OutgoingMessage) :
    (c.beginSending message).posting? = none := by
  cases message with
  | data contents =>
      simp only [beginSending]
      split
      · rfl
      · rfl
  | ack sequence => exact posting?_findRemote _

theorem books_prepare (hpool : c.pool.Uniform) (remote : Address) (message : OutgoingMessage) :
    Books 0 (SendingProgress.ofPrepared (c.prepare remote message).1).lent [] [] c
      (c.prepare remote message).2 := by
  have hprepares := prepares hpool remote message
  generalize c.prepare remote message = outcome at hprepares ⊢
  cases hprepares with
  | failed hfailure hpacks => exact .of_notes (.of_packs hpacks)
  | refused hlimit hcapacity => exact .pooled (.of_returned hpool thread rfl)
  | sealed hf hpacks => exact .of_notes (.of_packs hpacks)
  | signed hroom hcapacity hcontents => exact .pooled (.acquire thread c.pool)
  | ack sequence hcapacity hcontents => exact .pooled (.acquire thread c.pool)

theorem books_finishSending (net : Network) {posting : Posting}
    (h : posting.Sound c.setup c.pool.bufferCapacity) :
    Books posting.parcel.lent 0 (c.carried net posting.remote [posting.post]) [] c
      (c.finishSending net posting).2 := by
  have hsent := notes_transmit net c posting.remote posting.post
  have hrecycled {b : Buffer} (hb : b.capacity = c.pool.bufferCapacity) :
      Books 1 0 (c.carried net posting.remote [posting.post]) [] c
        ((c.transmit net posting.remote posting.post.datagram).2.recycle b) := by
    rw [← hsent.pool] at hb
    exact (Books.of_notes hsent).then_pooled ((Pool.Traffic.release hb thread).trans (.merge _ _))
  cases h with
  | sealed remote hf => exact .of_notes hsent
  | signed remote hroom hcapacity hcontents => exact hrecycled hcapacity
  | ack sequence remote hcapacity hcontents => exact hrecycled hcapacity

/-- What is sent by a call to send without a pause. -/
def callPosts (net : Network) (c : Client) (message : OutgoingMessage) : List Post :=
  match c.way? message with
  | none => []
  | some remote =>
      match c.prepare remote message with
      | (.ok posting, c) => c.carried net posting.remote [posting.post]
      | (.error _, _) => []

theorem books_carryOut (hpool : c.pool.Uniform) (message : OutgoingMessage) :
    Books 0 0 (c.callPosts net message) [] c (c.carryOut net message).2 := by
  simp only [callPosts, carryOut]
  cases c.way? message with
  | none => exact .refl c
  | some remote =>
      have hprepares := prepares hpool remote message
      have hprepared := books_prepare hpool remote message
      dsimp only
      generalize c.prepare remote message = outcome at hprepares hprepared ⊢
      obtain ⟨failure | posting, after⟩ := outcome
      · exact hprepared
      · have hsound := hprepares.sound
        rw [← hprepared.setup, ← hprepared.traffic.bufferCapacity] at hsound
        exact hprepared.trans (books_finishSending net hsound)

end Client

end SendCalls

end GameLink
