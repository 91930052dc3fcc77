import GameLink.Proofs.Client.Readings

/-!
# What a run does to the ledger

Each scene of a run has the datagrams that it sends, the datagrams that it reads, and what it
counts besides.  The journal of the client is what the scenes write down, one after the other.  A
buffer that a scene takes is given back by it, or waits in a posting.

**Results.**
* `books_apply`: what each doing does to journal and pool.
* `conducts_actOn`: what a move does to them.
* `Sound.actOn`: at all times each posting holds what it was begun for.
* `Sound.records_run`, `Sound.posts_run`: what a run writes down, and what its datagrams are.
-/

namespace GameLink

section Doings

namespace Doing

/-- The datagrams that a doing reads. -/
def readings (net : Network) (c : Client) : Doing → List Client.Handling
  | .look inbox => (c.facing inbox).readingsOf net (c.facing inbox).looks?
  | _ => []

/-- The datagrams that a doing sends. -/
def posts (net : Network) (c : Client) : Doing → List Post
  | .request _ remote pair => c.carried net remote [.request (pair.map KeyPair.publicKey) none]
  | .look inbox => (c.facing inbox).answersTo net (c.facing inbox).looks?
  | .finish posting => c.carried net posting.remote [posting.post]
  | .carryOut message => c.callPosts net message
  | .nothing | .enter | .clear | .openSocket _ | .tick | .prepare .. => []

/-- What a doing counts, but for what it counts together with datagrams and events. -/
def notices (net : Network) (c : Client) : Doing → List Tally
  | .clear => [.connectAttempt]
  | .look inbox =>
      ((c.facing inbox).readingsOf net (c.facing inbox).looks?).flatMap Client.Handling.notices
  | _ => []

/-- How many buffers that were in use a doing gives back. -/
def returned : Doing → Nat
  | .finish posting => posting.parcel.lent
  | _ => 0

/-- How many buffers a doing leaves in use. -/
def lent (c : Client) : Doing → Nat
  | .prepare message remote => (SendingProgress.ofPrepared (c.prepare remote message).1).lent
  | _ => 0

end Doing

/-- Whether a doing is not a part of a call to send. -/
def Doing.isWhole : Doing → Bool
  | .prepare .. | .finish _ => false
  | _ => true

theorem Call.isWhole_doing (x : Station) (call : Call) : (call.doing x).isWhole = true := by
  cases call with
  | begin host port isRetry =>
      simp only [doing]
      split
      · rfl
      · rfl
  | stopWorkers attempt stopping =>
      simp only [doing]
      split
      · rfl
      · rfl
  | _ => rfl

/-- The parts of calls to send are moves of their own. -/
theorem SharedClient.isWhole_doing (s : SharedClient) (turn : Turn) :
    (s.doing turn).isWhole = true := by
  cases turn with
  | connect host port => exact Call.isWhole_doing s.station (.begin host port false)
  | reconnect =>
      simp only [doing]
      split
      · rfl
      · exact Call.isWhole_doing _ _
  | resume index =>
      simp only [doing]
      split
      · exact Call.isWhole_doing _ _
      · rfl
  | errand errand => cases errand <;> rfl
  | retryTurn generation =>
      simp only [doing]
      split
      · rfl
      · rfl
  | pollTurn generation =>
      simp only [doing]
      split
      · rfl
      · rfl
  | disconnect | deliver _ _ | leave _ => rfl

theorem Doing.settles_of_isWhole (c : Client) {doing : Doing} (h : doing.isWhole = true) :
    doing.returned = 0 ∧ doing.lent c = 0 := by
  cases doing with
  | prepare message remote => cases h
  | finish posting => cases h
  | _ => exact ⟨rfl, rfl⟩

namespace Client

variable {net : Network} {c : Client} {setup : Setup}

theorem notes_applyOpenSocket (net : Network) (c : Client) (attempt : Attempt) :
    Notes [] [] c (Doing.apply net c (.openSocket attempt)) := by
  have hopened := ledger_openSocket net c attempt.host attempt.port
  simp only [Doing.apply]
  generalize c.openSocket net attempt.host attempt.port = outcome at hopened ⊢
  obtain ⟨failure | found, after⟩ := outcome
  · exact (notes_failAttempt after _).after hopened
  · exact .of_ledger hopened

theorem notes_applyRequest (net : Network) (c : Client) (attempt : Attempt) (remote : Address)
    (pair : Option KeyPair) :
    Notes (c.carried net remote [.request (pair.map KeyPair.publicKey) none]) [] c
      (Doing.apply net c (.request attempt remote pair)) := by
  have hsent := notes_sendRequest net c remote pair
  simp only [Doing.apply]
  generalize c.sendRequest net remote pair = outcome at hsent ⊢
  obtain ⟨failure | ⟨⟩, after⟩ := outcome
  · have hfailed := hsent.trans (notes_failAttempt after attempt.generation)
    rw [List.append_nil] at hfailed
    exact hfailed
  · exact hsent

/-- What a doing does to journal and pool. -/
theorem books_apply (net : Network) (hpool : c.pool.Uniform) {doing : Doing}
    (hposting : ∀ posting, doing = .finish posting →
      posting.Sound c.setup c.pool.bufferCapacity) :
    Books doing.returned (doing.lent c) (doing.posts net c) (doing.notices net c) c
      (doing.apply net c) := by
  cases doing with
  | nothing | enter => exact .refl c
  | clear => exact .of_notes (.noticed c rfl)
  | openSocket attempt => exact .of_notes (notes_applyOpenSocket net c attempt)
  | request attempt remote pair => exact .of_notes (notes_applyRequest net c attempt remote pair)
  | tick => exact .of_notes (notes_retryTick c)
  | look inbox => exact (books_poll net (c := c.facing inbox) hpool).after rfl
  | prepare message remote => exact books_prepare hpool remote message
  | finish posting => exact books_finishSending net (hposting posting rfl)
  | carryOut message => exact books_carryOut hpool message

end Client

end Doings

section DatagramKinds

namespace Scene

def readings (scene : Scene) : List Client.Handling :=
  scene.doing.readings scene.net scene.client

def posts (scene : Scene) : List Post :=
  scene.doing.posts scene.net scene.client

def notices (scene : Scene) : List Tally :=
  scene.doing.notices scene.net scene.client

end Scene

/-- What a datagram is: a request, a frame, contents with their signature, or a packet that was
signed in a buffer of the pool's capacity. -/
inductive Post.Sound (setup : Setup) (capacity : Nat) : Post → Prop
  | request (publicKey : Option Key) (cookie : Option (Octets cookieSize)) :
      Sound setup capacity (.request publicKey cookie)
  | sealed {contents : Bytes} {s : Session} {f : Frame}
      (hf : f.Carries setup.suite s contents) :
      Sound setup capacity ⟨.sealed contents, f.datagram⟩
  | signed (contents : Bytes) :
      Sound setup capacity
        ⟨.signed contents, contents ++ Bytes.ofNat 4 (Checksum.crc32c contents).toNat⟩
  | packet {p : Packet} (hnumber : p.number?.isSome) :
      Sound setup capacity (.packet capacity p)

theorem Posting.Sound.post {setup : Setup} {capacity : Nat} {posting : Posting}
    (h : posting.Sound setup capacity) : posting.post.Sound setup capacity := by
  cases h with
  | sealed remote hf => exact .sealed hf
  | @signed contents remote b hroom hcapacity hcontents =>
      have hpost : Posting.post ⟨.data contents, remote, .pooled b⟩ =
          ⟨.signed contents, contents ++ Bytes.ofNat 4 (Checksum.crc32c contents).toNat⟩ := by
        rw [← hcontents]
        rfl
      rw [hpost]
      exact .signed contents
  | @ack sequence remote b hcapacity hcontents =>
      have hpost : Posting.post ⟨.ack sequence, remote, .pooled b⟩ =
          .packet capacity (.ack sequence) := by
        rw [Post.packet, ← hcontents]
        rfl
      rw [hpost]
      exact .packet rfl

namespace Client

variable {net : Network} {c : Client} {setup : Setup}

theorem sound_cookiePosts (capacity : Nat) (cookie : Octets cookieSize) :
    ∀ post ∈ c.cookiePosts cookie, post.Sound setup capacity := by
  intro post hpost
  unfold cookiePosts at hpost
  split at hpost
  · split at hpost
    · cases hpost
    · rw [List.mem_singleton.mp hpost]
      exact .request _ _
  · cases hpost

theorem sound_answerPosts (packet : Packet) :
    ∀ post ∈ c.answerPosts packet, post.Sound setup c.pool.bufferCapacity := by
  intro post hpost
  cases packet with
  | ping timestamp =>
      rw [List.mem_singleton.mp hpost]
      exact .packet rfl
  | checkIntegrity index =>
      simp only [answerPosts] at hpost
      split at hpost
      · rw [List.mem_singleton.mp hpost]
        exact .packet rfl
      · cases hpost
  | cookie cookie => exact sound_cookiePosts _ cookie post hpost
  | _ => cases hpost

theorem Handling.sound_posts (h : Handling) :
    ∀ post ∈ h.posts, post.Sound setup h.client.pool.bufferCapacity := by
  intro post hpost
  simp only [posts] at hpost
  split at hpost
  · cases hpost
  · split at hpost
    · exact sound_cookiePosts _ _ post hpost
    · simp only [plainPosts] at hpost
      split at hpost
      · cases hpost
      · split at hpost
        · exact sound_answerPosts _ post hpost
        · cases hpost

theorem mem_of_carried {remote : Address} {posts : List Post} {post : Post}
    (h : post ∈ c.carried net remote posts) : post ∈ posts :=
  (List.mem_filter.mp h).1

/-- The buffers are the same all through a burst of datagrams. -/
theorem bufferCapacity_of_readings (remote : Address) (arrivals : List Arrival)
    (hpool : c.pool.Uniform) :
    ∀ h ∈ readings net remote arrivals c,
      h.client.pool.bufferCapacity = c.pool.bufferCapacity := by
  induction arrivals generalizing c with
  | nil => simp [readings]
  | cons arrival rest ih =>
      intro h hmem
      simp only [readings] at hmem
      split at hmem
      · have huniform : ((c.withInbox rest).count
            (.received arrival.datagram.length)).pool.Uniform := hpool
        have hcapacity : ((c.withInbox rest).count
            (.received arrival.datagram.length)).pool.bufferCapacity = c.pool.bufferCapacity := rfl
        generalize (c.withInbox rest).count (.received arrival.datagram.length) = counted
          at hmem huniform hcapacity
        rcases List.mem_cons.mp hmem with rfl | hlater
        · exact hcapacity
        · split at hlater
          · exact (ih huniform h hlater).trans hcapacity
          · rename_i hsome
            have hused := books_handleDatagram net huniform remote hsome
            generalize counted.handleDatagram net remote arrival.datagram = outcome
              at hlater hused
            obtain ⟨_ | _, after⟩ := outcome
            · have hafter := ih (hused.uniform huniform) h hlater
              exact (hafter.trans hused.traffic.bufferCapacity).trans hcapacity
            · cases hlater
      · exact ih (c := c.withInbox rest) hpool h hmem

theorem sound_answersTo (hpool : c.pool.Uniform) (inbound : Option (Address × List Arrival)) :
    ∀ post ∈ c.answersTo net inbound, post.Sound setup c.pool.bufferCapacity := by
  intro post hpost
  cases inbound with
  | none => cases hpost
  | some inbound =>
      obtain ⟨remote, inbox⟩ := inbound
      obtain ⟨h, hmem, hsent⟩ := List.mem_flatMap.mp hpost
      rw [← bufferCapacity_of_readings remote inbox hpool h hmem]
      exact h.sound_posts post (mem_of_carried hsent)

/-- What the datagrams of a doing are. -/
theorem sound_posts (hpool : c.pool.Uniform) {doing : Doing}
    (hposting : ∀ posting, doing = .finish posting →
      posting.Sound c.setup c.pool.bufferCapacity) :
    ∀ post ∈ doing.posts net c, post.Sound c.setup c.pool.bufferCapacity := by
  intro post hpost
  cases doing with
  | request attempt remote pair =>
      rw [List.mem_singleton.mp (mem_of_carried hpost)]
      exact .request _ _
  | look inbox => exact sound_answersTo (c := c.facing inbox) hpool _ post hpost
  | finish posting =>
      rw [List.mem_singleton.mp (mem_of_carried hpost)]
      exact (hposting posting rfl).post
  | carryOut message =>
      simp only [Doing.posts, callPosts] at hpost
      split at hpost
      · cases hpost
      · rename_i remote _
        have hprepares := prepares hpool remote message
        generalize c.prepare remote message = outcome at hprepares hpost
        obtain ⟨failure | posting, after⟩ := outcome
        · cases hpost
        · rw [List.mem_singleton.mp (mem_of_carried hpost)]
          exact hprepares.sound.post
  | _ => cases hpost

end Client

end DatagramKinds

section Moves

/-- A sum changes with one of its terms. -/
theorem sum_map_set {α : Type} (f : α → Nat) {l : List α} {i : Nat} {a : α}
    (h : l[i]? = some a) :
    ∃ k, (l.map f).sum = k + f a ∧ ∀ b, ((l.set i b).map f).sum = k + f b := by
  induction l generalizing i with
  | nil => cases h
  | cons head rest ih =>
      cases i with
      | zero =>
          cases h
          refine ⟨(rest.map f).sum, ?_, fun b => ?_⟩
          · rw [List.map_cons, List.sum_cons, Nat.add_comm]
          · rw [List.set_cons_zero, List.map_cons, List.sum_cons, Nat.add_comm]
      | succ i =>
          obtain ⟨k, hbefore, hafter⟩ := ih h
          refine ⟨f head + k, ?_, fun b => ?_⟩
          · rw [List.map_cons, List.sum_cons, hbefore, Nat.add_assoc]
          · rw [List.set_cons_succ, List.map_cons, List.sum_cons, hafter, Nat.add_assoc]

namespace SendingProgress

variable {net : Network} {c : Client} {sending : SendingProgress} {posting : Posting}

theorem lent_of_none (h : sending.posting? = none) : sending.lent = 0 := by
  rw [lent, h]
  rfl

theorem eq_waiting_of_doing (sending : SendingProgress) (h : sending.doing = .finish posting) :
    sending = .waiting posting := by
  cases sending with
  | waiting waiting =>
      cases h
      rfl
  | connected _ | addressed _ _ | routed _ _ | returned _ => cases h

/-- A part of a call gives back what it kept in use, and leaves in use what it keeps. -/
theorem lent_advance (net : Network) (c : Client) (sending : SendingProgress) :
    sending.lent = sending.doing.returned ∧
      (c.advanceSending net sending).1.lent = sending.doing.lent c := by
  cases sending with
  | connected contents => exact ⟨rfl, lent_of_none (Client.posting?_findRemote _)⟩
  | addressed message remote => exact ⟨rfl, lent_of_none (Client.posting?_findSocket _ remote)⟩
  | routed message remote | waiting posting | returned result => exact ⟨rfl, rfl⟩

/-- A datagram that waits was made in the part before. -/
theorem sound_of_advance (hpool : c.pool.Uniform)
    (h : (c.advanceSending net sending).1 = .waiting posting) :
    posting.Sound c.setup c.pool.bufferCapacity := by
  cases sending with
  | connected contents =>
      have hlook := Client.posting?_findRemote (c := c) (.data contents)
      rw [show c.findRemote (.data contents) = .waiting posting from h] at hlook
      cases hlook
  | addressed message remote =>
      have hlook := Client.posting?_findSocket (c := c) message remote
      rw [show c.findSocket message remote = .waiting posting from h] at hlook
      cases hlook
  | routed message remote =>
      have hprepares := Client.prepares hpool remote message
      simp only [Client.advanceSending] at h
      generalize c.prepare remote message = outcome at hprepares h
      obtain ⟨failure | made, after⟩ := outcome
      · cases h
      · cases h
        exact hprepares.sound
  | waiting _ | returned _ => cases h

end SendingProgress

end Moves

namespace ThreadedClient

variable {s s' : ThreadedClient} {t : Thread} {posts : List Post} {notices : List Tally}

/-- How many buffers are in use by calls to send. -/
def lent (s : ThreadedClient) : Nat :=
  (s.sendings.map SendingProgress.lent).sum

/-- The buffers of a client are alike, and each posting holds what it was begun for. -/
structure Sound (s : ThreadedClient) : Prop where
  uniform : s.client.pool.Uniform
  postings : ∀ posting, .waiting posting ∈ s.sendings →
    posting.Sound s.client.setup s.client.pool.bufferCapacity

/-- What is done on a thread to journal and pool and to the calls to send. -/
structure Conducts (t : Thread) (posts : List Post) (notices : List Tally)
    (s s' : ThreadedClient) : Prop where
  setup : s'.client.setup = s.client.setup
  traffic : Pool.Traffic t s.lent s'.lent s.client.pool s'.client.pool
  journal : ∃ added, s'.client.journal = s.client.journal ++ added ∧ Records posts notices added
  postings : ∀ posting, .waiting posting ∈ s'.sendings →
    posting.Sound s.client.setup s.client.pool.bufferCapacity

theorem Sound.of_conducts (h : s.Sound) (hconducts : Conducts t posts notices s s') :
    s'.Sound where
  uniform := hconducts.traffic.uniform h.uniform
  postings posting hposting := by
    rw [hconducts.setup, hconducts.traffic.bufferCapacity]
    exact hconducts.postings posting hposting

theorem Sound.exchange (h : s.Sound) (t : Thread) : (s.exchange t).Sound :=
  ⟨h.uniform.exchange Client.thread t, h.postings⟩

/-- A posting that is finished is one that waits. -/
theorem posting_of_doing {move : Move} {posting : Posting} (h : s.doing move = .finish posting) :
    .waiting posting ∈ s.sendings := by
  cases move with
  | turn turn =>
      have hwhole := s.shared.isWhole_doing turn
      rw [show s.shared.doing turn = .finish posting from h] at hwhole
      cases hwhole
  | begin message => cases h
  | goOn index =>
      simp only [doing] at h
      split at h
      · rename_i sending hsending
        rw [← sending.eq_waiting_of_doing h]
        exact List.mem_of_getElem? hsending
      · cases h

theorem Sound.posting (h : s.Sound) (move : Move) :
    ∀ posting, s.doing move = .finish posting →
      posting.Sound s.client.setup s.client.pool.bufferCapacity :=
  fun posting hposting => h.postings posting (posting_of_doing hposting)

/-- Beside the buffers that a doing gives back or leaves in use, others are in use all the time. -/
theorem lent_act (net : Network) (s : ThreadedClient) (move : Move) :
    ∃ k, s.lent = k + (s.doing move).returned ∧
      (s.act net move).lent = k + (s.doing move).lent s.client := by
  cases move with
  | turn turn =>
      obtain ⟨hreturned, hlent⟩ := Doing.settles_of_isWhole s.client (s.shared.isWhole_doing turn)
      exact ⟨s.lent, congrArg (s.lent + ·) hreturned.symm, congrArg (s.lent + ·) hlent.symm⟩
  | begin message =>
      have hlook : (s.client.beginSending message).lent = 0 :=
        SendingProgress.lent_of_none (Client.posting?_beginSending message)
      refine ⟨s.lent, rfl, ?_⟩
      simp [act, lent, doing, Doing.lent, hlook]
  | goOn index =>
      simp only [act, doing]
      cases hsending : s.sendings[index]? with
      | none => exact ⟨s.lent, rfl, rfl⟩
      | some sending =>
          obtain ⟨hbefore, hafter⟩ := sending.lent_advance net s.client
          obtain ⟨k, hothers, hset⟩ := sum_map_set SendingProgress.lent hsending
          refine ⟨k, ?_, ?_⟩
          · rw [← hbefore]
            exact hothers
          · rw [← hafter]
            exact hset _

theorem Sound.postings_act (h : s.Sound) (net : Network) (move : Move) :
    ∀ posting, .waiting posting ∈ (s.act net move).sendings →
      posting.Sound s.client.setup s.client.pool.bufferCapacity := by
  intro posting hposting
  cases move with
  | turn turn => exact h.postings posting hposting
  | begin message =>
      rcases List.mem_append.mp hposting with hold | hnew
      · exact h.postings posting hold
      · have hlook := Client.posting?_beginSending (c := s.client) message
        rw [← List.mem_singleton.mp hnew] at hlook
        cases hlook
  | goOn index =>
      simp only [act] at hposting
      split at hposting
      · rename_i sending _
        rcases List.mem_or_eq_of_mem_set hposting with hold | hnew
        · exact h.postings posting hold
        · exact SendingProgress.sound_of_advance h.uniform hnew.symm
      · exact h.postings posting hposting

theorem conducts_act (h : s.Sound) (net : Network) (move : Move) :
    Conducts Client.thread ((s.doing move).posts net s.client)
      ((s.doing move).notices net s.client) s (s.act net move) := by
  have hbooks := Client.books_apply net h.uniform (h.posting move)
  have hledger := s.ledger_act net move
  obtain ⟨k, hbefore, hafter⟩ := s.lent_act net move
  refine ⟨(congrArg Ledger.setup hledger).trans hbooks.setup, ?_, ?_, h.postings_act net move⟩
  · have hpool : (s.act net move).client.pool = ((s.doing move).apply net s.client).pool :=
      congrArg Ledger.pool hledger
    rw [hbefore, hafter, hpool]
    exact hbooks.traffic.beside k
  · obtain ⟨added, hjournal, hrecords⟩ := hbooks.journal
    exact ⟨added, (congrArg Ledger.journal hledger).trans hjournal, hrecords⟩

/-- What is done on a thread while it is exchanged for that of the client. -/
theorem conducts_actOn (h : s.Sound) (net : Network) (t : Thread) (move : Move) :
    Conducts t (s.scene net t move).posts (s.scene net t move).notices s
      (s.actOn net t move) := by
  have hconducts := conducts_act (h.exchange t) net move
  exact ⟨hconducts.setup, hconducts.traffic.exchange, hconducts.journal, hconducts.postings⟩

theorem Sound.actOn (h : s.Sound) (net : Network) (t : Thread) (move : Move) :
    (s.actOn net t move).Sound :=
  h.of_conducts (conducts_actOn h net t move)

/-- A client that nothing was called on. -/
theorem sound_ofClient (setup : Setup) (entropy : Entropy) (now : Moment) :
    (ofClient (.create setup entropy now)).Sound where
  uniform := (Pool.Uniform.empty _).preallocate _ _
  postings := by simp [ofClient]

section Runs

/-- What a run writes down. -/
theorem Sound.records_run (h : s.Sound) (moves : List (Network × Thread × Move)) :
    ∃ added, (s.run moves).client.journal = s.client.journal ++ added ∧
      Records ((s.scenes moves).flatMap Scene.posts) ((s.scenes moves).flatMap Scene.notices)
        added := by
  induction moves generalizing s with
  | nil => exact ⟨[], (List.append_nil _).symm, .nil⟩
  | cons move rest ih =>
      obtain ⟨net, t, move⟩ := move
      obtain ⟨first, hfirst, hrecords⟩ := (conducts_actOn h net t move).journal
      obtain ⟨later, hlater, hrecords'⟩ := ih (h.actOn net t move)
      refine ⟨first ++ later, ?_, hrecords.append hrecords'⟩
      rw [run_cons, hlater, hfirst, List.append_assoc]

/-- What the datagrams of a run are. -/
theorem Sound.posts_run (h : s.Sound) (moves : List (Network × Thread × Move)) :
    ∀ post ∈ (s.scenes moves).flatMap Scene.posts,
      post.Sound s.client.setup s.client.pool.bufferCapacity := by
  induction moves generalizing s with
  | nil => simp [scenes]
  | cons move rest ih =>
      obtain ⟨net, t, move⟩ := move
      intro post hpost
      rcases List.mem_append.mp hpost with hnow | hlater
      · exact Client.sound_posts (h.exchange t).uniform ((h.exchange t).posting move) post hnow
      · have hconducts := conducts_actOn h net t move
        have hsound := ih (h.actOn net t move) post hlater
        rw [hconducts.setup, hconducts.traffic.bufferCapacity] at hsound
        exact hsound

end Runs

end ThreadedClient
end GameLink
