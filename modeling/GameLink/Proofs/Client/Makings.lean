import GameLink.Proofs.Client.Chronicle
import GameLink.Proofs.Client.Dispatch

/-!
# Datagrams that calls to send make

Calls to send may pause, so a datagram is made at one moment and goes out at another.  What it is
sealed with, and whether it is sealed at all, depends on the session when it is made.

**Algorithm.** The makings of a run are listed in their order, each with the client that makes the
datagram (`ThreadedClient.makings`).  A making is compared with the client that is left by the one
before (`pairwise_makings`): as long as the keys stay, the counter of the session does not go back.

**Results.**
* `advances_actOn`: whatever a move does but renew the keys, the counter does not go back.
* `tooLarge_iff`: a call fails for a malformed packet exactly if the check of the size fails.
* `sealed_of_post`: what is made of application data while there is a session.
* `pairwise_numbers`: numbers grow in the order of the makings.
-/

namespace GameLink

/-- The making of a datagram by a call to send.  The call is given the contents of the buffer and
not the buffer. -/
structure Making where
  /-- The client at that moment. -/
  client : Client
  remote : Address
  contents : Bytes
  /-- How often the application asked for new keys before. -/
  renewals : Nat

namespace Making

open Client

def result (m : Making) : Except Failure Posting :=
  (m.client.prepare m.remote (.data m.contents)).1

def after (m : Making) : Client :=
  (m.client.prepare m.remote (.data m.contents)).2

/-- How the call goes on: its datagram waits, or it has failed. -/
def answer (m : Making) : SendingProgress :=
  .ofPrepared m.result

/-- The datagram that is made. -/
def post? (m : Making) : Option Post :=
  m.answer.posting?.map Posting.post

/-- The number in the header of the datagram. -/
def number? (m : Making) : Option UInt64 :=
  m.post?.bind fun post => (Header.ofBytes post.datagram).toOption.map Header.sequence

/-- Application data, made into a datagram while there is a session. -/
def isSecure (m : Making) : Bool :=
  isData m.contents && m.client.isSecure

/-- What tells the keys of a session from those of others in a run: how often the link came up,
and how often the application asked for new keys. -/
def keying (m : Making) : Nat × Nat :=
  (m.client.connections, m.renewals)

/-- The datagram does not pass the check of its size. -/
def TooLarge (m : Making) : Prop :=
  ∃ datagram, m.client.made? m.contents = some datagram ∧
    m.client.Oversized m.contents datagram

/-- The datagram, if one is made, is a frame of the session that carries the contents, sealed
under the number in its header. -/
def Sealed (m : Making) : Prop :=
  ∀ post, m.post? = some post → ∃ (session : Session) (f : Frame),
    m.client.session = some session ∧ f.Carries m.client.setup.suite session m.contents ∧
      post = ⟨.sealed m.contents, f.datagram⟩ ∧ Header.ofBytes post.datagram = .ok f.header

variable {m m' : Making}

/-- What the making of a datagram comes to. -/
theorem makes (hpool : m.client.pool.Uniform) :
    m.client.Makes m.contents m.remote (m.result, m.after) :=
  makes_prepare hpool m.contents m.remote

/-- A datagram that is made is the one of the contents, and it passed the check of its size. -/
theorem post_cases (hpool : m.client.pool.Uniform) {post : Post} (h : m.post? = some post) :
    m.client.made? m.contents = some post.datagram ∧
      ¬ m.client.Oversized m.contents post.datagram ∧
        (post.letter = .sealed m.contents ∨ post.letter = .signed m.contents) := by
  have hmakes := makes hpool
  rw [post?, answer] at h
  generalize m.result = result, m.after = after at hmakes h
  cases hmakes with
  | unsealed => cases h
  | oversized => cases h
  | @held parcel hmade hfits c' hafter =>
      cases h
      refine ⟨hmade, hfits, ?_⟩
      cases parcel with
      | sealed datagram => exact Or.inl rfl
      | pooled b => exact Or.inr rfl

theorem length_le_of_post (hpool : m.client.pool.Uniform) {post : Post}
    (h : m.post? = some post) : post.datagram.length ≤ m.client.sizeLimit :=
  Nat.le_of_not_lt fun hlarge => (post_cases hpool h).2.1 (Or.inl hlarge)

/-- A call fails for a malformed packet exactly if the check of the size fails. -/
theorem tooLarge_iff (hpool : m.client.pool.Uniform) :
    m.TooLarge ↔ ∃ defect, m.answer = .returned (.error (.malformed defect)) := by
  have hmakes := makes hpool
  rw [answer]
  generalize m.result = result, m.after = after at hmakes ⊢
  cases hmakes with
  | unsealed hmade failure hfailure =>
      constructor
      · rintro ⟨datagram, hdatagram, -⟩
        rw [hmade] at hdatagram
        cases hdatagram
      · rintro ⟨defect, h⟩
        cases h
        rcases hfailure with h | h <;> cases h
  | oversized hmade hlarge defect _ =>
      exact ⟨fun _ => ⟨defect, rfl⟩, fun _ => ⟨_, hmade, hlarge⟩⟩
  | held hmade hfits _ =>
      constructor
      · rintro ⟨datagram, hdatagram, hlarge⟩
        cases hmade.symm.trans hdatagram
        exact absurd hlarge hfits
      · rintro ⟨defect, h⟩
        cases h

/-- What is made of application data while there is a session is a frame, and uses up the number
of its header. -/
theorem frame_of_post (hsecure : m.isSecure = true) {post : Post} (h : m.post? = some post) :
    ∃ (session : Session) (f : Frame) (later : Session),
      m.client.session = some session ∧ f.Carries m.client.setup.suite session m.contents ∧
        post = ⟨.sealed m.contents, f.datagram⟩ ∧
          m.after.session = some later ∧ session.nextSend < later.nextSend := by
  have hafter : m.after.session = (m.client.sealOutbound m.contents).2.session :=
    session_prepare m.remote m.contents
  rw [isSecure, Bool.and_eq_true, isData_eq] at hsecure
  have hseals := seals_sealOutbound m.client m.contents
  simp only [post?, answer, result, prepare] at h
  generalize m.client.sealOutbound m.contents = outcome at hseals h hafter
  cases hseals with
  | notSealed hplain _ =>
      rcases hplain with hnone | hnone
      · rw [hnone] at hsecure
        cases hsecure.1
      · rw [Client.isSecure, hnone] at hsecure
        cases hsecure.2
  | refused => cases h
  | framed s hs f hf hlast hmade tallies =>
      rw [session_countAll] at hafter
      refine ⟨s, f, _, hs, hf, ?_, hafter, Session.nextSend_lt_afterSealing hlast f.sealed⟩
      by_cases hlarge : m.client.sizeLimit < f.datagram.length
      · simp only [checkSize, if_pos hlarge] at h
        cases h
      · simp only [checkSize, if_neg hlarge] at h
        cases h
        rfl

theorem sealed_of_isSecure (hsecure : m.isSecure = true) : m.Sealed := by
  intro post hpost
  obtain ⟨session, f, -, hsession, hf, rfl, -⟩ := frame_of_post hsecure hpost
  exact ⟨session, f, hsession, hf, rfl, Header.ofBytes_toBytes f.header f.payload⟩

/-- The number of a datagram is the counter of the session, which moves past it. -/
theorem number_cases (hsecure : m.isSecure = true) {n : UInt64} (h : m.number? = some n) :
    ∃ session later, m.client.session = some session ∧ n = session.nextSend ∧
      m.after.session = some later ∧ session.nextSend < later.nextSend := by
  obtain ⟨post, hpost, hnumber⟩ := Option.bind_eq_some_iff.mp h
  obtain ⟨session, f, later, hsession, hf, rfl, hlater, hlt⟩ := frame_of_post hsecure hpost
  have hread : Header.ofBytes f.datagram = .ok f.header := Header.ofBytes_toBytes _ _
  rw [hread] at hnumber
  cases hnumber
  exact ⟨session, later, hsession, hf.sequence, hlater, hlt⟩

theorem events_after (m : Making) : m.after.events = m.client.events := by
  have hsealed := events_sealOutbound m.client m.contents
  simp only [after, prepare]
  generalize m.client.sealOutbound m.contents = outcome at hsealed ⊢
  obtain ⟨failure | _ | datagram, sealed⟩ := outcome
  · exact hsealed
  · have hsigned := (events_signed sealed m.contents).trans hsealed
    dsimp only
    generalize sealed.signed m.contents = outcome at hsigned ⊢
    obtain ⟨failure | b, signed⟩ := outcome
    · exact hsigned
    · exact hsigned
  · exact hsealed

/-- Numbers that are made under the same keys grow from making to making. -/
theorem number_lt (hsecure : m.isSecure = true) (hsecure' : m'.isSecure = true)
    (hkeying : m.keying = m'.keying) (hadvances : Advances m.after m'.client)
    {n n' : UInt64} (hn : m.number? = some n) (hn' : m'.number? = some n') : n < n' := by
  obtain ⟨session, later, -, rfl, hlater, hlt⟩ := number_cases hsecure hn
  obtain ⟨session', -, hsession', rfl, -⟩ := number_cases hsecure' hn'
  have hsame : m'.client.connections = m.after.connections := by
    rw [connections, connections, m.events_after]
    exact (congrArg Prod.fst hkeying).symm
  obtain ⟨_, hafter, hle⟩ := hadvances.session hsame session' hsession'
  cases hlater.symm.trans hafter
  exact UInt64.lt_of_lt_of_le hlt hle

end Making

section Counters

namespace Client

variable {c c' : Client}

/-- A session that is there was there before, and its counter did not go back. -/
def Keeps (c c' : Client) : Prop :=
  ∀ s', c'.session = some s' → ∃ s, c.session = some s ∧ s.nextSend ≤ s'.nextSend

theorem Keeps.of_eq (h : c'.session = c.session) : Keeps c c' :=
  fun s' hs' => ⟨s', h ▸ hs', UInt64.le_refl _⟩

theorem Keeps.of_none (h : c'.session = none) : Keeps c c' := by
  intro s' hs'
  rw [h] at hs'
  cases hs'

theorem Keeps.of_eq_or_none (h : c'.session = c.session ∨ c'.session = none) : Keeps c c' :=
  h.elim .of_eq .of_none

theorem session_retryTick (c : Client) : c.retryTick.2.session = c.session := by
  have hlooks := looks_retryTick c
  generalize c.retryTick = outcome at hlooks ⊢
  cases hlooks with
  | _ => rfl

theorem keeps_prepare (remote : Address) (message : OutgoingMessage) :
    Keeps c (c.prepare remote message).2 := by
  cases message with
  | ack sequence => exact .of_eq rfl
  | data contents =>
      intro s' hs'
      rw [session_prepare] at hs'
      exact le_sealOutbound c contents s' hs'

theorem keeps_advanceSending (net : Network) (c : Client) (sending : SendingProgress) :
    Keeps c (c.advanceSending net sending).2 := by
  cases sending with
  | connected contents | addressed message remote | returned result => exact .of_eq rfl
  | routed message remote => exact keeps_prepare remote message
  | waiting posting => exact .of_eq (session_finishSending net c posting)

theorem keeps_errand (net : Network) (c : Client) {errand : Errand} (h : errand ≠ .renewKeys) :
    Keeps c (c.act net errand.action).2 := by
  cases errand with
  | send contents => exact le_send net c contents
  | sendAck sequence => exact .of_eq (session_sendAck net c sequence)
  | renewKeys => exact absurd rfl h
  | setConnectTimeout _ | setRetryInterval _ | setRetryEnabled _ | elapse _ => exact .of_eq rfl

end Client

/-- A part of a call leaves the session as it is or gives it up. -/
theorem Call.session_advance (net : Network) (x : Station) (call : Call) :
    (call.advance net x).2.client.session = x.client.session ∨
      (call.advance net x).2.client.session = none := by
  cases call with
  | begin host port isRetry =>
      simp only [advance]
      split
      · exact Or.inl rfl
      · exact Or.inl rfl
  | stopWorkers attempt stopping =>
      simp only [advance]
      rcases stopping.advance x.crew with ⟨_ | next, crew⟩
      · exact Or.inr rfl
      · exact Or.inl rfl
  | openSocket attempt =>
      have hopened := Client.session_openSocket net x.client attempt.host attempt.port
      refine Or.inl ?_
      simp only [advance]
      generalize x.client.openSocket net attempt.host attempt.port = outcome at hopened ⊢
      obtain ⟨failure | found, client⟩ := outcome
      · exact (Client.session_failAttempt client _).trans hopened
      · exact hopened
  | sendRequest attempt remote pair =>
      have hsent := Client.session_sendRequest net x.client remote pair
      refine Or.inl ?_
      simp only [advance]
      generalize x.client.sendRequest net remote pair = outcome at hsent ⊢
      obtain ⟨failure | ⟨⟩, client⟩ := outcome
      · exact (Client.session_failAttempt client _).trans hsent
      · dsimp only
        split
        · rename_i published hpublish
          exact (Client.session_of_publish hpublish).trans hsent
        · exact hsent
  | stopBothWorkers stopping =>
      simp only [advance]
      rcases stopping.advance x.crew with ⟨_ | next, crew⟩
      · exact Or.inr rfl
      · exact Or.inl rfl
  | keepRetryWorker attempt | keepPollWorker attempt | overtake => exact Or.inl rfl

namespace SharedClient

variable {s : SharedClient}

theorem station_call (net : Network) (s : SharedClient) (call : Call) :
    (s.call net call).station = (call.advance net s.station).2 := by
  have hlast : (s.make call).calls[s.calls.length]? = some (.paused call) := by
    simp [make]
  simp only [SharedClient.call, resume, hlast]
  rfl

theorem keeps_call (net : Network) (s : SharedClient) (call : Call) :
    Client.Keeps s.station.client (s.call net call).station.client := by
  rw [station_call]
  exact .of_eq_or_none (call.session_advance net s.station)

theorem keeps_reconnect (net : Network) (s : SharedClient) :
    Client.Keeps s.station.client (s.reconnect net).station.client := by
  have htaken := Client.session_takeRetry s.station.client
  simp only [reconnect]
  generalize s.station.client.takeRetry = taken at htaken ⊢
  obtain ⟨_ | ⟨host, port⟩, client⟩ := taken
  · exact .of_eq htaken
  · intro s' hs'
    have hkept := keeps_call net (s.update { s.station with client }) (.begin host port true) s' hs'
    rw [← htaken]
    exact hkept

theorem keeps_retryTurn (s : SharedClient) (generation : Nat) :
    Client.Keeps s.station.client (s.station.retryTurn generation).client := by
  have htick := Client.session_retryTick s.station.client
  refine .of_eq ?_
  simp only [Station.retryTurn]
  split
  · generalize s.station.client.retryTick = outcome at htick ⊢
    obtain ⟨_ | _ | _, client⟩ := outcome
    · exact htick
    · exact htick
    · exact htick
  · rfl

theorem advances_pollTurn (net : Network) (s : SharedClient) (generation : Nat) :
    Client.Advances s.station.client (s.station.pollTurn net generation).client := by
  simp only [Station.pollTurn]
  cases s.station.crew.find? ⟨.poll, generation⟩ with
  | none => exact .refl _
  | some worker =>
      have hseen : Client.Advances s.station.client (s.station.seenBy worker) := .of_same rfl rfl
      have hpoll := hseen.trans (Client.advances_poll net (s.station.seenBy worker))
      dsimp only
      generalize (s.station.seenBy worker).poll net = outcome at hpoll ⊢
      obtain ⟨_ | _, seen⟩ := outcome
      · exact hpoll.trans (.of_same rfl rfl)
      · exact hpoll.trans (.of_same rfl rfl)

/-- A turn that does not renew the keys. -/
theorem advances_take (net : Network) {turn : Turn} (hkept : turn ≠ .errand .renewKeys)
    (hevents : s.station.client.events <+: (s.take net turn).station.client.events) :
    Client.Advances s.station.client (s.take net turn).station.client := by
  cases turn with
  | connect host port => exact .of_le hevents (keeps_call net s _)
  | disconnect => exact .of_le hevents (keeps_call net s _)
  | reconnect => exact .of_le hevents (keeps_reconnect net s)
  | resume index =>
      refine .of_le hevents ?_
      simp only [take, resume]
      split
      · exact Client.Keeps.of_eq_or_none (Call.session_advance net s.station _)
      · exact Client.Keeps.of_eq rfl
  | errand errand =>
      exact .of_le hevents (Client.keeps_errand net _ fun h => hkept (congrArg Turn.errand h))
  | retryTurn generation => exact .of_le hevents (keeps_retryTurn s generation)
  | pollTurn generation => exact advances_pollTurn net s generation
  | deliver generation arrival | leave badge => exact .of_same rfl rfl

end SharedClient

namespace ThreadedClient

variable {s : ThreadedClient}

theorem prefix_of_conducts {s' : ThreadedClient} {t : Thread} {posts : List Post}
    {notices : List Tally} (h : Conducts t posts notices s s') :
    s.client.events <+: s'.client.events := by
  obtain ⟨added, hjournal, -⟩ := h.journal
  refine ⟨added.filterMap Effect.event?, ?_⟩
  rw [Client.events, Client.events, hjournal, List.filterMap_append]

theorem advances_act (h : s.Sound) (net : Network) {move : Move}
    (hkept : move ≠ .turn (.errand .renewKeys)) :
    Client.Advances s.client (s.act net move).client := by
  have hevents := prefix_of_conducts (conducts_act h net move)
  cases move with
  | turn turn =>
      exact SharedClient.advances_take net (fun h => hkept (congrArg Move.turn h)) hevents
  | begin message => exact .refl _
  | goOn index =>
      refine .of_le hevents ?_
      simp only [act]
      split
      · exact Client.keeps_advanceSending net s.client _
      · exact Client.Keeps.of_eq rfl

/-- Whatever a move does but renew the keys, the counter of the session does not go back, unless
the link came up anew. -/
theorem advances_actOn (h : s.Sound) (net : Network) (t : Thread) {move : Move}
    (hkept : move ≠ .turn (.errand .renewKeys)) :
    Client.Advances s.client (s.actOn net t move).client := by
  have hbefore : Client.Advances s.client (s.exchange t).client := .of_same rfl rfl
  have hafter : Client.Advances ((s.exchange t).act net move).client (s.actOn net t move).client :=
    .of_same rfl rfl
  exact (hbefore.trans (advances_act (h.exchange t) net hkept)).trans hafter

end ThreadedClient

end Counters

section Runs

namespace Client

theorem advances_finishSending (net : Network) (c : Client) (posting : Posting) :
    Advances c (c.finishSending net posting).2 := by
  refine .of_session_eq ?_ (session_finishSending net c posting)
  have hsent : c.events <+: (c.transmit net posting.remote posting.parcel.datagram).2.events := by
    simp only [transmit]
    split
    · simp only [events_noteSent, List.prefix_rfl]
    · rw [events_raise, events_count]
      exact List.prefix_append _ _
  obtain ⟨message, remote, datagram | b⟩ := posting
  · exact hsent
  · exact hsent

end Client

/-- The datagram that is made in the next part of a call to send. -/
def SendingProgress.making? (c : Client) (renewals : Nat) : SendingProgress → Option Making
  | .routed (.data contents) remote => some ⟨c, remote, contents, renewals⟩
  | _ => none

namespace ThreadedClient

variable {s : ThreadedClient} {m : Making} {renewals : Nat}

/-- The datagram that is made in a move, after a number of renewals. -/
def making? (s : ThreadedClient) (renewals : Nat) : Move → Option Making
  | .goOn index => s.sendings[index]?.bind (SendingProgress.making? s.client renewals)
  | .turn (.errand (.send contents)) =>
      (s.client.way? (.data contents)).map fun remote => ⟨s.client, remote, contents, renewals⟩
  | _ => none

/-- How often a move asks for new keys. -/
def renewalsIn : Move → Nat
  | .turn (.errand .renewKeys) => 1
  | _ => 0

/-- The datagrams that are made in a run, the first first. -/
def makings (s : ThreadedClient) (renewals : Nat) :
    List (Network × Thread × Move) → List Making
  | [] => []
  | (net, t, move) :: rest =>
      ((s.exchange t).making? renewals move).toList ++
        (s.actOn net t move).makings (renewals + renewalsIn move) rest

/-- What is made in a move is made by the client that the move finds, and before anything else
happens. -/
theorem advances_of_making (net : Network) {move : Move} (h : s.making? renewals move = some m) :
    m.client = s.client ∧ m.renewals = renewals ∧
      Client.Advances m.after (s.act net move).client := by
  cases move with
  | begin message => cases h
  | goOn index =>
      obtain ⟨sending, hsending, hmaking⟩ := Option.bind_eq_some_iff.mp h
      unfold SendingProgress.making? at hmaking
      split at hmaking
      · cases hmaking
        refine ⟨rfl, rfl, ?_⟩
        simp only [act, hsending]
        exact .of_same rfl rfl
      · cases hmaking
  | turn turn =>
      cases turn with
      | errand errand =>
          cases errand with
          | send contents =>
              obtain ⟨remote, hway, rfl⟩ := Option.map_eq_some_iff.mp h
              have hwhole : (s.act net (.turn (.errand (.send contents)))).client =
                  (s.client.carryOut net (.data contents)).2 :=
                congrArg Prod.snd (Client.carryOut_data contents).symm
              refine ⟨rfl, rfl, ?_⟩
              rw [hwhole]
              simp only [Client.carryOut, hway, Making.after]
              rcases s.client.prepare remote (.data contents) with ⟨failure | posting, after⟩
              · exact .refl after
              · exact Client.advances_finishSending net after posting
          | _ => cases h
      | _ => cases h

/-- Each client that makes a datagram has buffers that are alike, and the same setup. -/
theorem sound_makings (h : s.Sound) (renewals : Nat) (moves : List (Network × Thread × Move)) :
    ∀ m ∈ s.makings renewals moves,
      m.client.pool.Uniform ∧ m.client.setup = s.client.setup := by
  induction moves generalizing s renewals with
  | nil => simp [makings]
  | cons taken rest ih =>
      obtain ⟨net, t, move⟩ := taken
      intro m hm
      rcases List.mem_append.mp hm with hnow | hlater
      · obtain ⟨hclient, -⟩ := advances_of_making net (Option.mem_toList.mp hnow)
        rw [hclient]
        exact ⟨(h.exchange t).uniform, rfl⟩
      · obtain ⟨hpool, hsetup⟩ := ih (h.actOn net t move) _ m hlater
        exact ⟨hpool, hsetup.trans (conducts_actOn h net t move).setup⟩

/-- The client that makes a datagram is a later one than the client before, unless the application
asked for new keys in between. -/
theorem advances_makings (h : s.Sound) (renewals : Nat) (moves : List (Network × Thread × Move)) :
    ∀ m ∈ s.makings renewals moves,
      renewals ≤ m.renewals ∧ (m.renewals = renewals → Client.Advances s.client m.client) := by
  induction moves generalizing s renewals with
  | nil => simp [makings]
  | cons taken rest ih =>
      obtain ⟨net, t, move⟩ := taken
      intro m hm
      rcases List.mem_append.mp hm with hnow | hlater
      · obtain ⟨hclient, hrenewals, -⟩ := advances_of_making net (Option.mem_toList.mp hnow)
        refine ⟨Nat.le_of_eq hrenewals.symm, fun _ => ?_⟩
        rw [hclient]
        exact .of_same rfl rfl
      · obtain ⟨hle, hadvances⟩ := ih (h.actOn net t move) _ m hlater
        refine ⟨Nat.le_trans (Nat.le_add_right _ _) hle, fun hsame => ?_⟩
        have hkept : move ≠ .turn (.errand .renewKeys) := by
          rintro rfl
          simp only [renewalsIn] at hle
          omega
        have hnone : renewalsIn move = 0 := by omega
        rw [hnone, Nat.add_zero] at hadvances
        exact (advances_actOn h net t hkept).trans (hadvances hsame)

/-- Of two makings between two renewals, the client of the second is a later one than the client
after the first. -/
theorem pairwise_makings (h : s.Sound) (renewals : Nat) (moves : List (Network × Thread × Move)) :
    (s.makings renewals moves).Pairwise fun m m' =>
      m.renewals = m'.renewals → Client.Advances m.after m'.client := by
  induction moves generalizing s renewals with
  | nil => exact .nil
  | cons taken rest ih =>
      obtain ⟨net, t, move⟩ := taken
      refine List.pairwise_append.mpr ⟨?_, ih (h.actOn net t move) _, fun m hm m' hm' hsame => ?_⟩
      · cases (s.exchange t).making? renewals move with
        | none => exact .nil
        | some m => exact List.pairwise_singleton _ m
      · obtain ⟨-, hrenewals, hafter⟩ := advances_of_making net (Option.mem_toList.mp hm)
        have hnone : renewalsIn move = 0 := by
          have hle := (advances_makings (h.actOn net t move) _ rest m' hm').1
          omega
        have hback : Client.Advances ((s.exchange t).act net move).client
            (s.actOn net t move).client := .of_same rfl rfl
        have hlater := (advances_makings (h.actOn net t move) _ rest m' hm').2
        rw [hnone, Nat.add_zero] at hlater
        exact (hafter.trans hback).trans (hlater (hsame.symm.trans hrenewals))

/-- The numbers that are made of application data under the same keys grow from making to making. -/
theorem pairwise_numbers (h : s.Sound) (renewals : Nat) (moves : List (Network × Thread × Move))
    (keying : Nat × Nat) :
    (((s.makings renewals moves).filter fun m => m.isSecure && m.keying = keying).filterMap
      Making.number?).Pairwise (· < ·) := by
  have hpairs := (pairwise_makings h renewals moves).filter
    fun m => m.isSecure && m.keying = keying
  refine List.pairwise_filterMap.mpr (hpairs.imp_of_mem fun {m m'} hm hm' hadvances n hn n' hn' => ?_)
  rw [List.mem_filter, Bool.and_eq_true, decide_eq_true_eq] at hm hm'
  have hkeying : m.keying = m'.keying := hm.2.2.trans hm'.2.2.symm
  exact Making.number_lt hm.2.1 hm'.2.1 hkeying (hadvances (congrArg Prod.snd hkeying)) hn hn'

end ThreadedClient

end Runs

end GameLink
