import GameLink.Client.Stages
import GameLink.Proofs.Client.Chronicle
import GameLink.Proofs.Client.Interleaving
import GameLink.Proofs.Client.Makings
import GameLink.Proofs.Client.Outcome

/-!
# What a stage means for the attempts

A stage of a client whose calls and poll workers pause, seen from the attempts: whether one begins,
what the stage carries along from an earlier one, and which outcomes it tells.

**Results.**
* `lawful_advance`: the parts of calls.
* `lawful_handleDatagram`, `lawful_agree`, `lawful_settle`: datagrams, and acceptances in parts.
* `lawful_episode`: every stage begins an attempt and tells nothing, or it begins none and leaves
  the link, overtakes the attempt, or tells one outcome; and then the link was waiting, or the
  stage carried the link's own generation along.
-/

namespace GameLink

theorem Occasion.asking_ne_other : Occasion.asking ≠ .other := by
  intro h
  cases h

theorem Occasion.datagram_ne_other (kind : Option PacketKind) :
    Occasion.datagram kind ≠ .other := by
  intro h
  cases h

/-- A stage, with the clients before and after it. -/
structure Episode where
  before : Client
  occasion : Occasion
  /-- The generation that a part of an attempt or of an acceptance has carried along. -/
  carried : Option Nat
  after : Client

namespace Episode

def step (e : Episode) : Step :=
  e.before.step e.occasion e.after

/-- The events that an episode raises. -/
def raised (e : Episode) : List Event :=
  e.step.raised

/-- The outcomes that an episode tells the application. -/
def outcomes (e : Episode) : List Outcome :=
  e.step.outcomes

/-- What an episode does that begins no attempt: it leaves the link, it overtakes the attempt, or
it tells one outcome. -/
inductive Later (link : Link) (carried : Option Nat) (link' : Link) : List Outcome → Prop
  | leaves (hstatus : link'.status = link.status) (hgeneration : link'.generation = link.generation) :
      Later link carried link' []
  | overtakes (hgeneration : link.generation < link'.generation)
      (hstatus : link'.status = .connecting → link.status = .connecting) :
      Later link carried link' []
  | tells (o : Outcome) (hstatus : link'.status = o.status)
      (hgeneration : link'.generation = link.generation)
      (hfound : link.status = .connecting ∨ carried = some link.generation) :
      Later link carried link' [o]

/-- What is known of every episode. -/
structure Lawful (e : Episode) : Prop where
  events : e.after.events = e.before.events ++ e.raised
  begins : e.occasion.begins = true →
    e.outcomes = [] ∧ e.after.link.status = .connecting ∧
      e.before.link.generation < e.after.link.generation
  later : e.occasion.begins = false →
    Later e.before.link e.carried e.after.link e.outcomes

namespace Lawful

variable {c c' : Client} {occasion : Occasion} {carried : Option Nat} {raised : List Event}

theorem raised_eq (hevents : c'.events = c.events ++ raised) :
    Episode.raised ⟨c, occasion, carried, c'⟩ = raised :=
  (congrArg (List.drop c.events.length) hevents).trans List.drop_left

theorem of_later (raised : List Event) (hbegins : occasion.begins = false)
    (hevents : c'.events = c.events ++ raised)
    (hlater : Later c.link carried c'.link (raised.filterMap (Event.outcome? occasion))) :
    Lawful ⟨c, occasion, carried, c'⟩ := by
  have hraised : Episode.raised ⟨c, occasion, carried, c'⟩ = raised := raised_eq hevents
  refine ⟨hraised.symm ▸ hevents, fun h => ?_, fun _ => ?_⟩
  · cases hbegins.symm.trans h
  · have houtcomes : Episode.outcomes ⟨c, occasion, carried, c'⟩ =
        raised.filterMap (Event.outcome? occasion) :=
      congrArg (List.filterMap (Event.outcome? occasion)) hraised
    rw [houtcomes]
    exact hlater

theorem of_leaves (hbegins : occasion.begins = false) (hevents : c'.events = c.events)
    (hstatus : c'.link.status = c.link.status)
    (hgeneration : c'.link.generation = c.link.generation) :
    Lawful ⟨c, occasion, carried, c'⟩ :=
  of_later [] hbegins (by rw [hevents, List.append_nil])
    (.leaves hstatus hgeneration)

theorem of_link (hbegins : occasion.begins = false) (hevents : c'.events = c.events)
    (hlink : c'.link = c.link) : Lawful ⟨c, occasion, carried, c'⟩ :=
  of_leaves hbegins hevents (congrArg Link.status hlink) (congrArg Link.generation hlink)

theorem of_begins (hbegins : occasion.begins = true) (hevents : c'.events = c.events)
    (hstatus : c'.link.status = .connecting)
    (hgeneration : c.link.generation < c'.link.generation) :
    Lawful ⟨c, occasion, carried, c'⟩ := by
  have hraised : Episode.raised ⟨c, occasion, carried, c'⟩ = [] :=
    raised_eq (by rw [hevents, List.append_nil])
  refine ⟨?_, fun _ => ⟨?_, hstatus, hgeneration⟩, fun h => ?_⟩
  · rw [hraised, List.append_nil]
    exact hevents
  · exact congrArg (List.filterMap (Event.outcome? occasion)) hraised
  · cases hbegins.symm.trans h

/-- What touches neither the link nor the events may be put at the start and at the end. -/
theorem of_same {before after : Client} (h : Lawful ⟨before, occasion, carried, after⟩)
    (hbefore : before.link = c.link) (hbeforeEvents : before.events = c.events)
    (hafter : c'.link = after.link) (hafterEvents : c'.events = after.events) :
    Lawful ⟨c, occasion, carried, c'⟩ := by
  have hstep : c.step occasion c' = before.step occasion after := by
    simp only [Client.step, hbefore, hbeforeEvents, hafter, hafterEvents]
  obtain ⟨hevents, hbegins, hlater⟩ := h
  simp only [raised, outcomes, Episode.step] at hevents hbegins hlater
  constructor
  · simp only [raised, Episode.step, hstep, hafterEvents, ← hbeforeEvents]
    exact hevents
  · simp only [outcomes, Episode.step, hstep, hafter, ← hbefore]
    exact hbegins
  · simp only [outcomes, Episode.step, hstep, hafter, ← hbefore]
    exact hlater

/-- A part of an attempt that fails lets the attempt fail if it is the link's own. -/
theorem of_failAttempt {before : Client} {generation : Nat} (hlink : before.link = c.link)
    (hevents : before.events = c.events) (hbegins : occasion.begins = false)
    (hother : occasion ≠ .other) :
    Lawful ⟨c, occasion, some generation, before.failAttempt generation⟩ := by
  by_cases hown : c.link.generation = generation
  · subst hown
    have hshows := Client.shows_failAttempt before
    have hgeneration := Client.generation_failAttempt before before.link.generation
    rw [hlink] at hshows hgeneration
    refine of_later _ hbegins (hshows.events.trans (by rw [hevents])) ?_
    simp only [List.filterMap_cons, Event.outcome?, if_neg hother]
    exact .tells .failed hshows.status hgeneration (Or.inr rfl)
  · have hsame : before.failAttempt generation = before := by
      rw [Client.failAttempt, hlink, if_neg hown]
    rw [hsame]
    exact of_link hbegins hevents hlink

end Lawful
end Episode

namespace Call

/-- The generation that a part of a call has carried along. -/
def carried? (call : Call) : Option Nat :=
  call.attempt?.map Attempt.generation

/-- What a link meets in a part of a call. -/
def occasion (link : Link) : Call → Occasion
  | .begin _ _ isRetry => if link.mayBegin isRetry then .beginning isRetry else .other
  | .overtake | .stopBothWorkers _ => .ending
  | .stopWorkers .. | .keepRetryWorker _ | .openSocket _ | .sendRequest .. | .keepPollWorker _ =>
      .asking

/-- The parts of calls. -/
theorem lawful_advance (net : Network) (x : Station) (call : Call) :
    Episode.Lawful ⟨x.client, call.occasion x.client.link, call.carried?,
      (call.advance net x).2.client⟩ := by
  cases call with
  | begin host port isRetry =>
      simp only [occasion, advance]
      by_cases hmay : x.client.link.mayBegin isRetry = true
      · simp only [if_pos hmay]
        exact .of_begins rfl rfl rfl (Nat.lt_succ_self _)
      · simp only [if_neg hmay]
        exact .of_link rfl rfl rfl
  | stopWorkers attempt stopping =>
      simp only [advance]
      split
      · exact .of_link rfl rfl rfl
      · exact .of_link rfl (Client.events_count _ _) rfl
  | keepRetryWorker attempt => exact .of_link rfl rfl rfl
  | openSocket attempt =>
      have hlink := (Client.standing_openSocket net x.client attempt.host attempt.port).1
      have hevents := Client.events_openSocket net x.client attempt.host attempt.port
      simp only [advance]
      generalize x.client.openSocket net attempt.host attempt.port = outcome at hlink hevents ⊢
      obtain ⟨failure | ⟨remote, pair⟩, client⟩ := outcome
      · exact .of_failAttempt hlink hevents rfl Occasion.asking_ne_other
      · exact .of_link rfl hevents hlink
  | sendRequest attempt remote pair =>
      have hlink := (Client.standing_sendRequest net x.client remote pair).1
      have hevents := Client.events_sendRequest net x.client remote pair
      simp only [advance]
      generalize x.client.sendRequest net remote pair = outcome at hlink hevents ⊢
      obtain ⟨failure | ⟨⟩, client⟩ := outcome
      · exact .of_failAttempt hlink hevents rfl Occasion.asking_ne_other
      · have hstatus : client.link.status = _ := congrArg Link.status hlink
        have hgeneration : client.link.generation = _ := congrArg Link.generation hlink
        dsimp only at hlink hevents ⊢
        split
        · rename_i published hpublish
          simp only [Client.publish] at hpublish
          split at hpublish
          · cases hpublish
            exact .of_leaves rfl hevents hstatus hgeneration
          · cases hpublish
        · exact .of_link rfl hevents hlink
  | keepPollWorker attempt => exact .of_link rfl rfl rfl
  | overtake =>
      exact .of_later [] rfl (List.append_nil _).symm
        (.overtakes (Nat.lt_succ_self _) id)
  | stopBothWorkers stopping =>
      simp only [advance]
      split
      · exact .of_link rfl rfl rfl
      · exact .of_later [] rfl (List.append_nil _).symm
          (.overtakes (Nat.lt_succ_self _) (fun h => by cases h))

end Call

namespace Client

open Episode

variable {net : Network} {c : Client}

/-- A step that settles nothing or an attempt that waits, and how it moves the link. -/
theorem Sways.later {outcome : Flow × Client} (h : Sways c outcome) {occasion : Occasion}
    (hsettles : (c.step occasion outcome.2).Settles) (carried : Option Nat) :
    Later c.link carried outcome.2.link (c.step occasion outcome.2).outcomes := by
  -- that the link is only moved to another state where an outcome is told
  have hmoved {c' : Client} {status : LinkStatus} (hstatus : Answers c.link.status status)
      (hfooting : c'.footing = { c.footing with status })
      (hsettles : (c.step occasion c').Settles) :
      Later c.link carried c'.link (c.step occasion c').outcomes := by
    have hafter : c'.link.status = status := congrArg Footing.status hfooting
    have hgeneration : c'.link.generation = c.link.generation :=
      congrArg Footing.generation hfooting
    rcases hsettles with ⟨hnone, hsame⟩ | ⟨o, hone, hwaiting, ho⟩
    · rw [hnone]
      refine .leaves ?_ hgeneration
      rcases hsame with hsame | hover
      · exact hsame
      · have hdisconnected : status = .disconnected := hafter.symm.trans hover
        rcases hstatus with hsame | ⟨-, hup | hfailed⟩
        · exact hafter.trans hsame
        · cases hdisconnected.symm.trans hup
        · cases hdisconnected.symm.trans hfailed
    · rw [hone]
      exact .tells o ho hgeneration (Or.inl hwaiting)
  cases h with
  | kept status hstatus hfooting => exact hmoved hstatus hfooting hsettles
  | denied hstatus hfooting => exact hmoved (Or.inr ⟨hstatus, Or.inr rfl⟩) hfooting hsettles
  | dropped h =>
      rcases hsettles with ⟨hnone, -⟩ | ⟨o, -, -, ho⟩
      · rw [hnone]
        exact .overtakes h.generation fun hback => by cases h.status.symm.trans hback
      · have hnot : o.status = .disconnected := ho.symm.trans h.status
        cases o <;> cases hnot

/-- A judged step whose way on the link is known. -/
theorem Takes.lawful {flow : Flow} {c' : Client} {occasion : Occasion} {carried : Option Nat}
    (h : Takes c occasion c') (hsways : Sways c (flow, c')) (hbegins : occasion.begins = false) :
    Lawful ⟨c, occasion, carried, c'⟩ := by
  have hlater := hsways.later (h.judged_step.settles hbegins) carried
  obtain ⟨status, raised, hshows, -⟩ := h
  rw [hshows.step_eq] at hlater
  exact .of_later raised hbegins hshows.events hlater

theorem lawful_openSecure (c : Client) (s : Session) (header : Header) (bytes : Bytes)
    (kind : Option PacketKind) :
    Lawful ⟨c, .datagram kind, none, c.openSecure s header bytes⟩ := by
  simp only [openSecure]
  split
  · exact .of_later [_] rfl (events_raise _ _) (.leaves rfl rfl)
  · exact .of_link rfl (events_countAll _ _) (link_of_course (course_countAll _ _))

/-- A datagram, but for acceptances that are acted on in parts. -/
theorem lawful_handleDatagram (net : Network) (remote : Address) (bytes : Bytes)
    (hpool : c.pool.Uniform) :
    Lawful ⟨c, .datagram (Handling.kind? ⟨c, bytes⟩), none,
      (c.handleDatagram net remote bytes).2⟩ := by
  have hsways := sways_handleDatagram net c remote bytes
  simp only [handleDatagram, Handling.kind?] at hsways ⊢
  cases hheader : c.secureHeader? bytes with
  | some secure => exact lawful_openSecure c secure.1 secure.2 bytes none
  | none =>
      cases hcookie : bareCookie? bytes with
      | some cookie =>
          have hfooting := footing_answerCookie net c remote cookie
          exact .of_leaves rfl (events_answerCookie ..) (congrArg Footing.status hfooting)
            (congrArg Footing.generation hfooting)
      | none =>
          simp only [hheader, hcookie] at hsways
          have hloaded := loaded_loadedBuffer bytes hpool
          have hlink : (c.loadedBuffer bytes).2.link = c.link :=
            link_of_course (course_loadedBuffer c bytes)
          have hevents := events_loadedBuffer c bytes
          dsimp only
          generalize c.loadedBuffer bytes = loaded at hsways hloaded hlink hevents ⊢
          exact Takes.lawful
            (((takes_handlePlain net loaded.2 remote hloaded).after_same
              (congrArg Link.status hlink) hevents).then_same rfl rfl) hsways rfl

/-- The first part of an acceptance only takes the keys of the attempt. -/
theorem lawful_beginAnswer {bytes : Bytes} {answer : Answer} {c' : Client}
    (h : c.beginAnswer? bytes = some (answer, c')) (kind : Option PacketKind) :
    Lawful ⟨c, .datagram kind, none, c'⟩ ∧ answer.generation = c'.link.generation ∧
      c'.link.status = .connecting := by
  simp only [beginAnswer?] at h
  split at h
  · have hlink : (c.loadedBuffer bytes).2.link = c.link :=
      link_of_course (course_loadedBuffer c bytes)
    have hevents := events_loadedBuffer c bytes
    generalize c.loadedBuffer bytes = loaded at h hlink hevents
    have hstatus : loaded.2.link.status = c.link.status := congrArg Link.status hlink
    have hgeneration : loaded.2.link.generation = c.link.generation :=
      congrArg Link.generation hlink
    split at h
    · cases h
    · split at h
      · rename_i hwaiting
        cases h
        exact ⟨.of_leaves rfl hevents hstatus hgeneration, rfl, hwaiting⟩
      · cases h
  · cases h

theorem lawful_agree (c : Client) (answer : Answer) :
    Lawful ⟨c, .datagram (some .connectionAccepted), some answer.generation,
      (c.agree answer).2⟩ := by
  simp only [agree]
  split
  · exact .of_link rfl rfl rfl
  · split
    · exact .of_failAttempt rfl rfl rfl (Occasion.datagram_ne_other _)
    · exact .of_link rfl rfl rfl

theorem lawful_settle (c : Client) (answer : Answer) :
    Lawful ⟨c, .datagram (some .connectionAccepted), some answer.generation,
      c.settle answer⟩ := by
  simp only [settle]
  split
  · rename_i hown
    exact .of_later [.connected answer.acceptance.clientId] rfl
      ((events_raise _ _).trans (congrArg (· ++ _) (events_count _ _)))
      (.tells .established rfl rfl (Or.inr (congrArg some hown.symm)))
  · exact .of_link rfl rfl rfl

/-- A look of the retry worker. -/
theorem lawful_retryTick (c : Client) : Lawful ⟨c, .timer, none, c.retryTick.2⟩ := by
  have hlooks := looks_retryTick c
  generalize c.retryTick = outcome at hlooks ⊢
  cases hlooks with
  | waited => exact .of_link rfl rfl rfl
  | timedOut hwaiting =>
      exact .of_later [.connectionError] rfl
        ((events_raise _ _).trans (congrArg (· ++ _) (events_count _ _)))
        (.tells .failed rfl rfl (Or.inl hwaiting))
  | decided => exact .of_leaves rfl rfl rfl rfl
  | stopped => exact .of_link rfl rfl rfl

/-- A look of a poll worker at the link. -/
theorem lawful_look (c : Client) : Lawful ⟨c, .silence, none, c.look.2⟩ := by
  simp only [look]
  split
  · split
    · exact .of_later [.disconnected] rfl (events_raise _ _) (.overtakes (Nat.lt_succ_self _) nofun)
    · exact .of_link rfl rfl rfl
  · exact .of_link rfl rfl rfl
  · exact .of_link rfl rfl rfl
  · exact .of_link rfl rfl rfl

/-- What the application does beside connecting and disconnecting. -/
theorem lawful_errand (net : Network) (c : Client) (errand : Errand) :
    Lawful ⟨c, .other, none, (c.act net errand.action).2⟩ := by
  have hfooting := footing_errand net c errand
  have hstatus : (c.act net errand.action).2.link.status = c.link.status :=
    congrArg Footing.status hfooting
  have hgeneration : (c.act net errand.action).2.link.generation = c.link.generation :=
    congrArg Footing.generation hfooting
  have hsent {raised : List Event} (hshows : (c.act net errand.action).2.events = c.events ++ raised)
      (hraised : raised = [] ∨ raised = [.connectionError]) :
      Lawful ⟨c, .other, none, (c.act net errand.action).2⟩ := by
    refine .of_later raised rfl hshows ?_
    rcases hraised with rfl | rfl
    · exact .leaves hstatus hgeneration
    · exact .leaves hstatus hgeneration
  cases errand with
  | send contents =>
      obtain ⟨raised, hshows, hraised⟩ := shows_send net c contents
      exact hsent hshows.events hraised
  | sendAck sequence =>
      obtain ⟨raised, hshows, hraised⟩ := shows_sendAck net c sequence
      exact hsent hshows.events hraised
  | renewKeys => exact .of_leaves rfl (events_renewKeys c) hstatus hgeneration
  | setConnectTimeout _ | setRetryInterval _ | setRetryEnabled _ | elapse _ =>
      exact .of_leaves rfl rfl rfl rfl

end Client

namespace Client

/-- The kind of what is read: that of the packet in a signed datagram of the server. -/
def kindOf? (c : Client) (remote : Address) (arrival : Arrival) : Option PacketKind :=
  if arrival.sender = remote then
    Handling.kind? ⟨c.count (.received arrival.datagram.length), arrival.datagram⟩
  else
    none

variable {c : Client}

theorem lawful_read (net : Network) (remote : Address) (arrival : Arrival)
    (hpool : c.pool.Uniform) :
    Episode.Lawful ⟨c, .datagram (c.kindOf? remote arrival), none,
      (c.read net remote arrival).2⟩ := by
  simp only [read, kindOf?]
  by_cases hsender : arrival.sender = remote
  · simp only [if_pos hsender]
    by_cases hempty : arrival.datagram = []
    · simp only [if_pos hempty]
      exact .of_link rfl (events_count _ _) rfl
    · simp only [if_neg hempty]
      have hlawful := lawful_handleDatagram (c := c.count (.received arrival.datagram.length)) net
        remote arrival.datagram hpool
      exact hlawful.of_same rfl (events_count _ _) rfl rfl
  · simp only [if_neg hsender]
    exact .of_link rfl rfl rfl

theorem lawful_readAnswer {remote : Address} {arrival : Arrival} {answer : Answer} {c' : Client}
    (h : c.readAnswer? remote arrival = some (answer, c')) (kind : Option PacketKind) :
    Episode.Lawful ⟨c, .datagram kind, none, c'⟩ ∧ answer.generation = c'.link.generation ∧
      c'.link.status = .connecting := by
  simp only [readAnswer?] at h
  split at h
  · obtain ⟨hlawful, hcarried⟩ := lawful_beginAnswer h kind
    exact ⟨hlawful.of_same rfl (events_count _ _) rfl rfl, hcarried⟩
  · cases h

end Client

namespace StagedClient

/-- What a link meets in a turn. -/
def turnOccasion (s : StagedClient) : Turn → Occasion
  | .connect host port => (Call.begin host port false).occasion s.client.link
  | .disconnect => .ending
  | .reconnect =>
      match s.client.takeRetry with
      | (some (host, port), client) => (Call.begin host port true).occasion client.link
      | (none, _) => .other
  | .resume index =>
      match s.shared.calls[index]? with
      | some (.paused call) => call.occasion s.client.link
      | _ => .other
  | .retryTurn _ => .timer
  | .pollTurn _ => .silence
  | .errand _ | .deliver .. | .leave _ => .other

/-- What a link meets in a stage. -/
def occasion (s : StagedClient) : Stage → Occasion
  | .turn turn => s.turnOccasion turn
  | .goOn generation =>
      match s.readings generation with
      | none => .other
      | some (.reading remote) =>
          .datagram ((s.next? generation).bind fun next => next.1.kindOf? remote next.2)
      | some (.agreeing ..) | some (.settling ..) => .datagram (some .connectionAccepted)

/-- The generation that a stage has carried along. -/
def carried (s : StagedClient) : Stage → Option Nat
  | .turn (.resume index) =>
      match s.shared.calls[index]? with
      | some (.paused call) => call.carried?
      | _ => none
  | .turn _ => none
  | .goOn generation =>
      ((s.readings generation).bind Reading.answer?).map Answer.generation

def episode (net : Network) (s : StagedClient) (stage : Stage) : Episode where
  before := s.client
  occasion := s.occasion stage
  carried := s.carried stage
  after := (s.take net stage).client

/-- The episodes of a run. -/
def episodes (s : StagedClient) : List (Network × Stage) → List Episode
  | [] => []
  | (net, stage) :: rest => s.episode net stage :: (s.take net stage).episodes rest

variable {s : StagedClient}

/-- The first part of a call. -/
theorem lawful_call (net : Network) (s : StagedClient) (call : Call)
    (hnone : call.carried? = none) :
    Episode.Lawful ⟨s.client, call.occasion s.client.link, none,
      (s.shared.call net call).station.client⟩ := by
  have hlawful := call.lawful_advance net s.station
  rw [hnone] at hlawful
  rw [SharedClient.station_call]
  exact hlawful

theorem lawful_reconnect (net : Network) (s : StagedClient) :
    (s.episode net (.turn .reconnect)).Lawful := by
  have hlink : s.client.takeRetry.2.link = s.client.link := by
    simp only [Client.takeRetry]
    split
    · rfl
    · rfl
  have hevents := Client.events_takeRetry s.client
  simp only [episode, occasion, turnOccasion, carried, take, takeTurn, SharedClient.take,
    SharedClient.reconnect, client, station] at hlink hevents ⊢
  generalize s.shared.station.client.takeRetry = taken at hlink hevents ⊢
  obtain ⟨_ | ⟨host, port⟩, c⟩ := taken
  · exact .of_link rfl hevents hlink
  · have hlawful := lawful_call net
      { s with shared := s.shared.update { s.station with client := c } }
      (.begin host port true) rfl
    exact hlawful.of_same hlink hevents rfl rfl

theorem lawful_resume (net : Network) (s : StagedClient) (index : Nat) :
    (s.episode net (.turn (.resume index))).Lawful := by
  simp only [episode, occasion, turnOccasion, carried, take, takeTurn, SharedClient.take,
    SharedClient.resume, client, station]
  rcases s.shared.calls[index]? with _ | call | result
  · exact .of_link rfl rfl rfl
  · exact call.lawful_advance net s.station
  · exact .of_link rfl rfl rfl

theorem lawful_retryTurn (net : Network) (s : StagedClient) (generation : Nat) :
    (s.episode net (.turn (.retryTurn generation))).Lawful := by
  have hlawful := Client.lawful_retryTick s.client
  simp only [episode, occasion, turnOccasion, carried, take, takeTurn, SharedClient.take,
    SharedClient.update, Station.retryTurn, client, station] at hlawful ⊢
  split
  · generalize s.shared.station.client.retryTick = outcome at hlawful ⊢
    obtain ⟨_ | _ | _, c⟩ := outcome
    · exact hlawful
    · exact hlawful.of_same rfl rfl rfl rfl
    · exact hlawful
  · exact .of_link rfl rfl rfl

theorem lawful_lookTurn (net : Network) (s : StagedClient) (generation : Nat) :
    (s.episode net (.turn (.pollTurn generation))).Lawful := by
  simp only [episode, occasion, turnOccasion, carried, take, takeTurn, look]
  split
  · rename_i worker _ _
    have hlawful := Client.lawful_look (s.station.seenBy worker)
    generalize (s.station.seenBy worker).look = outcome at hlawful ⊢
    obtain ⟨_ | _ | _, seen⟩ := outcome
    · exact hlawful.of_same rfl rfl rfl rfl
    · exact hlawful.of_same rfl rfl rfl rfl
    · exact hlawful.of_same rfl rfl rfl rfl
  · exact .of_link rfl rfl rfl

theorem lawful_takeTurn (net : Network) (s : StagedClient) (turn : Turn) :
    (s.episode net (.turn turn)).Lawful := by
  cases turn with
  | connect host port => exact lawful_call net s (.begin host port false) rfl
  | disconnect => exact lawful_call net s .overtake rfl
  | reconnect => exact lawful_reconnect net s
  | resume index => exact lawful_resume net s index
  | errand errand => exact Client.lawful_errand net s.client errand
  | deliver generation arrival => exact .of_link rfl rfl rfl
  | retryTurn generation => exact lawful_retryTurn net s generation
  | pollTurn generation => exact lawful_lookTurn net s generation
  | leave badge =>
      obtain ⟨_ | _, generation⟩ := badge
      · exact .of_link rfl rfl rfl
      · simp only [episode, take, takeTurn]
        split
        · exact .of_link rfl rfl rfl
        · exact .of_link rfl rfl rfl

/-- What a poll worker sees of the client, but for the socket, is the client. -/
theorem eq_of_next {generation : Nat} {seen : Client} {arrival : Arrival}
    (h : s.next? generation = some (seen, arrival)) :
    ∃ socket, seen = { s.client with socket } := by
  simp only [next?] at h
  split at h
  · cases h
  · simp only [Client.nextArrival?] at h
    split at h
    · cases h
      exact ⟨_, rfl⟩
    · cases h

theorem lawful_readNext (net : Network) (hpool : s.client.pool.Uniform) {generation : Nat}
    {remote : Address} (hreading : s.readings generation = some (.reading remote)) :
    (s.episode net (.goOn generation)).Lawful := by
  simp only [episode, occasion, carried, take, goOn, hreading, readNext]
  cases hnext : s.next? generation with
  | none => exact .of_link rfl rfl rfl
  | some next =>
      obtain ⟨seen, arrival⟩ := next
      obtain ⟨socket, rfl⟩ := eq_of_next hnext
      dsimp only
      cases hanswer : Client.readAnswer? remote { s.client with socket } arrival with
      | some answered =>
          obtain ⟨answer, after⟩ := answered
          exact (Client.lawful_readAnswer hanswer _).1.of_same rfl rfl rfl rfl
      | none =>
          have hlawful := Client.lawful_read (c := { s.client with socket }) net remote arrival
            hpool
          dsimp only [Option.bind_some]
          generalize Client.read net remote { s.client with socket } arrival = outcome
            at hlawful ⊢
          obtain ⟨_ | _, after⟩ := outcome
          · exact hlawful.of_same rfl rfl rfl rfl
          · exact hlawful.of_same rfl rfl rfl rfl

/-- Every stage begins an attempt and tells nothing, or it begins none and leaves the link,
overtakes the attempt or tells an outcome. -/
theorem lawful_episode (net : Network) (hpool : s.client.pool.Uniform) (stage : Stage) :
    (s.episode net stage).Lawful := by
  cases stage with
  | turn turn => exact lawful_takeTurn net s turn
  | goOn generation =>
      cases hreading : s.readings generation with
      | none =>
          simp only [episode, occasion, carried, take, goOn, hreading]
          exact .of_link rfl rfl rfl
      | some reading =>
          cases reading with
          | reading remote => exact lawful_readNext net hpool hreading
          | agreeing remote answer =>
              have hlawful := Client.lawful_agree s.client answer
              simp only [episode, occasion, carried, take, goOn, hreading]
              generalize s.client.agree answer = outcome at hlawful ⊢
              obtain ⟨_ | _, after⟩ := outcome
              · exact hlawful.of_same rfl rfl rfl rfl
              · exact hlawful
          | settling remote answer =>
              have hlawful := Client.lawful_settle s.client answer
              simp only [episode, occasion, carried, take, goOn, hreading]
              exact hlawful.of_same rfl rfl rfl rfl

end StagedClient
end GameLink
