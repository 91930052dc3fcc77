import GameLink.Proofs.Client.Carrying

/-!
# The outcomes of an attempt that pauses

An attempt has its outcome when the link comes up, is refused or fails.  Meanwhile its call may be
paused, and the poll worker in the middle of an acceptance.

**Results.**
* `length_timely_le_one`, `forall_late_iff`: from one beginning to the next there is at most one
  timely outcome, and at most one at all exactly if none is late.
* `ignored_of_idle`: an answer that is read when the link does not wait is ignored.
* `late_iff`: which stages tell a late outcome.
* `outcomes_exact`: the outcomes of every attempt in a run of a new client.
-/

namespace GameLink

namespace Episode

/-- A datagram that is read and handled as an answer to the request. -/
def ReadsAnswer (e : Episode) : Prop :=
  e.carried = none ∧
    (e.occasion = .datagram (some .connectionAccepted) ∨
      e.occasion = .datagram (some .connectionDenied))

/-- Status, client number and session stay as they are, nothing is raised and nothing is sent. -/
structure Ignored (e : Episode) : Prop where
  status : e.after.link.status = e.before.link.status
  clientId : e.after.link.clientId = e.before.link.clientId
  session : e.after.session = e.before.session
  events : e.after.events = e.before.events
  datagrams : e.after.datagrams = e.before.datagrams

section Told

variable {c c' : Client} {occasion : Occasion} {carried : Option Nat}

theorem outcomes_of_same (hevents : c'.events = c.events) :
    Episode.outcomes ⟨c, occasion, carried, c'⟩ = [] := by
  have hraised : Episode.raised ⟨c, occasion, carried, c'⟩ = [] :=
    Lawful.raised_eq (by rw [hevents, List.append_nil])
  exact congrArg (List.filterMap (Event.outcome? occasion)) hraised

/-- A part of the link's own attempt that fails tells so. -/
theorem outcomes_failAttempt {before : Client} (hlink : before.link = c.link)
    (hevents : before.events = c.events) (hother : occasion ≠ .other) :
    Episode.outcomes ⟨c, occasion, carried, before.failAttempt c.link.generation⟩ = [.failed] := by
  have hraised : Episode.raised ⟨c, occasion, carried, before.failAttempt c.link.generation⟩ =
      [.connectionError] :=
    Lawful.raised_eq (by rw [← hlink, (Client.shows_failAttempt before).events, hevents])
  have houtcome : Event.outcome? occasion .connectionError = some .failed := if_neg hother
  have houtcomes := congrArg (List.filterMap (Event.outcome? occasion)) hraised
  rwa [List.filterMap_cons, houtcome] at houtcomes

theorem outcomes_iff_of_same {P : Prop} (hevents : c'.events = c.events) (hfails : ¬ P) :
    Episode.outcomes ⟨c, occasion, carried, c'⟩ ≠ [] ↔ P :=
  iff_of_false (fun hsome => hsome (outcomes_of_same hevents)) hfails

theorem outcomes_iff_of_failed {before : Client} {generation : Nat} {P : Prop}
    (hown : generation = c.link.generation) (hlink : before.link = c.link)
    (hevents : before.events = c.events) (hother : occasion ≠ .other) (hfails : P) :
    Episode.outcomes ⟨c, occasion, carried, before.failAttempt generation⟩ ≠ [] ↔ P := by
  rw [hown, outcomes_failAttempt hlink hevents hother]
  exact iff_of_true (List.cons_ne_nil _ _) hfails

end Told

end Episode

namespace Client

section Answers

variable {c : Client}

/-- A link that does not wait begins no acceptance. -/
theorem beginAnswer_of_idle (hidle : c.link.status ≠ .connecting) (bytes : Bytes) :
    c.beginAnswer? bytes = none := by
  simp only [beginAnswer?]
  split
  · have hlink : (c.loadedBuffer bytes).2.link = c.link :=
      link_of_course (course_loadedBuffer c bytes)
    generalize c.loadedBuffer bytes = loaded at hlink
    have hstatus : loaded.2.heard.link.status ≠ .connecting := by
      rw [← hlink] at hidle
      exact hidle
    split
    · rfl
    · exact if_neg hstatus
  · rfl

theorem readAnswer_of_idle (hidle : c.link.status ≠ .connecting) (remote : Address)
    (arrival : Arrival) : c.readAnswer? remote arrival = none := by
  unfold readAnswer?
  split
  · exact beginAnswer_of_idle (c := c.count (.received arrival.datagram.length)) hidle _
  · rfl

theorem kind?_nil (c : Client) : Handling.kind? ⟨c, []⟩ = none := by
  simp only [Handling.kind?]
  split
  · rfl
  · rfl

/-- An answer that nothing waits for is read and only heard. -/
theorem read_of_late (hpool : c.pool.Uniform) {remote : Address} {arrival : Arrival}
    {kind : PacketKind} (hkind : c.kindOf? remote arrival = some kind)
    (hanswer : kind.isAnswer = true) (hidle : c.link.status ≠ .connecting) (net : Network) :
    ∃ pool, c.read net remote arrival =
      (.goOn, { (c.count (.received arrival.datagram.length)).heard with pool }) := by
  simp only [kindOf?] at hkind
  split at hkind
  · rename_i hsender
    obtain ⟨pool, hlate⟩ := handleDatagram_of_late
      (c := c.count (.received arrival.datagram.length)) hpool hkind hanswer hidle net remote
    have hsome : arrival.datagram ≠ [] := by
      intro hnil
      rw [hnil, kind?_nil] at hkind
      cases hkind
    simp only [read, if_pos hsender, if_neg hsome]
    exact ⟨pool, hlate⟩
  · cases hkind

end Answers

end Client

namespace Call

theorem occasion_ne_datagram (call : Call) (link : Link) (kind : Option PacketKind) :
    call.occasion link ≠ .datagram kind := by
  cases call with
  | begin host port isRetry =>
      simp only [occasion]
      split
      · intro h
        cases h
      · intro h
        cases h
  | _ =>
      intro h
      cases h

/-- The next part of a call fails: the server has no address or there is no socket, or the request
is not taken. -/
def Fails (net : Network) (c : Client) : Call → Prop
  | .openSocket attempt =>
      ∀ remote, net.resolve attempt.host attempt.port = some remote → net.opens remote = false
  | .sendRequest _ remote pair =>
      c.isCarried net remote (Client.request (pair.map KeyPair.publicKey) none) = false
  | _ => False

section Parts

open Episode

variable {x : Station} {attempt : Attempt}

theorem outcomes_openSocket_iff (net : Network)
    (hown : attempt.generation = x.client.link.generation) :
    Episode.outcomes ⟨x.client, .asking, some attempt.generation,
        ((openSocket attempt).advance net x).2.client⟩ ≠ [] ↔
      (openSocket attempt).Fails net x.client := by
  simp only [advance, Fails, Client.openSocket]
  cases hresolve : net.resolve attempt.host attempt.port with
  | none =>
      exact outcomes_iff_of_failed hown rfl rfl Occasion.asking_ne_other
        (fun _ hremote => by cases hremote)
  | some remote =>
      dsimp only
      by_cases hopens : net.opens remote = true
      · simp only [if_pos hopens]
        refine outcomes_iff_of_same ?_ fun hfails => ?_
        · simp only [Client.drawKeyPair]
          split
          · rfl
          · rfl
        · cases hopens.symm.trans (hfails remote rfl)
      · simp only [if_neg hopens]
        refine outcomes_iff_of_failed hown rfl rfl Occasion.asking_ne_other fun other hother => ?_
        cases hother
        exact Bool.eq_false_iff.mpr hopens

theorem outcomes_sendRequest_iff (net : Network) {remote : Address} {pair : Option KeyPair}
    (hown : attempt.generation = x.client.link.generation) :
    Episode.outcomes ⟨x.client, .asking, some attempt.generation,
        ((sendRequest attempt remote pair).advance net x).2.client⟩ ≠ [] ↔
      (sendRequest attempt remote pair).Fails net x.client := by
  simp only [advance, Fails, Client.sendRequest]
  by_cases hcarried :
      x.client.isCarried net remote (Client.request (pair.map KeyPair.publicKey) none) = true
  · simp only [if_pos hcarried]
    refine outcomes_iff_of_same ?_ (by simp [hcarried])
    split
    · rename_i published hpublish
      simp only [Client.publish] at hpublish
      split at hpublish
      · cases hpublish
        exact Client.events_noteSent _ _ _
      · cases hpublish
    · exact Client.events_noteSent _ _ _
  · simp only [if_neg hcarried]
    exact outcomes_iff_of_failed hown rfl rfl Occasion.asking_ne_other
      (Bool.eq_false_iff.mpr hcarried)

/-- A part of the link's own attempt tells an outcome exactly if it fails. -/
theorem outcomes_advance_iff (net : Network) (x : Station) {call : Call}
    (hown : call.carried? = some x.client.link.generation) :
    Episode.outcomes ⟨x.client, call.occasion x.client.link, call.carried?,
        (call.advance net x).2.client⟩ ≠ [] ↔
      call.Fails net x.client := by
  cases call with
  | begin host port isRetry => cases hown
  | stopWorkers attempt stopping =>
      simp only [advance]
      split
      · exact outcomes_iff_of_same rfl id
      · exact outcomes_iff_of_same (Client.events_count _ _) id
  | keepRetryWorker attempt => exact outcomes_iff_of_same rfl id
  | openSocket attempt => exact outcomes_openSocket_iff net (Option.some.inj hown)
  | sendRequest attempt remote pair => exact outcomes_sendRequest_iff net (Option.some.inj hown)
  | keepPollWorker attempt => exact outcomes_iff_of_same rfl id
  | overtake => cases hown
  | stopBothWorkers stopping => cases hown

end Parts

end Call

namespace Client

variable {c : Client} {answer : Answer}

theorem outcomes_agree_iff (hown : answer.generation = c.link.generation) :
    Episode.outcomes ⟨c, .datagram (some .connectionAccepted), some answer.generation,
        (c.agree answer).2⟩ ≠ [] ↔
      ∃ pair failure, answer.pair = some pair ∧
        c.acceptedSession pair answer.acceptance = .error failure := by
  simp only [agree]
  cases hpair : answer.pair with
  | none => exact Episode.outcomes_iff_of_same rfl (by simp)
  | some pair =>
      dsimp only
      cases hsession : c.acceptedSession pair answer.acceptance with
      | error failure =>
          exact Episode.outcomes_iff_of_failed hown rfl rfl (Occasion.datagram_ne_other _)
            ⟨pair, failure, rfl, hsession⟩
      | ok session =>
          refine Episode.outcomes_iff_of_same rfl ?_
          rintro ⟨_, _, heq, herror⟩
          cases heq
          cases hsession.symm.trans herror

theorem outcomes_settle (hown : answer.generation = c.link.generation) :
    Episode.outcomes ⟨c, .datagram (some .connectionAccepted), some answer.generation,
      c.settle answer⟩ = [.established] := by
  have hraised : Episode.raised ⟨c, .datagram (some .connectionAccepted), some answer.generation,
      c.settle answer⟩ = [.connected answer.acceptance.clientId] := by
    refine Episode.Lawful.raised_eq ?_
    rw [settle, if_pos hown.symm]
    exact (events_raise _ _).trans (congrArg (· ++ _) (events_count _ _))
  exact congrArg (List.filterMap _) hraised

end Client

/-- The next part of an acceptance ends it: no session can be agreed on, or it is the last part. -/
def Reading.Ends (c : Client) : Reading → Prop
  | .reading _ => False
  | .agreeing _ answer =>
      ∃ pair failure, answer.pair = some pair ∧
        c.acceptedSession pair answer.acceptance = .error failure
  | .settling .. => True

namespace StagedClient

variable {s : StagedClient} {net : Network}

section Lateness

/-- What a stage carries along fails or comes to its end. -/
def Ends (net : Network) (s : StagedClient) : Stage → Prop
  | .turn (.resume index) =>
      ∃ call, s.shared.calls[index]? = some (.paused call) ∧ call.Fails net s.client
  | .goOn worker => ∃ reading, s.readings worker = some reading ∧ reading.Ends s.client
  | .turn _ => False

theorem outcomes_resume_iff {index : Nat}
    (hown : s.carried (.turn (.resume index)) = some s.client.link.generation) :
    (s.episode net (.turn (.resume index))).outcomes ≠ [] ↔
      s.Ends net (.turn (.resume index)) := by
  simp only [carried] at hown
  cases hcall : s.shared.calls[index]? with
  | none =>
      simp only [hcall] at hown
      cases hown
  | some progress =>
      cases progress with
      | returned result =>
          simp only [hcall] at hown
          cases hown
      | paused call =>
          simp only [hcall] at hown
          have hpart := Call.outcomes_advance_iff net s.station hown
          simp only [episode, occasion, turnOccasion, carried, take, takeTurn, SharedClient.take,
            SharedClient.resume, hcall, Ends]
          refine hpart.trans ⟨fun hfails => ⟨call, rfl, hfails⟩, ?_⟩
          rintro ⟨_, heq, hfails⟩
          cases heq
          exact hfails

theorem ends_goOn_iff {worker : Nat} {reading : Reading}
    (hreading : s.readings worker = some reading) :
    s.Ends net (.goOn worker) ↔ reading.Ends s.client := by
  refine ⟨?_, fun hends => ⟨reading, hreading, hends⟩⟩
  rintro ⟨_, heq, hends⟩
  cases hreading.symm.trans heq
  exact hends

theorem outcomes_goOn_iff {worker : Nat}
    (hown : s.carried (.goOn worker) = some s.client.link.generation) :
    (s.episode net (.goOn worker)).outcomes ≠ [] ↔ s.Ends net (.goOn worker) := by
  simp only [carried] at hown
  cases hreading : s.readings worker with
  | none =>
      simp only [hreading] at hown
      cases hown
  | some reading =>
      rw [ends_goOn_iff hreading]
      simp only [hreading] at hown
      cases reading with
      | reading remote => cases hown
      | agreeing remote answer =>
          have hpart := Client.outcomes_agree_iff (Option.some.inj hown)
          simp only [episode, occasion, carried, take, goOn, hreading]
          generalize s.client.agree answer = outcome at hpart ⊢
          obtain ⟨_ | _, after⟩ := outcome
          · exact hpart
          · exact hpart
      | settling remote answer =>
          have hpart := Client.outcomes_settle (Option.some.inj hown)
          simp only [episode, occasion, carried, take, goOn, hreading]
          exact iff_of_true (fun hnone => List.cons_ne_nil _ _ (hpart.symm.trans hnone)) trivial

/-- What carries the link's own generation along tells an outcome exactly if it ends. -/
theorem outcomes_iff_ends {stage : Stage}
    (hown : s.carried stage = some s.client.link.generation) :
    (s.episode net stage).outcomes ≠ [] ↔ s.Ends net stage := by
  cases stage with
  | turn turn =>
      cases turn with
      | resume index => exact outcomes_resume_iff hown
      | _ => cases hown
  | goOn worker => exact outcomes_goOn_iff hown

/-- A stage tells a late outcome exactly if it carries the link's own generation along, comes to
its end, and finds the link not waiting any more. -/
theorem late_iff (hpool : s.client.pool.Uniform) (net : Network) (stage : Stage) :
    (s.episode net stage).late ≠ [] ↔
      s.client.link.status ≠ .connecting ∧ s.carried stage = some s.client.link.generation ∧
        s.Ends net stage := by
  constructor
  · intro hlate
    obtain ⟨hidle, hown⟩ := (lawful_episode net hpool stage).of_late hlate
    refine ⟨hidle, hown, (outcomes_iff_ends hown).mp ?_⟩
    rwa [Episode.late, if_neg hidle] at hlate
  · rintro ⟨hidle, hown, hends⟩
    rw [Episode.late, if_neg (show (s.episode net stage).before.link.status ≠ _ from hidle)]
    exact (outcomes_iff_ends hown).mpr hends

end Lateness

section Stretches

variable {told : Prop} {stages : List (Network × Stage)}

/-- Once the link does not wait it is told nothing that it waits for, until an attempt begins. -/
theorem timely_eq_nil_of_idle (h : s.Tracked told) (hidle : s.client.link.status ≠ .connecting)
    (hlater : ∀ e ∈ s.episodes stages, e.occasion.begins = false) :
    (s.episodes stages).flatMap Episode.timely = [] := by
  induction stages generalizing s told with
  | nil => rfl
  | cons first rest ih =>
      obtain ⟨net, stage⟩ := first
      obtain ⟨hfirst, hothers⟩ := List.forall_mem_cons.mp hlater
      have hafter := (lawful_episode net h.uniform stage).idle hfirst hidle
      rw [episodes, List.flatMap_cons, ih (h.take_later net hfirst) hafter hothers,
        List.append_nil]
      exact if_neg hidle

/-- From one beginning to the next there is at most one timely outcome. -/
theorem length_timely_le_one (h : s.Tracked told)
    (hlater : ∀ e ∈ s.episodes stages, e.occasion.begins = false) :
    ((s.episodes stages).flatMap Episode.timely).length ≤ 1 := by
  -- the first outcome takes the link out of waiting, and it does not come back
  induction stages generalizing s told with
  | nil => exact Nat.zero_le _
  | cons first rest ih =>
      obtain ⟨net, stage⟩ := first
      obtain ⟨hfirst, hothers⟩ := List.forall_mem_cons.mp hlater
      have hlawful := lawful_episode net h.uniform stage
      have hnext := h.take_later net hfirst
      rw [episodes, List.flatMap_cons]
      by_cases hnone : (s.episode net stage).timely = []
      · rw [hnone, List.nil_append]
        exact ih hnext hothers
      · have hsome : (s.episode net stage).outcomes ≠ [] := by
          rw [Episode.outcomes_eq]
          exact fun hnil => hnone (List.append_eq_nil_iff.mp hnil).1
        have hrest := timely_eq_nil_of_idle hnext (hlawful.status_ne_of_outcomes hfirst hsome)
          hothers
        have hone := hlawful.length_outcomes_le_one hfirst
        rw [Episode.outcomes_eq, List.length_append] at hone
        rw [hrest, List.append_nil]
        omega

/-- What is told late was told in time before. -/
theorem told_or_timely_of_late (h : s.Tracked told)
    (hlater : ∀ e ∈ s.episodes stages, e.occasion.begins = false)
    (hlate : ∃ e ∈ s.episodes stages, e.late ≠ []) :
    told ∨ (s.episodes stages).flatMap Episode.timely ≠ [] := by
  induction stages generalizing s told with
  | nil =>
      obtain ⟨e, he, -⟩ := hlate
      cases he
  | cons first rest ih =>
      obtain ⟨net, stage⟩ := first
      obtain ⟨hfirst, hothers⟩ := List.forall_mem_cons.mp hlater
      by_cases hnone : (s.episode net stage).late = []
      · have hrest : ∃ e ∈ (s.take net stage).episodes rest, e.late ≠ [] := by
          obtain ⟨e, he, hsome⟩ := hlate
          rcases List.mem_cons.mp he with rfl | hmem
          · exact absurd hnone hsome
          · exact ⟨e, hmem, hsome⟩
        rcases ih (h.take_later net hfirst) hothers hrest with (htold | hsome) | htimely
        · exact Or.inl htold
        · rw [Episode.outcomes_eq, hnone, List.append_nil] at hsome
          exact Or.inr fun hnil => hsome (List.append_eq_nil_iff.mp hnil).1
        · exact Or.inr fun hnil => htimely (List.append_eq_nil_iff.mp hnil).2
      · exact Or.inl (h.told_of_late hnone)

theorem length_outcomes (es : List Episode) :
    (es.flatMap Episode.outcomes).length =
      (es.flatMap Episode.timely).length + (es.flatMap Episode.late).length := by
  induction es with
  | nil => rfl
  | cons e rest ih =>
      simp only [List.flatMap_cons, List.length_append, ih, Episode.outcomes_eq e]
      omega

/-- After a beginning there is at most one outcome exactly if none is late. -/
theorem forall_late_iff (h : s.Tracked False)
    (hlater : ∀ e ∈ s.episodes stages, e.occasion.begins = false) :
    ((s.episodes stages).flatMap Episode.outcomes).length ≤ 1 ↔
      ∀ e ∈ s.episodes stages, e.late = [] := by
  have htimely := length_timely_le_one h hlater
  have hlength := length_outcomes (s.episodes stages)
  constructor
  · intro hone e he
    by_contra hlate
    have hsome := (told_or_timely_of_late h hlater ⟨e, he, hlate⟩).resolve_left id
    have hlates : (s.episodes stages).flatMap Episode.late ≠ [] := fun hnil =>
      hlate (List.flatMap_eq_nil_iff.mp hnil e he)
    have hfirst := List.length_pos_of_ne_nil hsome
    have hsecond := List.length_pos_of_ne_nil hlates
    omega
  · intro hnone
    rw [hlength, List.flatMap_eq_nil_iff.mpr hnone]
    exact htimely

end Stretches

section Answers

theorem turnOccasion_ne_datagram (s : StagedClient) (turn : Turn) (kind : Option PacketKind) :
    s.turnOccasion turn ≠ .datagram kind := by
  cases turn with
  | connect host port => exact (Call.begin host port false).occasion_ne_datagram _ _
  | reconnect =>
      simp only [turnOccasion]
      split
      · exact Call.occasion_ne_datagram _ _ _
      · intro h
        cases h
  | resume index =>
      simp only [turnOccasion]
      split
      · exact Call.occasion_ne_datagram _ _ _
      · intro h
        cases h
  | _ =>
      intro h
      cases h

/-- An answer is read by a poll worker in the middle of its turn. -/
theorem exists_next_of_readsAnswer {stage : Stage} (h : (s.episode net stage).ReadsAnswer) :
    ∃ worker remote seen arrival kind, stage = .goOn worker ∧
      s.readings worker = some (.reading remote) ∧ s.next? worker = some (seen, arrival) ∧
      seen.kindOf? remote arrival = some kind ∧ kind.isAnswer = true := by
  obtain ⟨hnone, hoccasion⟩ := h
  obtain ⟨kind, hkind, hanswer⟩ : ∃ kind, s.occasion stage = .datagram (some kind) ∧
      kind.isAnswer = true := by
    rcases hoccasion with haccepted | hdenied
    · exact ⟨_, haccepted, rfl⟩
    · exact ⟨_, hdenied, rfl⟩
  cases stage with
  | turn turn => exact absurd hkind (turnOccasion_ne_datagram s turn _)
  | goOn worker =>
      simp only [occasion] at hkind
      cases hreading : s.readings worker with
      | none =>
          simp only [hreading] at hkind
          cases hkind
      | some reading =>
          cases reading with
          | reading remote =>
              simp only [hreading] at hkind
              obtain ⟨⟨seen, arrival⟩, hnext, hread⟩ :=
                Option.bind_eq_some_iff.mp (Occasion.datagram.inj hkind)
              exact ⟨worker, remote, seen, arrival, kind, rfl, hreading, hnext, hread, hanswer⟩
          | agreeing remote answer =>
              simp only [episode, carried, hreading] at hnone
              cases hnone
          | settling remote answer =>
              simp only [episode, carried, hreading] at hnone
              cases hnone

/-- An answer that is read when the link does not wait is ignored. -/
theorem ignored_of_idle (hpool : s.client.pool.Uniform)
    (hidle : s.client.link.status ≠ .connecting) {stage : Stage}
    (hreads : (s.episode net stage).ReadsAnswer) : (s.episode net stage).Ignored := by
  obtain ⟨worker, remote, seen, arrival, kind, rfl, hreading, hnext, hkind, hanswer⟩ :=
    exists_next_of_readsAnswer hreads
  obtain ⟨socket, rfl⟩ := eq_of_next hnext
  obtain ⟨pool, hread⟩ := Client.read_of_late (c := { s.client with socket }) hpool hkind hanswer
    hidle net
  have hnone := Client.readAnswer_of_idle (c := { s.client with socket }) hidle remote arrival
  simp only [episode, take, goOn, hreading, readNext, hnext, hnone]
  generalize Client.read net remote { s.client with socket } arrival = outcome at hread ⊢
  subst hread
  exact ⟨rfl, rfl, rfl, Client.events_count _ _, Client.datagrams_count _ _⟩

end Answers

section Runs

variable {told : Prop} {stages : List (Network × Stage)}

/-- The events of a run are those of its episodes. -/
theorem events_run (h : s.Tracked told) (stages : List (Network × Stage)) :
    (s.run stages).client.events =
      s.client.events ++ (s.episodes stages).flatMap Episode.raised := by
  induction stages generalizing s told with
  | nil => exact (List.append_nil _).symm
  | cons first rest ih =>
      obtain ⟨net, stage⟩ := first
      obtain ⟨told', hnext⟩ := h.take net stage
      have hone : (s.take net stage).client.events = _ :=
        (lawful_episode net h.uniform stage).events
      rw [run_cons, ih hnext, hone, List.append_assoc]
      rfl

theorem exists_tracked_run (h : s.Tracked told) (stages : List (Network × Stage)) :
    ∃ told, (s.run stages).Tracked told := by
  induction stages generalizing s told with
  | nil => exact ⟨told, h⟩
  | cons first rest ih =>
      obtain ⟨net, stage⟩ := first
      obtain ⟨told', hnext⟩ := h.take net stage
      exact ih hnext

/-- Some of the episodes are those of some of the stages. -/
theorem exists_of_episodes_append {es es' : List Episode} (h : s.episodes stages = es ++ es') :
    ∃ first second, stages = first ++ second ∧ s.episodes first = es ∧
      (s.run first).episodes second = es' := by
  induction es generalizing s stages with
  | nil => exact ⟨[], stages, rfl, rfl, h⟩
  | cons e es ih =>
      cases stages with
      | nil => cases h
      | cons head rest =>
          obtain ⟨net, stage⟩ := head
          obtain ⟨hhead, htail⟩ := List.cons.inj h
          obtain ⟨first, second, rfl, hfirst, hsecond⟩ := ih htail
          exact ⟨(net, stage) :: first, second, rfl, congrArg₂ List.cons hhead hfirst, hsecond⟩

/-- Once the attempt has been told an outcome the link does not wait, until an attempt begins. -/
theorem idle_run (h : s.Tracked told)
    (hlater : ∀ e ∈ s.episodes stages, e.occasion.begins = false)
    (hidle : s.client.link.status ≠ .connecting ∨
      (s.episodes stages).flatMap Episode.outcomes ≠ []) :
    (s.run stages).client.link.status ≠ .connecting := by
  induction stages generalizing s told with
  | nil => exact hidle.resolve_right (by simp [episodes])
  | cons first rest ih =>
      obtain ⟨net, stage⟩ := first
      obtain ⟨hfirst, hothers⟩ := List.forall_mem_cons.mp hlater
      have hlawful := lawful_episode net h.uniform stage
      refine ih (h.take_later net hfirst) hothers ?_
      rcases hidle with hidle | hsome
      · exact Or.inl (hlawful.idle hfirst hidle)
      · by_cases hnone : (s.episode net stage).outcomes = []
        · refine Or.inr ?_
          rw [episodes, List.flatMap_cons, hnone] at hsome
          exact hsome
        · exact Or.inl (hlawful.status_ne_of_outcomes hfirst hnone)

end Runs

/-- What holds of an attempt up to the next beginning: its first episode begins it, and the later
ones tell its outcomes. -/
structure Resolves (first : Episode) (later : List Episode) : Prop where
  begins : first.outcomes = [] ∧ first.after.link.status = .connecting
  /-- The link stands where the outcome says. -/
  states : ∀ e ∈ later, ∀ o ∈ e.outcomes, e.after.link.status = o.status
  /-- What was waited for comes at most once. -/
  once : (later.flatMap Episode.timely).length ≤ 1
  /-- The first outcome is one that was waited for. -/
  first_timely : ∀ earlier e rest, later = earlier ++ e :: rest →
    earlier.flatMap Episode.outcomes = [] → e.late = []
  /-- Any other comes from a part of the attempt, or of its acceptance, that was paused meanwhile
  and finds the generation to be its own. -/
  late : ∀ e ∈ later, e.late ≠ [] →
    e.before.link.status ≠ .connecting ∧ e.carried = some e.before.link.generation
  le_one_iff : (later.flatMap Episode.outcomes).length ≤ 1 ↔ ∀ e ∈ later, e.late = []
  /-- Answers that are read after an outcome are ignored. -/
  ignored : ∀ earlier e rest, later = earlier ++ e :: rest →
    earlier.flatMap Episode.outcomes ≠ [] → e.ReadsAnswer → e.Ignored

section Attempts

variable {told : Prop} {stages : List (Network × Stage)}

/-- An episode is that of a stage, at a client that is tracked. -/
theorem exists_tracked_of_append (h : s.Tracked told) {earlier rest : List Episode} {e : Episode}
    (hsplit : s.episodes stages = earlier ++ e :: rest) :
    ∃ (told' : Prop) (first second : List (Network × Stage)) (net : Network) (stage : Stage),
      s.episodes first = earlier ∧ (s.run first).Tracked told' ∧
        e = (s.run first).episode net stage ∧
          ((s.run first).take net stage).episodes second = rest := by
  obtain ⟨first, second, -, hfirst, hsecond⟩ := exists_of_episodes_append hsplit
  obtain ⟨told', htracked⟩ := exists_tracked_run h first
  cases second with
  | nil => cases hsecond
  | cons head second =>
      obtain ⟨net, stage⟩ := head
      obtain ⟨hhead, htail⟩ := List.cons.inj hsecond
      exact ⟨told', first, second, net, stage, hfirst, htracked, hhead.symm, htail⟩

theorem lawful_of_mem (h : s.Tracked told) {e : Episode} (he : e ∈ s.episodes stages) :
    e.Lawful := by
  obtain ⟨earlier, rest, hsplit⟩ := List.append_of_mem he
  obtain ⟨_, first, _, net, stage, -, htracked, rfl, -⟩ := exists_tracked_of_append h hsplit
  exact lawful_episode net htracked.uniform stage

/-- The first outcome of an attempt is not late. -/
theorem late_eq_nil_of_first (h : s.Tracked False)
    (hlater : ∀ e ∈ s.episodes stages, e.occasion.begins = false) {earlier rest : List Episode}
    {e : Episode} (hsplit : s.episodes stages = earlier ++ e :: rest)
    (hnone : earlier.flatMap Episode.outcomes = []) : e.late = [] := by
  have he : e ∈ s.episodes stages := by
    rw [hsplit]
    exact List.mem_append_right _ List.mem_cons_self
  have hfront : s.episodes stages = (earlier ++ [e]) ++ rest := by
    rw [hsplit, List.append_assoc]
    rfl
  obtain ⟨front, _, -, hepisodes, -⟩ := exists_of_episodes_append hfront
  have hstretch : ∀ e ∈ s.episodes front, e.occasion.begins = false := by
    intro other hother
    rw [hepisodes] at hother
    exact hlater other (hfront ▸ List.mem_append_left _ hother)
  -- what is late comes behind a timely outcome, and there is none up to here
  by_contra hsome
  have htimely := (told_or_timely_of_late h hstretch
    ⟨e, by simp [hepisodes], hsome⟩).resolve_left id
  have hidle : e.timely = [] := if_neg ((lawful_of_mem h he).of_late hsome).1
  have hbefore : earlier.flatMap Episode.timely = [] := by
    refine List.flatMap_eq_nil_iff.mpr fun other hother => ?_
    have hnothing := List.flatMap_eq_nil_iff.mp hnone other hother
    rw [Episode.outcomes_eq] at hnothing
    exact (List.append_eq_nil_iff.mp hnothing).1
  refine htimely ?_
  rw [hepisodes, List.flatMap_append, hbefore]
  simp [hidle]

/-- An attempt that begins, with all that happens up to the next beginning. -/
theorem resolves_of_tracked {first : Episode} (hfirst : first.Lawful)
    (hbegins : first.occasion.begins = true) (h : s.Tracked False)
    (hlater : ∀ e ∈ s.episodes stages, e.occasion.begins = false) :
    Resolves first (s.episodes stages) where
  begins := ⟨(hfirst.begins hbegins).1, (hfirst.begins hbegins).2.1⟩
  states e he o ho := (lawful_of_mem h he).status_of_mem_outcomes (hlater e he) ho
  once := length_timely_le_one h hlater
  first_timely _ _ _ hsplit hnone := late_eq_nil_of_first h hlater hsplit hnone
  late e he hsome := (lawful_of_mem h he).of_late hsome
  le_one_iff := forall_late_iff h hlater
  ignored := by
    intro earlier e rest hsplit hsome hreads
    obtain ⟨_, front, _, net, stage, rfl, htracked, rfl, -⟩ := exists_tracked_of_append h hsplit
    have hstretch : ∀ e ∈ s.episodes front, e.occasion.begins = false := fun other hother =>
      hlater other (hsplit ▸ List.mem_append_left _ hother)
    exact ignored_of_idle htracked.uniform (idle_run h hstretch (Or.inr hsome)) hreads

/-- The events of a run are those of its episodes.  From the beginning of an attempt to the next
one the application is told one outcome that the link was waiting for, or none; then the link
stands where the outcome says.  Only a part of the attempt, or of an acceptance that found it
waiting, can tell another one: a part that was paused until the first was told, finds the
generation to be its own when it goes on, and fails or brings the link up.  So there is at most one
outcome exactly if that does not happen.  Acceptances and denials that are read after an outcome,
in any number and order, are ignored. -/
theorem outcomes_exact (setup : Setup) (entropy : Entropy) (now : Moment)
    (stages : List (Network × Stage)) :
    let s := ofClient (.create setup entropy now)
    (s.run stages).client.events = (s.episodes stages).flatMap Episode.raised ∧
      (∀ before first later after, s.episodes stages = before ++ first :: later ++ after →
        first.occasion.begins = true → (∀ e ∈ later, e.occasion.begins = false) →
          Resolves first later) ∧
      ∀ front net stage back, stages = front ++ (net, stage) :: back →
        (((s.run front).episode net stage).late ≠ [] ↔
          (s.run front).client.link.status ≠ .connecting ∧
            (s.run front).carried stage = some (s.run front).client.link.generation ∧
              (s.run front).Ends net stage) := by
  intro s
  have hs : s.Tracked False := .create setup entropy now
  refine ⟨events_run hs stages, fun before first later after hsplit hbegins hlater => ?_,
    fun front net stage back _ => ?_⟩
  · have hfront : s.episodes stages = before ++ first :: (later ++ after) := by
      rw [hsplit, List.append_assoc]
      rfl
    obtain ⟨_, front, rest, net, stage, -, htracked, rfl, hrest⟩ :=
      exists_tracked_of_append hs hfront
    obtain ⟨attempt, _, -, rfl, -⟩ := exists_of_episodes_append hrest
    exact resolves_of_tracked (lawful_episode net htracked.uniform stage) hbegins
      (htracked.take_beginning net hbegins) hlater
  · obtain ⟨_, htracked⟩ := exists_tracked_run hs front
    exact late_iff htracked.uniform net stage

end Attempts

/-- A client whose links are not encrypted. -/
def plainClient : StagedClient :=
  .ofClient (.create SharedClient.plainSetup (.cyclic []) .zero)

/-- Stages on a network of one host. -/
def onSingle (stages : List Stage) : List (Network × Stage) :=
  stages.map fun stage => (.single 1, stage)

/-- The attempt takes too long. -/
def expiry : List Stage :=
  [.turn (.errand (.elapse (.ofMilliseconds 3000))), .turn (.retryTurn 1)]

/-- A call to connect is paused where it looks up the server, until the attempt takes too long. -/
def slowLookup : List Stage :=
  [.turn (.resume 0), .turn (.resume 0)] ++ expiry ++ [.turn (.resume 0)]

/-- An acceptance and a denial reach the client; the acceptance is paused after its first part, until
the attempt takes too long. -/
def slowAcceptance : List Stage :=
  [.turn (.resume 0), .turn (.resume 0), .turn (.resume 0), .turn (.resume 0), .turn (.resume 0),
    .turn (.deliver 1 ⟨⟨1, 3565⟩, Client.sampleAcceptance⟩),
    .turn (.deliver 1 ⟨⟨1, 3565⟩, Client.signedDatagram [PacketKind.connectionDenied.tag]⟩),
    .turn (.pollTurn 1), .goOn 1] ++ expiry ++ [.goOn 1, .goOn 1, .goOn 1]

/-- The look-up fails, and the attempt fails again.  The acceptance brings the link up after all, and
the denial behind it is ignored. -/
theorem outcomes_told_twice :
    let unknown : Stage := .turn (.connect "\x00" 3565)
    let failures := (plainClient.take (.single 1) unknown).episodes (onSingle slowLookup)
    failures.flatMap Episode.outcomes = [.failed, .failed] ∧
      Resolves (plainClient.episode (.single 1) unknown) failures ∧
      let known : Stage := .turn (.connect "server" 3565)
      let answers := (plainClient.take (.single 1) known).episodes (onSingle slowAcceptance)
      answers.flatMap Episode.outcomes = [.failed, .established] ∧
        Resolves (plainClient.episode (.single 1) known) answers ∧
          ∃ e ∈ answers.getLast?, e.ReadsAnswer ∧ e.Ignored := by
  intro unknown failures
  refine ⟨by decide +kernel, ?_, ?_⟩
  · obtain ⟨-, hattempts, -⟩ := outcomes_exact SharedClient.plainSetup (.cyclic []) .zero
      (onSingle (unknown :: slowLookup))
    exact hattempts [] _ failures [] (by rw [List.append_nil]; rfl) (by decide +kernel)
      (by decide +kernel)
  intro known answers
  obtain ⟨-, hattempts, -⟩ := outcomes_exact SharedClient.plainSetup (.cyclic []) .zero
    (onSingle (known :: slowAcceptance))
  have hresolves : Resolves (plainClient.episode (.single 1) known) answers :=
    hattempts [] _ answers [] (by rw [List.append_nil]; rfl) (by decide +kernel)
      (by decide +kernel)
  have hlast : (answers.getLast?.map fun e => (e.carried, e.occasion)) =
      some (none, .datagram (some .connectionDenied)) := by
    decide +kernel
  obtain ⟨e, he, heq⟩ := Option.map_eq_some_iff.mp hlast
  obtain ⟨hcarried, hoccasion⟩ := Prod.mk.inj heq
  have hreads : e.ReadsAnswer := ⟨hcarried, Or.inr hoccasion⟩
  refine ⟨by decide +kernel, hresolves, e, he, hreads, ?_⟩
  exact hresolves.ignored answers.dropLast e []
    (List.dropLast_append_getLast? e he).symm (by decide +kernel) hreads

end StagedClient
end GameLink
