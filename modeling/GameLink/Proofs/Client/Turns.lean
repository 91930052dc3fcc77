import GameLink.Client.Stages

/-!
# Turns that are not paused

A turn of a poll worker is taken in parts.  If nothing comes in between, the parts together are
the turn as a whole.

**Results.**
* `handleDatagram_of_answer`: the parts of an acceptance are its handling.
* `socket_read`: as long as reading goes on the socket is the same.
* `leadsTo_drain`: the parts of a burst are the burst.
* `exists_run_pollTurn`: the parts of a turn are the turn.
-/

namespace GameLink

namespace Crew

variable {crew : Crew} {badge : Badge}

theorem change_change {f g : Worker → Worker} (hbadge : ∀ w, (f w).badge = w.badge) :
    (crew.change badge f).change badge g = crew.change badge (g ∘ f) := by
  simp only [change, List.map_map]
  congr 1
  refine List.map_congr_left fun w _ => ?_
  by_cases hw : w.badge = badge
  · simp [hw, hbadge]
  · simp [hw]

theorem dismiss_change {f : Worker → Worker} (hbadge : ∀ w, (f w).badge = w.badge) :
    (crew.change badge f).dismiss badge = crew.dismiss badge := by
  simp only [change, dismiss]
  congr 1
  induction crew.running with
  | nil => rfl
  | cons w rest ih =>
      by_cases hw : w.badge = badge
      · simpa [hw, hbadge] using ih
      · simpa [hw] using ih

theorem find?_change {f : Worker → Worker} (hbadge : ∀ w, (f w).badge = w.badge) :
    (crew.change badge f).find? badge = (crew.find? badge).map f := by
  simp only [change, find?]
  induction crew.running with
  | nil => rfl
  | cons w rest ih =>
      by_cases hw : w.badge = badge
      · simp [hw, hbadge]
      · simpa [hw] using ih

end Crew

namespace Client

section Sockets

variable {net : Network} {c c' : Client}

theorem socket_reply (net : Network) (c : Client) (remote : Address) (packet : Packet) :
    (c.reply net remote packet).socket = c.socket := by
  simp only [reply]
  split
  · rfl
  · rfl

theorem socket_answerCookie (net : Network) (c : Client) (remote : Address)
    (cookie : Octets cookieSize) : (c.answerCookie net remote cookie).socket = c.socket := by
  unfold answerCookie
  split
  · split
    · rfl
    · dsimp only
      split
      · rfl
      · rfl
  · rfl

theorem socket_countAll (c : Client) (tallies : List Tally) :
    (c.countAll tallies).socket = c.socket := by
  induction tallies generalizing c with
  | nil => rfl
  | cons tally rest ih => exact ih (c.count tally)

theorem socket_openSecure (c : Client) (s : Session) (header : Header) (bytes : Bytes) :
    (c.openSecure s header bytes).socket = c.socket := by
  simp only [openSecure]
  split
  · rfl
  · exact socket_countAll _ _

theorem socket_failAttempt (c : Client) (generation : Nat) :
    (c.failAttempt generation).socket = c.socket := by
  unfold failAttempt
  split
  · rfl
  · rfl

theorem socket_accept (c : Client) (a : Acceptance) : (c.accept a).socket = c.socket := by
  unfold accept
  split
  · dsimp only
    split
    · rfl
    · split
      · exact socket_failAttempt _ _
      · rfl
  · rfl

/-- A packet after which reading goes on leaves the socket. -/
theorem socket_handlePacket {remote : Address} {b : Buffer} {packet : Packet}
    (h : (c.handlePacket net remote b packet).1 = .goOn) :
    (c.handlePacket net remote b packet).2.socket = c.socket := by
  cases packet with
  | ping timestamp => exact socket_reply ..
  | connectionAccepted a => exact socket_accept c a
  | connectionDenied =>
      simp only [handlePacket]
      split
      · rfl
      · rfl
  | disconnect => cases h
  | checkIntegrity index =>
      simp only [handlePacket]
      split
      · exact socket_reply ..
      · rfl
  | cookie cookie => exact socket_answerCookie ..
  | _ => rfl

theorem socket_loadedBuffer (c : Client) (bytes : Bytes) :
    (c.loadedBuffer bytes).2.socket = c.socket := by
  simp only [loadedBuffer]
  split
  · rfl
  · rfl

theorem socket_handlePlain {remote : Address} {b : Buffer}
    (h : (c.handlePlain net remote b).1 = .goOn) :
    (c.handlePlain net remote b).2.socket = c.socket := by
  simp only [handlePlain] at h ⊢
  split at h
  · rfl
  · split at h
    · rfl
    · exact socket_handlePacket (c := c.heard) h

theorem socket_handleDatagram {remote : Address} {bytes : Bytes}
    (h : (c.handleDatagram net remote bytes).1 = .goOn) :
    (c.handleDatagram net remote bytes).2.socket = c.socket := by
  simp only [handleDatagram] at h ⊢
  split at h
  · exact socket_openSecure ..
  · split at h
    · exact socket_answerCookie ..
    · exact (socket_handlePlain h).trans (socket_loadedBuffer c bytes)

/-- As long as reading goes on the socket is the same. -/
theorem socket_read {remote : Address} {arrival : Arrival}
    (h : (c.read net remote arrival).1 = .goOn) :
    (c.read net remote arrival).2.socket = c.socket := by
  unfold read at h ⊢
  by_cases hsender : arrival.sender = remote
  · simp only [if_pos hsender] at h ⊢
    by_cases hempty : arrival.datagram = []
    · simp only [if_pos hempty]
      rfl
    · simp only [if_neg hempty] at h ⊢
      exact socket_handleDatagram h
  · simp only [if_neg hsender]

end Sockets

section Answers

variable {net : Network} {c c' : Client} {answer : Answer}

/-- What is left of an acceptance after its first part. -/
def conclude (c : Client) (answer : Answer) : Client :=
  match c.agree answer with
  | (true, c) => (c.settle answer).putAway answer
  | (false, c) => c.putAway answer

theorem socket_agree (c : Client) (answer : Answer) :
    (c.agree answer).2.socket = c.socket := by
  simp only [agree]
  split
  · rfl
  · split
    · exact socket_failAttempt ..
    · rfl

theorem socket_settle (c : Client) (answer : Answer) :
    (c.settle answer).socket = c.socket := by
  simp only [settle]
  split
  · rfl
  · rfl

theorem socket_conclude (c : Client) (answer : Answer) :
    (c.conclude answer).socket = c.socket := by
  have hagree := socket_agree c answer
  simp only [conclude]
  generalize c.agree answer = outcome at hagree
  obtain ⟨_ | _, agreed⟩ := outcome
  · exact hagree
  · exact (socket_settle agreed answer).trans hagree

theorem agree_withSocket (socket : Option Socket) :
    Client.agree { c with socket } answer =
      ((c.agree answer).1, { (c.agree answer).2 with socket }) := by
  have hsame (pair : KeyPair) :
      Client.acceptedSession { c with socket } pair answer.acceptance =
        c.acceptedSession pair answer.acceptance := rfl
  simp only [agree, hsame]
  cases answer.pair with
  | none => rfl
  | some pair =>
      dsimp only
      rcases c.acceptedSession pair answer.acceptance with failure | s
      · simp only [failAttempt]
        split
        · rfl
        · rfl
      · rfl

theorem settle_withSocket (socket : Option Socket) :
    Client.settle { c with socket } answer = { c.settle answer with socket } := by
  simp only [settle]
  split
  · rfl
  · rfl

/-- On a link that waits the first part and the others are the whole acceptance. -/
theorem accept_eq_conclude (hwaiting : c.link.status = .connecting) (a : Acceptance)
    (b : Buffer) :
    Client.putAway (c.accept a) ⟨a, c.link.generation, c.link.keyPair, b⟩ =
      Client.conclude { c with link := { c.link with keyPair := none } }
        ⟨a, c.link.generation, c.link.keyPair, b⟩ := by
  simp only [accept, if_pos hwaiting, conclude, agree]
  cases c.link.keyPair with
  | none => simp only [settle, if_true]
  | some pair =>
      dsimp only
      rcases Client.acceptedSession _ pair a with failure | s
      · rfl
      · simp only [settle, if_true]

/-- The parts of an acceptance are its handling. -/
theorem handleDatagram_of_answer {bytes : Bytes} (remote : Address)
    (h : c.beginAnswer? bytes = some (answer, c')) :
    c.handleDatagram net remote bytes = (.goOn, c'.conclude answer) := by
  simp only [beginAnswer?] at h
  split at h
  · rename_i hheader hcookie
    simp only [handleDatagram, hheader, hcookie, handlePlain]
    generalize c.loadedBuffer bytes = loaded at h ⊢
    obtain ⟨b, loaded⟩ := loaded
    simp only [accepted?] at h
    cases hverify : b.verify with
    | error failure =>
        simp only [hverify] at h
        cases h
    | ok body =>
        simp only [hverify] at h ⊢
        rcases hdecode : Packet.decode body with ⟨failure | packet, rest⟩
        · simp only [hdecode] at h
          cases h
        · simp only [hdecode] at h ⊢
          cases packet with
          | connectionAccepted a =>
              dsimp only at h
              split at h
              · rename_i hwaiting
                cases h
                exact congrArg (Prod.mk Flow.goOn) (accept_eq_conclude hwaiting a b)
              · cases h
          | _ => cases h
  · cases h

/-- The parts of an acceptance are the reading of its datagram. -/
theorem read_of_answer {remote : Address} {arrival : Arrival}
    (h : c.readAnswer? remote arrival = some (answer, c')) :
    c.read net remote arrival = (.goOn, c'.conclude answer) := by
  simp only [readAnswer?] at h
  split at h
  · rename_i hread
    simp only [read, if_pos hread.1, if_neg hread.2]
    exact handleDatagram_of_answer remote h
  · cases h

theorem socket_beginAnswer {bytes : Bytes} (h : c.beginAnswer? bytes = some (answer, c')) :
    c'.socket = c.socket := by
  simp only [beginAnswer?] at h
  split at h
  · have hloaded := socket_loadedBuffer c bytes
    generalize c.loadedBuffer bytes = loaded at h hloaded
    split at h
    · cases h
    · split at h
      · cases h
        exact hloaded
      · cases h
  · cases h

theorem socket_readAnswer {remote : Address} {arrival : Arrival}
    (h : c.readAnswer? remote arrival = some (answer, c')) : c'.socket = c.socket := by
  simp only [readAnswer?] at h
  split at h
  · exact socket_beginAnswer (c := c.count (.received arrival.datagram.length)) h
  · cases h

end Answers

section Looks

variable {net : Network} {c : Client} {arrivals : List Arrival}

theorem readSocket_eq (hsocket : c.socket = some ⟨arrivals⟩) :
    c.readSocket net =
      match c.lookForRemote with
      | .read remote =>
          let (flow, c) := drain net remote arrivals c
          (flow, { c with pool := c.pool.merge thread })
      | .rest => (.goOn, c)
      | .stop => (.stop, c) := by
  simp only [readSocket, lookForRemote]
  cases c.link.remote with
  | none => rfl
  | some remote => simp only [hsocket]

/-- A poll is a look, and a burst if there is something to read. -/
theorem poll_eq (hsocket : c.socket = some ⟨arrivals⟩) :
    c.poll net =
      match c.look with
      | (.read remote, c) =>
          let (flow, c) := drain net remote arrivals c
          (flow, { c with pool := c.pool.merge thread })
      | (.rest, c) => (.goOn, c)
      | (.stop, c) => (.stop, c) := by
  simp only [poll, look]
  cases c.link.status with
  | connected =>
      dsimp only
      split
      · rfl
      · simp only [readSocket_eq hsocket]
        cases c.lookForRemote <;> rfl
  | connecting =>
      simp only [readSocket_eq hsocket]
      cases c.lookForRemote <;> rfl
  | connectionFailed => rfl
  | disconnected => rfl

/-- A look that finds something to read leaves the client. -/
theorem eq_of_look {remote : Address} {c' : Client} (h : c.look = (.read remote, c')) :
    c' = c := by
  simp only [look] at h
  split at h
  · split at h
    · cases congrArg Prod.fst h
    · exact (congrArg Prod.snd h).symm
  · exact (congrArg Prod.snd h).symm
  · cases congrArg Prod.fst h
  · cases congrArg Prod.fst h

end Looks
end Client

namespace Station

section Seeing

variable {x : Station} {generation : Nat} {worker : Worker} {seen seen' : Client}

/-- What a poll worker sees after it has gone on. -/
theorem seenBy_goesOn (hinbox : worker.isCancelled = true → leftInbox seen = [])
    (hsocket : seen.socket.isSome = true) :
    (x.goesOn generation seen).seenBy { worker with inbox := leftInbox seen } = seen := by
  obtain ⟨socket, hseen⟩ := Option.isSome_iff_exists.mp hsocket
  have hleft : leftInbox seen = socket.inbox := by simp [leftInbox, hseen]
  have hinside : (if worker.isCancelled then [] else leftInbox seen) = socket.inbox := by
    by_cases hcancelled : worker.isCancelled = true
    · rw [if_pos hcancelled, ← hleft, hinbox hcancelled]
    · rw [if_neg hcancelled, hleft]
  simp only [seenBy, goesOn, hinside]
  rw [← hseen]

theorem find?_goesOn (hworker : x.crew.find? ⟨.poll, generation⟩ = some worker) :
    (x.goesOn generation seen).crew.find? ⟨.poll, generation⟩ =
      some { worker with inbox := leftInbox seen } := by
  simp only [goesOn]
  rw [Crew.find?_change (f := fun w => { w with inbox := leftInbox seen }) fun _ => rfl, hworker,
    Option.map_some]

theorem socketAfter_goesOn (hsocket : seen.socket.isSome = true) :
    (x.goesOn generation seen).socketAfter seen' = x.socketAfter seen' := by
  simp only [socketAfter, goesOn, hsocket, if_true]

/-- Only what a poll worker did last counts. -/
theorem goesOn_goesOn (hsocket : seen.socket.isSome = true) :
    (x.goesOn generation seen).goesOn generation seen' = x.goesOn generation seen' := by
  rw [goesOn, socketAfter_goesOn hsocket]
  simp only [goesOn]
  rw [Crew.change_change (f := fun w => { w with inbox := leftInbox seen }) fun _ => rfl]
  rfl

theorem ends_goesOn (hsocket : seen.socket.isSome = true) :
    (x.goesOn generation seen).ends generation seen' = x.ends generation seen' := by
  rw [ends, socketAfter_goesOn hsocket]
  simp only [goesOn, ends]
  rw [Crew.dismiss_change (f := fun w => { w with inbox := leftInbox seen }) fun _ => rfl]

/-- What leaves the socket may be done to the client while a poll worker is in its turn. -/
theorem goesOn_of_socket (h : seen'.socket = seen.socket) :
    { x.goesOn generation seen with client := { seen' with socket := x.socketAfter seen } } =
      x.goesOn generation seen' := by
  simp only [goesOn, socketAfter, leftInbox, h]

end Seeing
end Station

namespace StagedClient

section Unpaused

variable {net : Network} {s : StagedClient} {x y : Station} {generation : Nat}
  {reading reading' : Option Reading}

@[simp] theorem station_update : (s.update x generation reading).station = x := by
  rfl

@[simp] theorem readings_update : (s.update x generation reading).readings generation = reading := by
  simp [update]

@[simp] theorem update_update :
    (s.update x generation reading).update y generation reading' =
      s.update y generation reading' := by
  simp only [update, SharedClient.update, StagedClient.mk.injEq, true_and]
  funext other
  split
  · rfl
  · rfl

/-- From one client to another a poll worker takes parts of its turn, and nothing else happens. -/
inductive LeadsTo (net : Network) (generation : Nat) : StagedClient → StagedClient → Prop
  | refl (s : StagedClient) : LeadsTo net generation s s
  | step {s t : StagedClient} (h : LeadsTo net generation (s.goOn net generation) t) :
      LeadsTo net generation s t

theorem LeadsTo.trans {s t u : StagedClient} (h : LeadsTo net generation s t)
    (h' : LeadsTo net generation t u) : LeadsTo net generation s u := by
  induction h with
  | refl s => exact h'
  | step h ih => exact .step (ih h')

theorem LeadsTo.exists_run {s t : StagedClient} (h : LeadsTo net generation s t) :
    ∃ count, s.run (List.replicate count (net, .goOn generation)) = t := by
  induction h with
  | refl s => exact ⟨0, rfl⟩
  | step h ih =>
      obtain ⟨count, hcount⟩ := ih
      exact ⟨count + 1, hcount⟩

/-- How a burst leaves the station. -/
def afterBurst (x : Station) (generation : Nat) : Flow × Client → Station
  | (.goOn, seen) => x.goesOn generation { seen with pool := seen.pool.merge Client.thread }
  | (.stop, seen) => x.ends generation { seen with pool := seen.pool.merge Client.thread }

/-- What waits next for a poll worker that has gone on. -/
theorem next?_goesOn {worker : Worker} {seen : Client} {arrivals : List Arrival}
    (hworker : x.crew.find? ⟨.poll, generation⟩ = some worker)
    (hsocket : seen.socket = some ⟨arrivals⟩)
    (hinbox : worker.isCancelled = true → arrivals = []) :
    (s.update (x.goesOn generation seen) generation reading).next? generation =
      seen.nextArrival? := by
  have hleft : Station.leftInbox seen = arrivals := by simp [Station.leftInbox, hsocket]
  simp only [next?, station_update, Station.find?_goesOn hworker]
  rw [Station.seenBy_goesOn (by rw [hleft]; exact hinbox) (by simp [hsocket])]

/-- The parts of an acceptance, one after the other. -/
theorem leadsTo_conclude {seen : Client} {remote : Address} {answer : Answer} :
    LeadsTo net generation
      (s.update (x.goesOn generation seen) generation (some (.agreeing remote answer)))
      (s.update (x.goesOn generation (seen.conclude answer)) generation
        (some (.reading remote))) := by
  have hagree : Client.agree (x.goesOn generation seen).client answer = _ :=
    Client.agree_withSocket (x.socketAfter seen)
  have hconclude := Client.socket_conclude seen answer
  simp only [Client.conclude] at hconclude ⊢
  rcases houtcome : seen.agree answer with ⟨_ | _, agreed⟩
  · simp only [houtcome] at hagree hconclude ⊢
    refine .step ?_
    simp only [goOn, readings_update, client, station_update, hagree, update_update]
    rw [← Station.goesOn_of_socket hconclude]
    exact .refl _
  · simp only [houtcome] at hagree hconclude ⊢
    refine .step (.step ?_)
    simp only [goOn, readings_update, client, station_update, hagree, update_update]
    rw [Client.settle_withSocket, ← Station.goesOn_of_socket hconclude]
    exact .refl _

/-- The parts of a burst are the burst. -/
theorem leadsTo_drain {worker : Worker} {remote : Address} {arrivals : List Arrival}
    {seen : Client} (hworker : x.crew.find? ⟨.poll, generation⟩ = some worker)
    (hsocket : seen.socket = some ⟨arrivals⟩)
    (hinbox : worker.isCancelled = true → arrivals = []) :
    LeadsTo net generation
      (s.update (x.goesOn generation seen) generation (some (.reading remote)))
      (s.update (afterBurst x generation (Client.drain net remote arrivals seen)) generation
        none) := by
  have hopen : seen.socket.isSome = true := by simp [hsocket]
  refine .step ?_
  simp only [goOn, readings_update, readNext, next?_goesOn hworker hsocket hinbox]
  induction arrivals generalizing seen with
  | nil =>
      have hnone : seen.nextArrival? = none := by simp [Client.nextArrival?, hsocket]
      simp only [hnone, update_update]
      exact .refl _
  | cons arrival rest ih =>
      have hnext : seen.nextArrival? = some (seen.withInbox rest, arrival) := by
        simp [Client.nextArrival?, hsocket]
      have hrest : (seen.withInbox rest).socket = some ⟨rest⟩ := by
        simp [Client.withInbox, hsocket]
      have hcancelled : worker.isCancelled = true → rest = [] := fun h =>
        absurd (hinbox h) (List.cons_ne_nil _ _)
      -- the parts that read the others, once this one is read
      have hothers {after : Client} (hafter : after.socket = some ⟨rest⟩) :
          LeadsTo net generation
            (s.update (x.goesOn generation after) generation (some (.reading remote)))
            (s.update (afterBurst x generation (Client.drain net remote rest after)) generation
              none) := by
        refine .step ?_
        simp only [goOn, readings_update, readNext, next?_goesOn hworker hafter hcancelled]
        exact ih hafter hcancelled (by simp [hafter])
      simp only [hnext, Client.drain_cons, station_update]
      cases hanswer : (seen.withInbox rest).readAnswer? remote arrival with
      | some answered =>
          obtain ⟨answer, after⟩ := answered
          have hafter := (Client.socket_readAnswer hanswer).trans hrest
          simp only [Client.read_of_answer hanswer, Station.goesOn_goesOn hopen, update_update]
          exact leadsTo_conclude.trans
            (hothers ((Client.socket_conclude after answer).trans hafter))
      | none =>
          have hsame : ((seen.withInbox rest).read net remote arrival).1 = .goOn →
              ((seen.withInbox rest).read net remote arrival).2.socket =
                (seen.withInbox rest).socket := Client.socket_read
          dsimp only
          generalize (seen.withInbox rest).read net remote arrival = outcome at hsame ⊢
          obtain ⟨_ | _, after⟩ := outcome
          · simp only [Station.goesOn_goesOn hopen, update_update]
            exact hothers ((hsame rfl).trans hrest)
          · simp only [Station.ends_goesOn hopen, update_update]
            exact .refl _

theorem update_none (hrest : s.readings generation = none) :
    s.update x generation none = { s with shared := s.shared.update x } := by
  simp only [update, StagedClient.mk.injEq, true_and]
  funext other
  split
  · rename_i heq
    rw [heq, hrest]
  · rfl

/-- The parts of a turn, with nothing in between, are the turn. -/
theorem exists_run_pollTurn (hrest : s.readings generation = none) :
    ∃ count,
      s.run ((net, .turn (.pollTurn generation)) ::
          List.replicate count (net, .goOn generation)) =
        { s with shared := s.shared.take net (.pollTurn generation) } := by
  refine LeadsTo.exists_run (s := s.look generation) ?_
  have hwhole : ({ s with shared := s.shared.take net (.pollTurn generation) } : StagedClient) =
      s.update (s.station.pollTurn net generation) generation none := (update_none hrest).symm
  rw [hwhole]
  simp only [look, hrest, Station.pollTurn]
  cases hworker : s.station.crew.find? ⟨.poll, generation⟩ with
  | none =>
      dsimp only
      rw [update_none hrest]
      exact .refl _
  | some worker =>
      have hsocket : (s.station.seenBy worker).socket = some ⟨_⟩ := rfl
      dsimp only
      rw [Client.poll_eq hsocket]
      rcases hlook : (s.station.seenBy worker).look with ⟨remote | _ | _, seen⟩
      · cases Client.eq_of_look hlook
        dsimp only
        have hdrain : LeadsTo net generation
            (s.update (s.station.goesOn generation (s.station.seenBy worker)) generation
              (some (.reading remote))) _ :=
          leadsTo_drain hworker hsocket fun hcancelled => if_pos hcancelled
        generalize Client.drain net remote _ (s.station.seenBy worker) = outcome at hdrain ⊢
        obtain ⟨_ | _, after⟩ := outcome
        · exact hdrain
        · exact hdrain
      · exact .refl _
      · exact .refl _

end Unpaused
end StagedClient
end GameLink
