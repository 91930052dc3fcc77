import GameLink.Proofs.Client.Course
import GameLink.Proofs.Client.Outcome
import GameLink.Proofs.Client.Readings

/-!
# The trail of a run

How the passages of a run follow each other, and how each of them arises.  What lies between two
passages is not of interest to the link: stray octets are passed over, buffers change hands, and
a retry that was decided on is taken.

**Invariants.** What is to hold of a client and of the passages behind it is carried along a
trail from one passage to the next (`Trail.carries`).

**Results.**
* `trail_run`: the passages of a run are a trail.
* `Trail.carries`: what every passage preserves holds before each passage and at the end.
* `Trail.datagrams_eq`: a run sends the datagrams of its passages.
-/

namespace GameLink

open Client

section Trails

/-- Between two passages, link, clock, retry worker and datagrams stay as they are; retries that
were decided on may be taken. -/
structure Client.Hands (c c' : Client) : Prop where
  link : c'.link = c.link
  now : c'.now = c.now
  retry : c'.workers.retry = c.workers.retry
  reconnects : c'.workers.reconnects ≤ c.workers.reconnects
  datagrams : c'.datagrams = c.datagrams

/-- How a passage arises. -/
inductive Passage.Arises : Passage → Prop
  | beginning {c : Client} {host : String} {port : UInt16} {isRetry : Bool}
      (hmay : c.link.mayBegin isRetry = true)
      (htarget : isRetry = true → c.link.target = some (host, port)) :
      Arises ⟨c, .beginning isRetry, c.beginAttempt host port isRetry⟩
  | asking (net : Network) {c : Client} (host : String) (port : UInt16) {isRetry : Bool}
      (hmay : c.link.mayBegin isRetry = true) :
      Arises ⟨c.beginAttempt host port isRetry, .asking, (c.attempt net host port isRetry).2⟩
  | ending (c : Client) : Arises ⟨c, .ending, c.disconnect⟩
  | timer (c : Client) : Arises ⟨c, .timer, c.retryTurn⟩
  | silence {c : Client} (hup : c.link.status = .connected) :
      Arises ⟨c, .silence, c.dropLink.raise .disconnected⟩
  | datagram (net : Network) (remote : Address) {c : Client} {bytes : Bytes} (hready : c.Ready)
      (hopen : c.link.status ≠ .disconnected) (hbytes : bytes ≠ []) :
      Arises (Handling.passage net remote ⟨c, bytes⟩)
  | errand (net : Network) {c : Client} (hready : c.Ready) (errand : Errand) :
      Arises ⟨c, .other, (c.act net errand.action).2⟩
  | delivery (c : Client) (arrival : Arrival) : Arises ⟨c, .other, c.deliver arrival⟩

theorem Passage.Arises.begun {p : Passage} (h : p.Arises) (hbegins : p.occasion.begins = true) :
    ∃ host port isRetry, p.occasion = .beginning isRetry ∧
      p.before.link.mayBegin isRetry = true ∧
      (isRetry = true → p.before.link.target = some (host, port)) ∧
      p.after = p.before.beginAttempt host port isRetry := by
  cases h with
  | beginning hmay htarget => exact ⟨_, _, _, rfl, hmay, htarget, rfl⟩
  | _ => cases hbegins

/-- A passage may come next.  A retry is taken before it begins. -/
structure Passage.Follows (c : Client) (p : Passage) : Prop where
  hands : c.Hands p.before
  arises : p.Arises
  taken : p.occasion = .beginning true → p.before.workers.reconnects < c.workers.reconnects

/-- Passages that follow each other, from a client to another. -/
inductive Trail : Client → List Passage → Client → Prop
  | last {c c' : Client} (h : c.Hands c') : Trail c [] c'
  | next {c c' : Client} {p : Passage} {ps : List Passage} (h : p.Follows c)
      (hrest : Trail p.after ps c') : Trail c (p :: ps) c'

namespace Client.Hands

variable {c c' c'' : Client}

theorem refl (c : Client) : c.Hands c :=
  ⟨rfl, rfl, rfl, Nat.le_refl _, rfl⟩

theorem trans (h : c.Hands c') (h' : c'.Hands c'') : c.Hands c'' where
  link := h'.link.trans h.link
  now := h'.now.trans h.now
  retry := h'.retry.trans h.retry
  reconnects := h'.reconnects.trans h.reconnects
  datagrams := h'.datagrams.trans h.datagrams

theorem of_course (hcourse : c'.course = c.course) (hdatagrams : c'.datagrams = c.datagrams) :
    c.Hands c' where
  link := link_of_course hcourse
  now := congrArg Course.now hcourse
  retry := congrArg (fun x => x.workers.retry) hcourse
  reconnects := Nat.le_of_eq (congrArg (fun x => x.workers.reconnects) hcourse)
  datagrams := hdatagrams

end Client.Hands

namespace Trail

variable {c c' c'' : Client} {p : Passage} {ps qs : List Passage}

theorem refl (c : Client) : Trail c [] c :=
  .last (.refl c)

theorem after (hhands : c.Hands c') (h : Trail c' ps c'') : Trail c ps c'' := by
  cases h with
  | last h => exact .last (hhands.trans h)
  | next h hrest =>
      refine .next ⟨hhands.trans h.hands, h.arises, fun hretry => ?_⟩ hrest
      exact Nat.lt_of_lt_of_le (h.taken hretry) hhands.reconnects

theorem trans (h : Trail c ps c') (h' : Trail c' qs c'') : Trail c (ps ++ qs) c'' := by
  induction h with
  | last hhands => exact h'.after hhands
  | next hnext _ ih => exact .next hnext (ih h')

theorem then_hands (h : Trail c ps c') (hhands : c'.Hands c'') : Trail c ps c'' := by
  have htrans := h.trans (.last hhands)
  rwa [List.append_nil] at htrans

/-- A passage with nothing before it. -/
theorem single (harises : p.Arises) (hlater : p.occasion.begins = false) :
    Trail p.before [p] p.after := by
  refine .next ⟨.refl p.before, harises, fun hretry => ?_⟩ (.refl p.after)
  rw [hretry] at hlater
  cases hlater

theorem of_append (h : Trail c (ps ++ qs) c'') : ∃ c', Trail c ps c' ∧ Trail c' qs c'' := by
  induction ps generalizing c with
  | nil => exact ⟨c, .refl c, h⟩
  | cons p ps ih =>
      cases h with
      | next hnext hrest =>
          obtain ⟨middle, hfirst, hsecond⟩ := ih hrest
          exact ⟨middle, .next hnext hfirst, hsecond⟩

/-- What every passage preserves holds before each passage and at the end. -/
theorem carries {I : List Passage → Client → Prop} (h : Trail c qs c')
    (hhands : ∀ {ps c c'}, Hands c c' → I ps c → I ps c')
    (hstep : ∀ {ps c p}, p ∈ qs → p.Follows c → I ps c → I (ps ++ [p]) p.after)
    (hstart : I ps c) :
    (∀ early p late, qs = early ++ p :: late → p.Arises ∧ I (ps ++ early) p.before ∧
      I (ps ++ early ++ [p]) p.after) ∧ I (ps ++ qs) c' := by
  induction h generalizing ps with
  | last h =>
      refine ⟨fun early p late heq => by simp at heq, ?_⟩
      rw [List.append_nil]
      exact hhands h hstart
  | @next c c' p qs h _ ih =>
      have hbefore := hhands h.hands hstart
      have hafter := hstep List.mem_cons_self h hstart
      obtain ⟨hlater, hend⟩ := ih (fun hmem => hstep (List.mem_cons_of_mem p hmem)) hafter
      refine ⟨fun early q late heq => ?_, ?_⟩
      · cases early with
        | nil =>
            cases heq
            rw [List.append_nil]
            exact ⟨h.arises, hbefore, hafter⟩
        | cons first early =>
            cases heq
            have hsplit := hlater early q late rfl
            rwa [List.append_assoc ps] at hsplit
      · rwa [List.append_assoc] at hend

end Trail

end Trails

namespace Client

variable {c c' : Client}

section ActionPassages

theorem trail_attempt
    (net : Network) (host : String) (port : UInt16) {isRetry : Bool} (hhands : c.Hands c')
    (htaken : isRetry = true →
      c'.workers.reconnects < c.workers.reconnects ∧ c'.link.target = some (host, port)) :
    Trail c (c'.attemptPassages net host port isRetry) (c'.attempt net host port isRetry).2 := by
  unfold attemptPassages
  by_cases hmay : c'.link.mayBegin isRetry = true
  · rw [if_pos hmay]
    refine .next ⟨hhands, .beginning hmay fun hretry => (htaken hretry).2, fun hretry => ?_⟩ ?_
    · exact (htaken (Occasion.beginning.inj hretry)).1
    · exact .single (.asking net host port hmay) rfl
  · rw [if_neg hmay, attempt, if_neg hmay]
    exact .last hhands

theorem trail_reconnect (net : Network) (c : Client) :
    Trail c (c.reconnectPassages net) (c.reconnect net) := by
  simp only [reconnectPassages, reconnect, takeRetry]
  cases hreconnects : c.workers.reconnects with
  | zero => exact .refl c
  | succ n =>
      have hhands : c.Hands { c with workers := { c.workers with reconnects := n } } :=
        ⟨rfl, rfl, rfl, hreconnects ▸ Nat.le_succ n, rfl⟩
      dsimp only
      cases htarget : c.link.target with
      | none => exact .last hhands
      | some target =>
          exact trail_attempt net _ _ hhands fun _ => ⟨hreconnects ▸ Nat.lt_succ_self n, htarget⟩

theorem trail_drain
    (net : Network) (remote : Address) (arrivals : List Arrival) (hc : c.Ready)
    (hopen : c.link.status ≠ .disconnected) :
    Trail c ((burst net remote arrivals c).map (Handling.passage net remote))
      (drain net remote arrivals c).2 := by
  -- a datagram after which reading goes on leaves a link that is not given up
  induction arrivals generalizing c with
  | nil => exact .refl c
  | cons arrival rest ih =>
      simp only [drain, burst]
      split
      · generalize hcount :
          (c.withInbox rest).count (.received arrival.datagram.length) = counted
        have hcourse : counted.course = c.course := by
          rw [← hcount]
          exact course_withInbox c rest
        have hready : counted.Ready := hcount ▸ hc.counted rest _
        have hstillOpen : counted.link.status ≠ .disconnected := by
          rw [link_of_course hcourse]
          exact hopen
        have hdatagrams : counted.datagrams = c.datagrams := by
          rw [← hcount, datagrams_count]
          rfl
        refine Trail.after (.of_course hcourse hdatagrams) ?_
        split
        · exact ih hready hstillOpen
        · rename_i hbytes
          have hleads := leads_handleDatagram net remote arrival.datagram hstillOpen
          have hnext := hready.handleDatagram net remote arrival.datagram hstillOpen
          have hone : Trail counted
              [Handling.passage net remote ⟨counted, arrival.datagram⟩]
              (counted.handleDatagram net remote arrival.datagram).2 :=
            .single (.datagram net remote hready hstillOpen hbytes) rfl
          rw [List.map_cons]
          generalize counted.handleDatagram net remote arrival.datagram = outcome
            at hleads hnext hone ⊢
          obtain ⟨_ | _, after⟩ := outcome
          · exact hone.trans (ih hnext (hleads.2 rfl))
          · exact hone
      · have hcourse := course_withInbox c rest
        have hready := hc.of_same (standing_withInbox c rest) rfl
        refine Trail.after (.of_course hcourse rfl) (ih hready ?_)
        rw [link_of_course hcourse]
        exact hopen

theorem trail_readSocket (net : Network) (hc : c.Ready) (hopen : c.link.status ≠ .disconnected) :
    Trail c (c.readPassages net) (c.readSocket net).2 := by
  simp only [readPassages, readHandlings, readSocket]
  cases c.link.remote with
  | none => exact .refl c
  | some remote =>
      cases c.socket with
      | none => exact .refl c
      | some socket =>
          exact (trail_drain net remote socket.inbox hc hopen).then_hands
            ⟨rfl, rfl, rfl, Nat.le_refl _, rfl⟩

theorem trail_poll (net : Network) (hc : c.Ready) :
    Trail c (c.lookPassages net) (c.poll net).2 := by
  unfold lookPassages
  cases hstatus : c.link.status with
  | connected =>
      dsimp only
      split
      · rename_i hsilent
        have hdropped : (c.poll net).2 = c.dropLink.raise .disconnected := by
          simp only [poll, hstatus, if_pos hsilent]
        rw [hdropped]
        exact .single (.silence hstatus) rfl
      · rename_i hheard
        simp only [poll, hstatus, if_neg hheard]
        exact trail_readSocket net hc (by simp [hstatus])
  | connecting =>
      simp only [poll, hstatus]
      exact trail_readSocket net hc (by simp [hstatus])
  | connectionFailed =>
      simp only [poll, hstatus]
      exact .refl c
  | disconnected =>
      simp only [poll, hstatus]
      exact .refl c

theorem trail_pollTurn (net : Network) (hc : c.Ready) :
    Trail c (c.pollPassages net) (c.pollTurn net) := by
  simp only [pollPassages, pollTurn]
  cases c.workers.poll with
  | none => exact .refl c
  | some next =>
      have hpoll := trail_poll net hc
      dsimp only
      generalize c.poll net = outcome at hpoll ⊢
      obtain ⟨_ | _, after⟩ := outcome
      · exact hpoll.then_hands ⟨rfl, rfl, rfl, Nat.le_refl _, rfl⟩
      · exact hpoll.then_hands ⟨rfl, rfl, rfl, Nat.le_refl _, rfl⟩

theorem trail_act (net : Network) (hc : c.Ready) (action : Action) :
    Trail c (c.actPassages net action) (c.act net action).2 := by
  have herrand (errand : Errand) :
      Trail c [⟨c, .other, (c.act net errand.action).2⟩] (c.act net errand.action).2 :=
    .single (.errand net hc errand) rfl
  cases action with
  | connect host port => exact trail_attempt net host port (.refl c) nofun
  | connectConfigured => exact trail_attempt net _ _ (.refl c) nofun
  | disconnect => exact .single (.ending c) rfl
  | retryTurn => exact .single (.timer c) rfl
  | reconnect => exact trail_reconnect net c
  | pollTurn => exact trail_pollTurn net hc
  | deliver arrival => exact .single (.delivery c arrival) rfl
  | send contents => exact herrand (.send contents)
  | sendAck sequence => exact herrand (.sendAck sequence)
  | renewKeys => exact herrand .renewKeys
  | setConnectTimeout timeout => exact herrand (.setConnectTimeout timeout)
  | setRetryInterval interval => exact herrand (.setRetryInterval interval)
  | setRetryEnabled enabled => exact herrand (.setRetryEnabled enabled)
  | elapse time => exact herrand (.elapse time)

/-- The passages of a run are a trail. -/
theorem trail_run (hc : c.Ready) (actions : List (Network × Action)) :
    Trail c (c.passages actions) (c.run actions) := by
  induction actions generalizing c with
  | nil => exact .refl c
  | cons taken rest ih =>
      obtain ⟨net, action⟩ := taken
      exact (trail_act net hc action).trans (ih (hc.act net action))

/-- All that an errand can do, but for session, buffers and journal: time passes, and timeouts and
retries are set. -/
structure Runs (c c' : Client) : Prop where
  link : ∃ connectTimeout retryInterval retryEnabled,
    c'.link = { c.link with connectTimeout, retryInterval, retryEnabled }
  workers : c'.workers = c.workers
  now : c.now ≤ c'.now

theorem runs_errand (net : Network) (c : Client) (errand : Errand) :
    Runs c (c.act net errand.action).2 := by
  have hnow : c.now ≤ c.now := Nat.le_refl _
  have hsame {after : Client} (hcourse : after.course = c.course) : Runs c after :=
    ⟨⟨c.link.connectTimeout, c.link.retryInterval, c.link.retryEnabled, link_of_course hcourse⟩,
      congrArg Course.workers hcourse,
      Nat.le_of_eq (congrArg (fun x => x.now.nanoseconds) hcourse).symm⟩
  cases errand with
  | send contents => exact hsame (course_send net c contents)
  | sendAck sequence => exact hsame (course_sendAck net c sequence)
  | renewKeys => exact hsame (course_renewKeys c)
  | setConnectTimeout timeout => exact ⟨⟨timeout, _, _, rfl⟩, rfl, hnow⟩
  | setRetryInterval interval => exact ⟨⟨_, interval, _, rfl⟩, rfl, hnow⟩
  | setRetryEnabled enabled => exact ⟨⟨_, _, enabled, rfl⟩, rfl, hnow⟩
  | elapse time => exact ⟨⟨_, _, _, rfl⟩, rfl, Nat.le_add_right _ _⟩

end ActionPassages

section PassageDatagrams

theorem course_openSocket (net : Network) (c : Client) (host : String) (port : UInt16) :
    (c.openSocket net host port).2.course = c.course := by
  simp only [openSocket]
  cases net.resolve host port with
  | none => rfl
  | some remote =>
      dsimp only
      split
      · simp only [drawKeyPair]
        split
        · rfl
        · rfl
      · rfl

theorem datagrams_openSocket (net : Network) (c : Client) (host : String) (port : UInt16) :
    (c.openSocket net host port).2.datagrams = c.datagrams := by
  have hledger := ledger_openSocket net c host port
  rw [datagrams, datagrams, show (c.openSocket net host port).2.journal = c.journal from
    congrArg Ledger.journal hledger]

/-- All that comes of the request that begins an attempt: the attempt fails, or the request was
sent and the attempt has a server and its keys. -/
structure Asks (c c' : Client) : Prop where
  now : c'.now = c.now
  retry : c'.workers.retry = c.workers.retry
  reconnects : c'.workers.reconnects = c.workers.reconnects
  outcome :
    (c'.link = c.link.enter .connectionFailed c.now ∧ c'.datagrams = c.datagrams) ∨
      ∃ (remote : Address) (pair : Option KeyPair),
        c'.link = { c.link with remote := some remote, keyPair := pair } ∧
          c'.datagrams = c.datagrams ++ [request (pair.map KeyPair.publicKey) none]

theorem asks_failAttempt {generation : Nat} (hcourse : c'.course = c.course)
    (hgeneration : c.link.generation = generation) (hdatagrams : c'.datagrams = c.datagrams) :
    Asks c (c'.failAttempt generation) := by
  have hlink := link_of_course hcourse
  have hnow : c'.now = c.now := congrArg Course.now hcourse
  have hworkers : c'.workers = c.workers := congrArg Course.workers hcourse
  rw [failAttempt, if_pos (by rw [hlink, hgeneration])]
  refine ⟨hnow, congrArg Workers.retry hworkers, congrArg Workers.reconnects hworkers,
    Or.inl ⟨?_, ?_⟩⟩
  · exact congrArg₂ (fun link now => Link.enter link .connectionFailed now) hlink hnow
  · rw [datagrams_raise, datagrams_count]
    exact hdatagrams

/-- All that comes of the request that begins an attempt. -/
theorem asks_attempt
    (net : Network) (host : String) (port : UInt16) {isRetry : Bool}
    (hmay : c.link.mayBegin isRetry = true) :
    Asks (c.beginAttempt host port isRetry) (c.attempt net host port isRetry).2 := by
  have hwaiting : (c.beginAttempt host port isRetry).link.status = .connecting := rfl
  simp only [attempt, hmay, if_true]
  generalize c.beginAttempt host port isRetry = started at hwaiting ⊢
  have hopened := course_openSocket net started host port
  have hopenedDatagrams := datagrams_openSocket net started host port
  generalize started.openSocket net host port = opening at hopened hopenedDatagrams ⊢
  rcases opening with ⟨failure | ⟨remote, pair⟩, opened⟩
  · exact asks_failAttempt hopened rfl hopenedDatagrams
  · dsimp only at hopened hopenedDatagrams ⊢
    simp only [sendRequest]
    split
    · rename_i hsent
      split at hsent
      · cases hsent
      · cases hsent
        exact asks_failAttempt hopened rfl hopenedDatagrams
    · rename_i sent hsent
      split at hsent
      · cases hsent
        have hlink := link_of_course hopened
        have hnow : opened.now = started.now := congrArg Course.now hopened
        have hretry : opened.workers.retry = started.workers.retry :=
          congrArg (fun x => x.workers.retry) hopened
        have hreconnects : opened.workers.reconnects = started.workers.reconnects :=
          congrArg (fun x => x.workers.reconnects) hopened
        have hpublished : (opened.noteSent remote
            (request (pair.map KeyPair.publicKey) none)).publish started.link.generation remote
              pair = some _ :=
          if_pos ⟨congrArg Link.generation hlink, (congrArg Link.status hlink).trans hwaiting⟩
        rw [hpublished]
        refine ⟨hnow, hretry, hreconnects, Or.inr ⟨remote, pair, ?_, ?_⟩⟩
        · exact congrArg (fun link : Link => { link with remote := some remote, keyPair := pair })
            hlink
        · rw [← hopenedDatagrams]
          exact datagrams_noteSent opened remote _
      · cases hsent

theorem datagrams_retryTurn (c : Client) : c.retryTurn.datagrams = c.datagrams := by
  have hticks := ticks_retryTurn c
  generalize c.retryTurn = after at hticks ⊢
  cases hticks with
  | resting | waited | decided | stopped => rfl
  | timedOut =>
      have hcounted := datagrams_count
        { c with link := c.link.enter .connectionFailed c.now } .connectionError
      exact (datagrams_raise _ .connectionError).trans hcounted

theorem datagrams_sendAck (hpool : c.pool.Uniform) (net : Network) (sequence : UInt16) :
    (c.sendAck net sequence).2.datagrams = c.datagrams ∨
      c.route.isSome ∧ (c.sendAck net sequence).2.datagrams =
        c.datagrams ++ [(Packet.ack sequence).signedIn c.pool.bufferCapacity] := by
  simp only [sendAck]
  cases c.route with
  | none => exact Or.inl rfl
  | some remote =>
      have hcontents := Packet.contents_sign_encode (p := .ack sequence)
        (hpool.spare_acquire thread) rfl
      have hrecycle (after : Client) (b : Buffer) : (after.recycle b).datagrams = after.datagrams :=
        rfl
      simp only [hcontents, transmit, hrecycle]
      split
      · refine Or.inr ⟨rfl, ?_⟩
        rw [datagrams_noteSent]
        rfl
      · refine Or.inl ?_
        rw [datagrams_raise, datagrams_count]
        rfl

/-- What an errand sends.  It is no request if the link is not up, and there is nothing of it if
the link was given up. -/
theorem datagrams_errand (hc : c.Ready) (net : Network) (errand : Errand) :
    ∃ added, (c.act net errand.action).2.datagrams = c.datagrams ++ added ∧
      (c.link.status ≠ .connected → ∀ d ∈ added, d.head? ≠ some PacketKind.connect.tag) ∧
      (c.link.status = .disconnected → added = []) := by
  have hnothing {after : Client} (h : after.datagrams = c.datagrams) :
      ∃ added, after.datagrams = c.datagrams ++ added ∧
        (c.link.status ≠ .connected → ∀ d ∈ added, d.head? ≠ some PacketKind.connect.tag) ∧
        (c.link.status = .disconnected → added = []) :=
    ⟨[], by rw [h, List.append_nil], by simp, fun _ => rfl⟩
  cases errand with
  | send contents =>
      by_cases hcan : c.CanSend contents
      · have hsends := sends_send hc.uniform hcan net
        have hsent : ∃ added, (c.send net contents).2.datagrams = c.datagrams ++ added := by
          generalize c.send net contents = outcome at hsends ⊢
          cases hsends with
          | unsealed => exact ⟨[], (List.append_nil _).symm⟩
          | taken _ _ hafter => exact ⟨_, hafter⟩
          | oversized _ _ _ hafter => exact ⟨[], hafter.trans (List.append_nil _).symm⟩
          | untaken _ _ hafter => exact ⟨[], hafter.trans (List.append_nil _).symm⟩
        obtain ⟨added, hadded⟩ := hsent
        refine ⟨added, hadded, fun hdown => absurd hcan.connected hdown, fun hended => ?_⟩
        cases hended.symm.trans hcan.connected
      · exact hnothing (congrArg (fun outcome => outcome.2.datagrams)
          (send_of_not_canSend hcan net))
  | sendAck sequence =>
      rcases datagrams_sendAck hc.uniform net sequence with hnone | ⟨hroute, hone⟩
      · exact hnothing hnone
      · refine ⟨_, hone, fun _ d hd htag => ?_, fun hended => ?_⟩
        · rw [List.mem_singleton.mp hd] at htag
          have hack := Packet.tag_of_signedIn htag
          cases hack
        · have hremote : c.link.remote = none := (hc.sound.disconnected hended).1
          simp [route, hremote] at hroute
  | renewKeys =>
      refine hnothing ?_
      simp only [Errand.action, act, renewKeys]
      cases c.session with
      | none => rfl
      | some s => rfl
  | setConnectTimeout _ | setRetryInterval _ | setRetryEnabled _ | elapse _ => exact hnothing rfl

theorem datagrams_handleDatagram (hc : c.Ready) (net : Network) (remote : Address)
    {bytes : Bytes} (hbytes : bytes ≠ []) :
    (c.handleDatagram net remote bytes).2.datagrams =
      c.datagrams ++ (Handling.sent net remote ⟨c, bytes⟩).map Post.datagram := by
  obtain ⟨added, hjournal, hrecords⟩ :=
    (books_handleDatagram net hc.uniform remote hbytes).journal
  rw [datagrams, hjournal, List.filterMap_append, hrecords.datagrams]
  rfl

end PassageDatagrams

end Client

/-- The datagrams that the socket takes in a passage. -/
def Passage.datagrams (p : Passage) : List Bytes :=
  p.after.datagrams.drop p.before.datagrams.length

theorem Passage.datagrams_of_append {p : Passage} {added : List Bytes}
    (h : p.after.datagrams = p.before.datagrams ++ added) : p.datagrams = added := by
  rw [datagrams, h, List.drop_left]

theorem Passage.Arises.datagrams_eq {p : Passage} (h : p.Arises) :
    p.after.datagrams = p.before.datagrams ++ p.datagrams := by
  have happend : ∃ added, p.after.datagrams = p.before.datagrams ++ added := by
    cases h with
    | beginning => exact ⟨[], (datagrams_count _ .connectAttempt).trans (List.append_nil _).symm⟩
    | asking net host port hmay =>
        rcases (asks_attempt net host port hmay).outcome with ⟨-, hnone⟩ | ⟨remote, pair, -, hone⟩
        · exact ⟨[], hnone.trans (List.append_nil _).symm⟩
        · exact ⟨_, hone⟩
    | ending | delivery => exact ⟨[], (List.append_nil _).symm⟩
    | timer c => exact ⟨[], (datagrams_retryTurn c).trans (List.append_nil _).symm⟩
    | silence => exact ⟨[], (datagrams_raise _ .disconnected).trans (List.append_nil _).symm⟩
    | datagram net remote hready _ hbytes =>
        exact ⟨_, datagrams_handleDatagram hready net remote hbytes⟩
    | errand net hready errand =>
        obtain ⟨added, hadded, -⟩ := datagrams_errand hready net errand
        exact ⟨added, hadded⟩
  obtain ⟨added, hadded⟩ := happend
  rw [Passage.datagrams_of_append hadded, hadded]

/-- A run sends the datagrams of its passages. -/
theorem Trail.datagrams_eq {c c' : Client} {ps : List Passage} (h : Trail c ps c') :
    c'.datagrams = c.datagrams ++ ps.flatMap Passage.datagrams := by
  induction h with
  | last hhands => rw [hhands.datagrams, List.flatMap_nil, List.append_nil]
  | next hnext _ ih =>
      rw [ih, hnext.arises.datagrams_eq, hnext.hands.datagrams, List.flatMap_cons,
        List.append_assoc]

end GameLink
