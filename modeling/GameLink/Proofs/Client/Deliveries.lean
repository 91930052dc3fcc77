import GameLink.Proofs.Client.Course
import GameLink.Proofs.Client.Handlings
import GameLink.Proofs.PlainDatagram
import GameLink.Proofs.Pool

/-!
# What the application is delivered

Application data reaches the application as events.  Each comes from a datagram of the
server: from a sealed one that the session opens, or from a signed one with one of the
two data tags.

**Results.**
* `delivers_run`: the data events of a run are those of its handlings, in order.
* `delivered_eq_opened_iff`: all of them come from sealed datagrams exactly if no handled
  datagram is a signed one with a data tag.
-/

namespace GameLink

/-- The application data of an effect: the contents and where reading goes on. -/
def Effect.data? : Effect → Option (Bytes × Nat)
  | .raised (.data contents position) => some (contents, position)
  | _ => none

namespace Client

/-- The application data that a client has delivered. -/
def delivered (c : Client) : List (Bytes × Nat) :=
  c.journal.filterMap Effect.data?

/-- Nothing is delivered from one client to the next, and buffers stay of one capacity. -/
structure Quiet (c c' : Client) : Prop where
  delivered : c'.delivered = c.delivered
  uniform : c.pool.Uniform → c'.pool.Uniform

namespace Quiet

variable {c c' c'' : Client}

theorem of_eq (hjournal : c'.journal = c.journal) (hpool : c'.pool = c.pool) :
    Quiet c c' where
  delivered := congrArg (List.filterMap Effect.data?) hjournal
  uniform h := hpool ▸ h

theorem refl (c : Client) : Quiet c c :=
  of_eq rfl rfl

theorem trans (h : Quiet c c') (h' : Quiet c' c'') : Quiet c c'' where
  delivered := h'.delivered.trans h.delivered
  uniform hpool := h'.uniform (h.uniform hpool)

theorem note {effect : Effect} (h : effect.data? = none) (c : Client) :
    Quiet c (c.note effect) where
  delivered := by simp [Client.delivered, Client.note, h]
  uniform hpool := hpool

theorem count (c : Client) (tally : Tally) : Quiet c (c.count tally) :=
  note rfl c

theorem raise {event : Event} (h : (Effect.raised event).data? = none) (c : Client) :
    Quiet c (c.raise event) :=
  note h c

theorem countAll (c : Client) (tallies : List Tally) : Quiet c (c.countAll tallies) := by
  induction tallies generalizing c with
  | nil => exact refl c
  | cons tally rest ih => exact (count c tally).trans (ih (c.count tally))

theorem noteSent (c : Client) (peer : Address) (datagram : Bytes) :
    Quiet c (c.noteSent peer datagram) :=
  (note (rfl : (Effect.sent peer datagram).data? = none) c).trans (count _ _)

theorem withPool {pool : Pool} (h : c.pool.Uniform → pool.Uniform) :
    Quiet c { c with pool } where
  delivered := rfl
  uniform := h

theorem withLink (c : Client) (link : Link) : Quiet c { c with link } :=
  of_eq rfl rfl

theorem dropLink (c : Client) : Quiet c c.dropLink :=
  of_eq rfl rfl

end Quiet

variable {c : Client}

section Sending

theorem quiet_transmit (net : Network) (c : Client) (remote : Address) (datagram : Bytes) :
    Quiet c (c.transmit net remote datagram).2 := by
  simp only [transmit]
  split
  · exact .noteSent c remote datagram
  · exact (Quiet.count c _).trans (.raise rfl _)

theorem quiet_recycle (c : Client) (b : Buffer) : Quiet c (c.recycle b) :=
  .withPool fun h => (h.release thread b).merge thread

theorem quiet_signed (c : Client) (bytes : Bytes) : Quiet c (c.signed bytes).2 := by
  simp only [signed]
  cases c.checkSize (bytes.length + Buffer.signatureSize) with
  | error failure => exact .refl c
  | ok _ =>
      dsimp only
      split
      · exact .withPool fun h => (h.acquire thread).release thread _
      · exact .withPool fun h => h.acquire thread

theorem quiet_sealOutbound (c : Client) (bytes : Bytes) :
    Quiet c (c.sealOutbound bytes).2 := by
  unfold sealOutbound
  split
  · dsimp only
    split
    · exact .refl c
    · rename_i packed tallies s' _
      have hsession : Quiet c { c with session := some s' } := .of_eq rfl rfl
      exact hsession.trans (.countAll _ tallies)
  · exact .refl c

theorem quiet_send (net : Network) (c : Client) (bytes : Bytes) :
    Quiet c (c.send net bytes).2 := by
  simp only [send]
  split
  · exact .refl c
  · cases c.route with
    | none => exact .refl c
    | some remote =>
        have hsealed := quiet_sealOutbound c bytes
        dsimp only
        generalize c.sealOutbound bytes = outcome at hsealed ⊢
        rcases outcome with ⟨failure | _ | datagram, after⟩
        · exact hsealed
        · have hsigned := quiet_signed after bytes
          dsimp only
          generalize after.signed bytes = signing at hsigned ⊢
          rcases signing with ⟨failure | b, last⟩
          · exact hsealed.trans hsigned
          · exact ((hsealed.trans hsigned).trans (quiet_transmit net last remote _)).trans
              (quiet_recycle _ b)
        · exact hsealed.trans (quiet_transmit net after remote datagram)

theorem quiet_sendAck (net : Network) (c : Client) (sequence : UInt16) :
    Quiet c (c.sendAck net sequence).2 := by
  simp only [sendAck]
  cases c.route with
  | none => exact .refl c
  | some remote =>
      exact ((Quiet.withPool fun h => h.acquire thread).trans
        (quiet_transmit net _ remote _)).trans (quiet_recycle _ _)

theorem quiet_reply (net : Network) (c : Client) (remote : Address) (packet : Packet) :
    Quiet c (c.reply net remote packet) := by
  simp only [reply]
  have hacquired : Quiet c { c with pool := (c.pool.acquire thread).2 } :=
    .withPool fun h => h.acquire thread
  split
  · exact (hacquired.trans (.noteSent _ _ _)).trans
      (.withPool fun h => h.release thread _)
  · exact hacquired.trans (.withPool fun h => h.release thread _)

end Sending

section Attempts

theorem quiet_failAttempt (c : Client) (generation : Nat) :
    Quiet c (c.failAttempt generation) := by
  simp only [failAttempt]
  split
  · exact ((Quiet.withLink c _).trans (.count _ _)).trans (.raise rfl _)
  · exact .refl c

theorem quiet_drawKeyPair (c : Client) : Quiet c c.drawKeyPair.2 := by
  simp only [drawKeyPair]
  split
  · exact .of_eq rfl rfl
  · exact .refl c

theorem quiet_openSocket (net : Network) (c : Client) (host : String) (port : UInt16) :
    Quiet c (c.openSocket net host port).2 := by
  simp only [openSocket]
  split
  · exact .refl c
  · split
    · exact quiet_drawKeyPair c
    · exact .refl c

theorem quiet_sendRequest
    (net : Network) (c : Client) (remote : Address) (pair : Option KeyPair) :
    Quiet c (c.sendRequest net remote pair).2 := by
  simp only [sendRequest]
  split
  · exact .noteSent c remote _
  · exact .refl c

theorem quiet_beginAttempt
    (c : Client) (host : String) (port : UInt16) (isRetry : Bool) :
    Quiet c (c.beginAttempt host port isRetry) := by
  have hcleared :
      Quiet c ({ c with link := c.link.begin host port isRetry c.now }).stopWorkers.clear :=
    .of_eq rfl rfl
  exact (hcleared.trans (.count _ .connectAttempt)).trans (.of_eq rfl rfl)

theorem quiet_attempt
    (net : Network) (c : Client) (host : String) (port : UInt16) (isRetry : Bool) :
    Quiet c (c.attempt net host port isRetry).2 := by
  unfold attempt
  split
  · have hbegin := quiet_beginAttempt c host port isRetry
    dsimp only
    generalize c.beginAttempt host port isRetry = started at hbegin ⊢
    have hopen := hbegin.trans (quiet_openSocket net started host port)
    generalize started.openSocket net host port = opening at hopen ⊢
    rcases opening with ⟨failure | ⟨remote, pair⟩, opened⟩
    · exact hopen.trans (quiet_failAttempt _ _)
    · have hsend := hopen.trans (quiet_sendRequest net opened remote pair)
      dsimp only
      generalize opened.sendRequest net remote pair = sending at hsend ⊢
      rcases sending with ⟨failure | _, sent⟩
      · exact hsend.trans (quiet_failAttempt _ _)
      · dsimp only
        split
        · rename_i published hpublish
          have hpublished : Quiet sent published := by
            simp only [publish] at hpublish
            split at hpublish
            · cases hpublish
              exact .of_eq rfl rfl
            · cases hpublish
          exact (hsend.trans hpublished).trans (.of_eq rfl rfl)
        · exact hsend
  · exact .refl c

theorem quiet_retryTurn (c : Client) : Quiet c c.retryTurn := by
  have hticks := ticks_retryTurn c
  generalize c.retryTurn = after at hticks ⊢
  cases hticks with
  | resting => exact .refl c
  | timedOut =>
      exact (((Quiet.withLink c _).trans (.count _ _)).trans (.raise rfl _)).trans (.of_eq rfl rfl)
  | waited | decided | stopped => exact .of_eq rfl rfl

theorem quiet_reconnect (net : Network) (c : Client) : Quiet c (c.reconnect net) := by
  have htake : Quiet c c.takeRetry.2 := by
    simp only [takeRetry]
    split
    · exact .refl c
    · exact .of_eq rfl rfl
  simp only [reconnect]
  generalize c.takeRetry = taken at htake ⊢
  obtain ⟨_ | ⟨host, port⟩, after⟩ := taken
  · exact htake
  · exact htake.trans (quiet_attempt net after host port true)

end Attempts

section Datagrams

theorem quiet_answerCookie
    (net : Network) (c : Client) (remote : Address) (cookie : Octets cookieSize) :
    Quiet c (c.answerCookie net remote cookie) := by
  unfold answerCookie
  split
  · split
    · exact .refl c
    · have hanswered :
          Quiet c { c with link := { c.link with cookieAnswered := true } } :=
        .withLink c _
      dsimp only
      split
      · exact hanswered.trans (.noteSent _ _ _)
      · exact hanswered
  · exact .refl c

theorem quiet_accept (c : Client) (a : Acceptance) : Quiet c (c.accept a) := by
  have hestablish (c : Client) (clientId : Option UInt32) :
      Quiet c (c.establish clientId) := by
    exact ((Quiet.withLink c _).trans (.count _ .connectionEstablished)).trans (.raise rfl _)
  unfold accept
  split
  · have htaken : Quiet c { c with link := { c.link with keyPair := none } } :=
      .withLink c _
    dsimp only
    split
    · exact htaken.trans (hestablish _ _)
    · split
      · exact htaken.trans (quiet_failAttempt _ _)
      · rename_i s _
        have hsession :
            Quiet c { c with
              link := { c.link with keyPair := none }, session := some s } :=
          .of_eq rfl rfl
        exact hsession.trans (hestablish _ _)
  · exact .refl c

/-- From one client to the next some application data is delivered. -/
structure Delivers (c : Client) (items : List (Bytes × Nat)) (c' : Client) : Prop where
  delivered : c'.delivered = c.delivered ++ items
  uniform : c.pool.Uniform → c'.pool.Uniform

namespace Delivers

variable {c' c'' : Client} {items items' : List (Bytes × Nat)}

theorem of_quiet (h : Quiet c c') : Delivers c [] c' where
  delivered := by rw [h.delivered, List.append_nil]
  uniform := h.uniform

theorem data (c : Client) (contents : Bytes) (position : Nat) :
    Delivers c [(contents, position)] (c.raise (.data contents position)) where
  delivered := by simp [Client.delivered, raise, note, Effect.data?]
  uniform h := h

theorem trans (h : Delivers c items c') (h' : Delivers c' items' c'') :
    Delivers c (items ++ items') c'' where
  delivered := by rw [h'.delivered, h.delivered, List.append_assoc]
  uniform hpool := h'.uniform (h.uniform hpool)

theorem after_quiet (h : Quiet c c') (h' : Delivers c' items c'') : Delivers c items c'' :=
  (of_quiet h).trans h'

theorem then_quiet (h : Delivers c items c') (h' : Quiet c' c'') : Delivers c items c'' := by
  have htrans := h.trans (of_quiet h')
  rw [List.append_nil] at htrans
  exact htrans

end Delivers

/-- Packets without application data deliver nothing. -/
theorem quiet_handlePacket
    (net : Network) (c : Client) (remote : Address) (b : Buffer) {packet : Packet}
    (hreliable : packet ≠ .reliable) (hunreliable : packet ≠ .unreliable) :
    Quiet c (c.handlePacket net remote b packet).2 := by
  cases packet with
  | reliable => exact absurd rfl hreliable
  | unreliable => exact absurd rfl hunreliable
  | ping timestamp => exact quiet_reply ..
  | connectionAccepted a => exact quiet_accept c a
  | connectionDenied =>
      by_cases hstatus : c.link.status = .connecting
      · simp only [handlePacket, hstatus, if_true]
        exact (Quiet.withLink c _).trans (.raise rfl _)
      · simp only [handlePacket, hstatus, if_false]
        exact .refl c
  | disconnect =>
      exact (Quiet.dropLink c).trans (.raise rfl _)
  | checkIntegrity index =>
      by_cases henabled : c.setup.settings.security.integrityCheckEnabled = true
      · simp only [handlePacket, henabled, if_true]
        exact quiet_reply ..
      · simp only [handlePacket, henabled]
        exact .refl c
  | cookie cookie => exact quiet_answerCookie ..
  | pong timestamp => exact .refl c
  | ack sequence => exact .refl c
  | connect publicKey cookie => exact .refl c
  | error => exact .refl c

/-- What a signed datagram delivers. -/
theorem delivers_handlePlain (net : Network) (c : Client) (remote : Address) (b : Buffer) :
    Delivers c (dataOf? b).toList (c.handlePlain net remote b).2 := by
  simp only [handlePlain, dataOf?]
  cases b.verify with
  | error failure => exact .of_quiet (.count c _)
  | ok b' =>
      have hheard : Quiet c c.heard := .of_eq rfl rfl
      dsimp only
      rcases hdecode : Packet.decode b' with ⟨failure | packet, rest⟩
      · have hnone : packetData? b' = none :=
          packetData?_eq_none fun packet rest' hok => by
            rw [hdecode] at hok
            cases hok
        rw [hnone]
        exact .of_quiet (.refl c)
      · by_cases hdata : packet = .reliable ∨ packet = .unreliable
        · have hsome : packetData? b' = some (rest.contents, rest.position) := by
            rcases hdata with rfl | rfl
            · simp [packetData?, hdecode]
            · simp [packetData?, hdecode]
          rw [hsome]
          rcases hdata with rfl | rfl
          · exact .after_quiet hheard (.data _ _ _)
          · exact .after_quiet hheard (.data _ _ _)
        · rw [not_or] at hdata
          have hnone : packetData? b' = none :=
            packetData?_eq_none fun packet' rest' hok => by
              rw [hdecode] at hok
              cases hok
              exact hdata
          rw [hnone]
          exact .of_quiet (hheard.trans (quiet_handlePacket net _ remote rest hdata.1 hdata.2))

end Datagrams

section Handlings

namespace Handling

/-- The data of a sealed datagram that the session of the client opens. -/
def opened? (h : Handling) : Option (Bytes × Nat) :=
  match h.client.secureHeader? h.datagram with
  | none => none
  | some (s, header) =>
      let payload : Packed := ⟨h.datagram.drop Header.size, header.flags.compressed⟩
      match s.openPacked h.client.setup.suite payload header.associatedData
          header.sequence with
      | .ok (message, _) => some (tagOf header.channel :: message, 1)
      | .error _ => none

/-- The data of a signed datagram that does not belong to the secure channel. -/
def plain? (h : Handling) : Option (Bytes × Nat) :=
  match h.client.secureHeader? h.datagram with
  | none => (plainBody? h.datagram).map fun body => (body, 1)
  | some _ => none

/-- The data that a datagram delivers. -/
def delivery? (h : Handling) : Option (Bytes × Nat) :=
  h.opened?.or h.plain?

theorem opened?_eq_none_of_plain {h : Handling} {item : Bytes × Nat}
    (hplain : h.plain? = some item) : h.opened? = none := by
  simp only [plain?] at hplain
  simp only [opened?]
  split at hplain
  · rename_i hheader
    simp only [hheader]
  · cases hplain

end Handling

theorem plainBody?_of_bareCookie
    {bytes : Bytes} {cookie : Octets cookieSize} (h : bareCookie? bytes = some cookie) :
    plainBody? bytes = none := by
  cases hbody : plainBody? bytes with
  | none => rfl
  | some body =>
      obtain ⟨hbytes, hdata⟩ := plainBody?_eq_some_iff.mp hbody
      cases body with
      | nil => simp at hdata
      | cons tag rest =>
          simp only [bareCookie?] at h
          rw [hbytes, List.cons_append, List.head?_cons] at h
          split at h
          · rename_i htag
            rw [List.head?_cons, htag] at hdata
            exact absurd hdata (by decide)
          · cases h

/-- The buffer of a datagram holds its octets. -/
theorem loaded_loadedBuffer (bytes : Bytes) (hpool : c.pool.Uniform) :
    (c.loadedBuffer bytes).1.Loaded bytes := by
  simp only [loadedBuffer]
  split
  · rename_i hfits
    refine Buffer.loaded_load ?_
    rw [hpool.capacity_acquire]
    exact hfits
  · exact Buffer.loaded_ofBytes bytes

/-- The buffer of a datagram is given back, or it was not from the pool. -/
theorem settled_loadedBuffer (hpool : c.pool.Uniform) (bytes : Bytes) :
    ∃ pool, (c.loadedBuffer bytes).2 = { c with pool } ∧
      Pool.Settled c.pool (pool.release thread (c.loadedBuffer bytes).1) := by
  simp only [loadedBuffer]
  split
  · rename_i hfits
    have hcapacity := hpool.capacity_acquire thread
    refine ⟨_, rfl, .of_returned hpool thread ?_⟩
    simp only [Buffer.load, Buffer.capacity, List.length_append, List.length_take,
      List.length_drop] at hcapacity ⊢
    omega
  · rename_i hlarge
    refine ⟨c.pool, rfl, .of_dropped hpool thread fun hcapacity => hlarge ?_⟩
    rw [← hcapacity]
    exact Nat.le_refl _

/-- What a datagram delivers. -/
theorem delivers_handleDatagram
    (net : Network) (c : Client) (remote : Address) (bytes : Bytes)
    (hpool : c.pool.Uniform) :
    Delivers c (Handling.delivery? ⟨c, bytes⟩).toList
      (c.handleDatagram net remote bytes).2 := by
  simp only [handleDatagram, Handling.delivery?, Handling.opened?, Handling.plain?]
  cases hheader : c.secureHeader? bytes with
  | some secure =>
      obtain ⟨s, header⟩ := secure
      dsimp only [openSecure]
      generalize s.openPacked c.setup.suite _ header.associatedData header.sequence = outcome
      rcases outcome with failure | ⟨message, s'⟩
      · exact .of_quiet (.countAll c _)
      · have hheard : Quiet c ({ c with session := some s' }).heard := .of_eq rfl rfl
        exact .after_quiet hheard (.data _ _ _)
  | none =>
      cases hcookie : bareCookie? bytes with
      | some cookie =>
          dsimp only
          rw [plainBody?_of_bareCookie hcookie]
          exact .of_quiet (quiet_answerCookie ..)
      | none =>
          have hloaded := dataOf?_of_loaded (loaded_loadedBuffer bytes hpool)
          have hquiet : Quiet c (c.loadedBuffer bytes).2 := by
            simp only [loadedBuffer]
            split
            · exact .withPool fun h => h.acquire thread
            · exact .refl c
          dsimp only
          generalize c.loadedBuffer bytes = loaded at hloaded hquiet ⊢
          have hplain := delivers_handlePlain net loaded.2 remote loaded.1
          rw [hloaded] at hplain
          exact (Delivers.after_quiet hquiet hplain).then_quiet
            (.withPool fun h => h.release thread _)

theorem filterMap_cons_eq {α β : Type} (f : α → Option β) (a : α) (l : List α) :
    (a :: l).filterMap f = (f a).toList ++ l.filterMap f := by
  rw [List.filterMap_cons]
  cases f a with
  | none => rfl
  | some b => rfl

theorem delivers_drain
    (net : Network) (remote : Address) (arrivals : List Arrival) (c : Client)
    (hpool : c.pool.Uniform) :
    Delivers c ((burst net remote arrivals c).filterMap Handling.delivery?)
      (drain net remote arrivals c).2 := by
  induction arrivals generalizing c with
  | nil => exact .of_quiet (.refl c)
  | cons arrival rest ih =>
      have hinbox : Quiet c (c.withInbox rest) := .of_eq rfl rfl
      simp only [drain, burst]
      split
      · have hcounted := hinbox.trans (.count _ (.received arrival.datagram.length))
        generalize (c.withInbox rest).count (.received arrival.datagram.length) = counted
          at hcounted ⊢
        split
        · exact .after_quiet hcounted (ih counted (hcounted.uniform hpool))
        · have hone := Delivers.after_quiet hcounted (delivers_handleDatagram net counted
            remote arrival.datagram (hcounted.uniform hpool))
          rw [filterMap_cons_eq]
          generalize counted.handleDatagram net remote arrival.datagram = outcome at hone ⊢
          obtain ⟨_ | _, after⟩ := outcome
          · exact hone.trans (ih after (hone.uniform hpool))
          · rw [List.filterMap_nil, List.append_nil]
            exact hone
      · exact .after_quiet hinbox (ih _ (hinbox.uniform hpool))

theorem delivers_readSocket (net : Network) (c : Client) (hpool : c.pool.Uniform) :
    Delivers c ((c.readHandlings net).filterMap Handling.delivery?) (c.readSocket net).2 := by
  simp only [readHandlings, readSocket]
  cases c.link.remote with
  | none => exact .of_quiet (.refl c)
  | some remote =>
      cases c.socket with
      | none => exact .of_quiet (.refl c)
      | some socket =>
          exact (delivers_drain net remote socket.inbox c hpool).then_quiet
            (.withPool fun h => h.merge thread)

theorem delivers_poll (net : Network) (c : Client) (hpool : c.pool.Uniform) :
    Delivers c ((c.lookHandlings net).filterMap Handling.delivery?) (c.poll net).2 := by
  simp only [lookHandlings, poll]
  cases c.link.status with
  | connected =>
      dsimp only
      split
      · exact .of_quiet ((Quiet.dropLink c).trans (.raise rfl _))
      · exact delivers_readSocket net c hpool
  | connecting => exact delivers_readSocket net c hpool
  | connectionFailed => exact .of_quiet (.refl c)
  | disconnected => exact .of_quiet (.refl c)

theorem delivers_pollTurn (net : Network) (c : Client) (hpool : c.pool.Uniform) :
    Delivers c ((c.pollHandlings net).filterMap Handling.delivery?) (c.pollTurn net) := by
  simp only [pollHandlings, pollTurn]
  cases c.workers.poll with
  | none => exact .of_quiet (.refl c)
  | some next =>
      have hpoll := delivers_poll net c hpool
      dsimp only
      generalize c.poll net = outcome at hpoll ⊢
      obtain ⟨_ | _, after⟩ := outcome
      · exact hpoll.then_quiet (.of_eq rfl rfl)
      · exact hpoll.then_quiet (.of_eq rfl rfl)

theorem quiet_act (net : Network) (c : Client) {action : Action} (h : action ≠ .pollTurn) :
    Quiet c (c.act net action).2 := by
  cases action with
  | connect host port => exact quiet_attempt net c host port false
  | connectConfigured => exact quiet_attempt net c _ _ false
  | disconnect => exact .of_eq rfl rfl
  | send contents => exact quiet_send net c contents
  | sendAck sequence => exact quiet_sendAck net c sequence
  | renewKeys =>
      simp only [act, renewKeys]
      split
      · exact .refl c
      · exact .of_eq rfl rfl
  | setConnectTimeout timeout => exact .of_eq rfl rfl
  | setRetryInterval interval => exact .of_eq rfl rfl
  | setRetryEnabled enabled => exact .of_eq rfl rfl
  | deliver arrival => exact .of_eq rfl rfl
  | elapse time => exact .of_eq rfl rfl
  | retryTurn => exact quiet_retryTurn c
  | reconnect => exact quiet_reconnect net c
  | pollTurn => exact absurd rfl h

theorem delivers_act (net : Network) (c : Client) (action : Action) (hpool : c.pool.Uniform) :
    Delivers c ((c.actHandlings net action).filterMap Handling.delivery?)
      (c.act net action).2 := by
  cases action with
  | pollTurn => exact delivers_pollTurn net c hpool
  | _ => exact .of_quiet (quiet_act net c nofun)

/-- What a run delivers. -/
theorem delivers_run
    (c : Client) (actions : List (Network × Action)) (hpool : c.pool.Uniform) :
    Delivers c ((c.handlings actions).filterMap Handling.delivery?) (c.run actions) := by
  induction actions generalizing c with
  | nil => exact .of_quiet (.refl c)
  | cons step rest ih =>
      obtain ⟨net, action⟩ := step
      have hact := delivers_act net c action hpool
      rw [handlings, List.filterMap_append]
      exact hact.trans (ih _ (hact.uniform hpool))

/-- Signed data adds to what is opened. -/
theorem length_opened_le (hs : List Handling) :
    (hs.filterMap Handling.opened?).length ≤ (hs.filterMap Handling.delivery?).length := by
  induction hs with
  | nil => exact Nat.le_refl _
  | cons h rest ih =>
      rw [filterMap_cons_eq, filterMap_cons_eq, List.length_append, List.length_append,
        Handling.delivery?]
      refine Nat.add_le_add ?_ ih
      cases h.opened? with
      | none => exact Nat.zero_le _
      | some item => exact Nat.le_refl _

/-- What is delivered was opened exactly if there was no signed data. -/
theorem filterMap_delivery_eq_iff (hs : List Handling) :
    hs.filterMap Handling.delivery? = hs.filterMap Handling.opened? ↔
      ∀ h ∈ hs, h.plain? = none := by
  induction hs with
  | nil => simp
  | cons h rest ih =>
      rw [filterMap_cons_eq, filterMap_cons_eq, List.forall_mem_cons, ← ih,
        Handling.delivery?]
      cases hplain : h.plain? with
      | none =>
          rw [Option.or_none, List.append_cancel_left_eq]
          simp
      | some item =>
          have hle := length_opened_le rest
          rw [h.opened?_eq_none_of_plain hplain]
          constructor
          · intro heq
            have hlength := congrArg List.length heq
            simp only [Option.none_or, Option.toList_some, Option.toList_none, List.nil_append,
              List.length_append, List.length_singleton] at hlength
            omega
          · rintro ⟨hnone, -⟩
            cases hnone

/-- The data events of a run are what its handlings deliver, in order.  All of them come
from sealed datagrams that the session opens exactly if no handled datagram is a signed one
with a data tag. -/
theorem delivered_eq_opened_iff
    (setup : Setup) (entropy : Entropy) (now : Moment)
    (actions : List (Network × Action)) :
    let c := create setup entropy now
    (c.run actions).delivered = (c.handlings actions).filterMap Handling.delivery? ∧
      ((c.run actions).delivered = (c.handlings actions).filterMap Handling.opened? ↔
        ∀ h ∈ c.handlings actions, h.plain? = none) := by
  intro c
  have hpool : c.pool.Uniform := (Pool.Uniform.empty _).preallocate _ _
  have hrun : (c.run actions).delivered =
      (c.handlings actions).filterMap Handling.delivery? :=
    (delivers_run c actions hpool).delivered
  refine ⟨hrun, ?_⟩
  rw [hrun]
  exact filterMap_delivery_eq_iff _

/-- A client with the default security, and small buffers. -/
def sampleSetup : Setup where
  settings := { performance := { poolPrealloc := 0, bufferCapacity := 64 } }
  suite := .standard
  integrity := ⟨Array.replicate integrityTableSize 0, by simp⟩

def signedDatagram (body : Bytes) : Bytes :=
  body ++ Bytes.ofNat 4 (Checksum.crc32c body).toNat

/-- The answer of a server: client number 7, a public key and a salt. -/
def sampleAcceptance : Bytes :=
  signedDatagram
    (PacketKind.connectionAccepted.tag :: Bytes.ofNat 4 7 ++ Bytes.ofNat 32 9
      ++ Bytes.ofNat 16 0)

/-- The client connects; an acceptance and a signed message reach it and are read. -/
def sampleActions : List (Network × Action) :=
  [(.single 1, .connectConfigured),
    (.single 1, .deliver ⟨⟨1, 3565⟩, sampleAcceptance⟩),
    (.single 1, .deliver ⟨⟨1, 3565⟩, signedDatagram [3, 104, 105]⟩),
    (.single 1, .pollTurn)]

/-- A client with a session delivers the signed message all the same. -/
theorem signed_data_delivered :
    sampleSetup.settings.security.encryptionEnabled = true ∧
      ((create sampleSetup (.cyclic []) .zero).run sampleActions).isSecure = true ∧
      ((create sampleSetup (.cyclic []) .zero).run sampleActions).delivered =
        [([3, 104, 105], 1)] ∧
      ((create sampleSetup (.cyclic []) .zero).run sampleActions).delivered ≠
        ((create sampleSetup (.cyclic []) .zero).handlings sampleActions).filterMap
          Handling.opened? := by
  have hplain : ¬ ∀ h ∈ (create sampleSetup (.cyclic []) .zero).handlings sampleActions,
      h.plain? = none := by
    decide +kernel
  obtain ⟨-, hiff⟩ := delivered_eq_opened_iff sampleSetup (.cyclic []) .zero sampleActions
  exact ⟨rfl, by decide +kernel, by decide +kernel, fun heq => hplain (hiff.mp heq)⟩

end Handlings

end Client
end GameLink
