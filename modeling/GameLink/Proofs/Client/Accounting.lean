import GameLink.Proofs.Client.Chronicle

/-!
# What the counters of a client tell

The counters follow from what a client did: the datagrams that it sent and read, those that it
refused, the events that it raised and the attempts that it began.

**Attempts.** A call to connect begins its attempt in its first part, and counts it when all that
was left of the attempts before is cleared away.

**Results.**
* `clearing_actOn`: attempts that begin and attempts that are counted, in a move.
* `Counts.scenes`: what the scenes of a run count.
* `Metrics.Follows.connectAttempts_eq`: attempts that began and are counted, when none is under way.
* `counters_follow_run`: all counters after a run.
-/

namespace GameLink

section Attempts

/-- How many attempts a call has begun and not counted. -/
def Call.clearing : Call → Nat
  | .stopWorkers .. => 1
  | _ => 0

def Progress.clearing : Progress → Nat
  | .paused call => call.clearing
  | .returned _ => 0

namespace Doing

/-- Whether an attempt begins. -/
def isEntry : Doing → Bool
  | .enter => true
  | _ => false

/-- Whether an attempt is counted. -/
def isClear : Doing → Bool
  | .clear => true
  | _ => false

end Doing

/-- An attempt is counted in the part that ends its clearing. -/
theorem Call.clearing_advance (net : Network) (x : Station) (call : Call) :
    (call.advance net x).1.clearing + (call.doing x).isClear.toNat =
      call.clearing + (call.doing x).isEntry.toNat := by
  cases call with
  | begin host port isRetry =>
      simp only [advance, doing]
      split
      · rfl
      · rfl
  | stopWorkers attempt stopping =>
      simp only [advance, doing]
      rcases stopping.advance x.crew with ⟨_ | next, crew⟩
      · rfl
      · rfl
  | openSocket attempt =>
      simp only [advance]
      split
      · rfl
      · rfl
  | sendRequest attempt remote pair =>
      simp only [advance]
      split
      · rfl
      · split
        · rfl
        · rfl
  | stopBothWorkers stopping =>
      simp only [advance]
      rcases stopping.advance x.crew with ⟨_ | next, crew⟩
      · rfl
      · rfl
  | keepRetryWorker attempt | keepPollWorker attempt | overtake => rfl

namespace SharedClient

/-- How many attempts have begun and are not counted. -/
def clearing (s : SharedClient) : Nat :=
  (s.calls.map Progress.clearing).sum

theorem clearing_resume (net : Network) (s : SharedClient) (index : Nat) :
    (s.resume net index).clearing + (s.doing (.resume index)).isClear.toNat =
      s.clearing + (s.doing (.resume index)).isEntry.toNat := by
  simp only [resume, doing]
  rcases hcall : s.calls[index]? with _ | call | result
  · rfl
  · obtain ⟨k, hothers, hset⟩ := sum_map_set Progress.clearing hcall
    have hbefore : s.clearing = k + call.clearing := hothers
    have hpart := call.clearing_advance net s.station
    rw [hbefore, clearing, hset]
    dsimp only
    omega
  · rfl

/-- A call that takes its first part. -/
theorem clearing_call (net : Network) (s : SharedClient) (call : Call)
    (h : call.clearing = 0) :
    (s.call net call).clearing + (call.doing s.station).isClear.toNat =
      s.clearing + (call.doing s.station).isEntry.toNat := by
  have hlast : (s.make call).calls[s.calls.length]? = some (.paused call) := by
    simp [make]
  have hmade : (s.make call).clearing = s.clearing := by
    simp [make, clearing, Progress.clearing, h]
  have hresume := clearing_resume net (s.make call) s.calls.length
  have hdoing : (s.make call).doing (.resume s.calls.length) = call.doing s.station := by
    simp only [doing, hlast]
    rfl
  rw [hmade, hdoing] at hresume
  exact hresume

theorem clearing_reconnect (net : Network) (s : SharedClient) :
    (s.reconnect net).clearing + (s.doing .reconnect).isClear.toNat =
      s.clearing + (s.doing .reconnect).isEntry.toNat := by
  simp only [reconnect, doing]
  rcases s.station.client.takeRetry with ⟨_ | ⟨host, port⟩, client⟩
  · rfl
  · exact clearing_call net (s.update { s.station with client }) (.begin host port true) rfl

/-- An attempt that begins is to be counted, and one that is counted is not to be counted again. -/
theorem clearing_take (net : Network) (s : SharedClient) (turn : Turn) :
    (s.take net turn).clearing + (s.doing turn).isClear.toNat =
      s.clearing + (s.doing turn).isEntry.toNat := by
  cases turn with
  | connect host port => exact clearing_call net s (.begin host port false) rfl
  | disconnect => exact clearing_call net s .overtake rfl
  | reconnect => exact clearing_reconnect net s
  | resume index => exact clearing_resume net s index
  | errand errand => cases errand <;> rfl
  | retryTurn generation =>
      simp only [take, doing]
      split
      · rfl
      · rfl
  | pollTurn generation =>
      simp only [take, doing]
      split
      · rfl
      · rfl
  | deliver generation arrival | leave badge => rfl

end SharedClient

namespace ThreadedClient

variable {s : ThreadedClient}

def clearing (s : ThreadedClient) : Nat :=
  s.shared.clearing

theorem clearing_actOn (net : Network) (t : Thread) (s : ThreadedClient) (move : Move) :
    (s.actOn net t move).clearing + (s.scene net t move).doing.isClear.toNat =
      s.clearing + (s.scene net t move).doing.isEntry.toNat := by
  cases move with
  | turn turn => exact SharedClient.clearing_take net (s.exchange t).shared turn
  | begin message => rfl
  | goOn index =>
      simp only [actOn, act, scene, doing]
      rcases (s.exchange t).sendings[index]? with _ | sending
      · rfl
      · cases sending <;> rfl

/-- Of the attempts that a run begins some are counted, and some are still to be counted. -/
theorem clearing_run (s : ThreadedClient) (moves : List (Network × Thread × Move)) :
    (s.run moves).clearing + (s.scenes moves).countP (·.doing.isClear) =
      s.clearing + (s.scenes moves).countP (·.doing.isEntry) := by
  induction moves generalizing s with
  | nil => rfl
  | cons move rest ih =>
      obtain ⟨net, t, move⟩ := move
      have hone := clearing_actOn net t s move
      have hrest := ih (s.actOn net t move)
      have hnumber (b : Bool) : (if b = true then 1 else 0) = b.toNat := by
        cases b <;> rfl
      simp only [run_cons, scenes, List.countP_cons, hnumber]
      omega

/-- Nothing is to be counted any more when no call to connect is under way. -/
theorem clearing_eq_zero
    (h : ∀ call, Progress.paused call ∈ s.shared.calls → call.attempt? = none) :
    s.clearing = 0 := by
  refine List.sum_eq_zero_iff_forall_eq_nat.mpr fun n hn => ?_
  obtain ⟨progress, hmem, rfl⟩ := List.mem_map.mp hn
  cases progress with
  | returned result => rfl
  | paused call =>
      have hnone := h call hmem
      cases call with
      | stopWorkers attempt stopping => cases hnone
      | _ => rfl

end ThreadedClient

end Attempts

section SceneCounts

/-- What is counted of datagrams that are read. -/
structure Counts (readings : List Client.Handling) (attempts : Nat) (notices : List Tally) :
    Prop where
  received : notices.filterMap Tally.received? = readings.map fun h => h.datagram.length
  checksumFailures : notices.count .checksumFailure = readings.countP (·.isUnsigned)
  replayRejections : notices.count .replayRejection = readings.countP (·.isReplayed)
  decryptFailures : notices.count .decryptFailure = readings.countP (·.isForged)
  connectAttempts : notices.count .connectAttempt = attempts

namespace Counts

theorem nil : Counts [] 0 [] := by
  constructor <;> rfl

theorem append {readings readings' : List Client.Handling} {attempts attempts' : Nat}
    {notices notices' : List Tally} (h : Counts readings attempts notices)
    (h' : Counts readings' attempts' notices') :
    Counts (readings ++ readings') (attempts + attempts') (notices ++ notices') where
  received := by rw [List.filterMap_append, h.received, h'.received, List.map_append]
  checksumFailures := by
    rw [List.count_append, h.checksumFailures, h'.checksumFailures, List.countP_append]
  replayRejections := by
    rw [List.count_append, h.replayRejections, h'.replayRejections, List.countP_append]
  decryptFailures := by
    rw [List.count_append, h.decryptFailures, h'.decryptFailures, List.countP_append]
  connectAttempts := by rw [List.count_append, h.connectAttempts, h'.connectAttempts]

/-- A datagram is counted once as received, and once as refused if it is refused. -/
theorem reading (h : Client.Handling) : Counts [h] 0 h.notices := by
  unfold Client.Handling.notices Client.Handling.refusals
  cases hunsigned : h.isUnsigned <;> cases hreplayed : h.isReplayed <;>
    cases hforged : h.isForged <;> constructor <;>
      simp [hunsigned, hreplayed, hforged, Tally.received?]

theorem readings (hs : List Client.Handling) :
    Counts hs 0 (hs.flatMap Client.Handling.notices) := by
  induction hs with
  | nil => exact nil
  | cons h rest ih => exact (reading h).append ih

theorem scene (scene : Scene) :
    Counts scene.readings scene.doing.isClear.toNat scene.notices := by
  unfold Scene.readings Scene.notices
  cases scene.doing with
  | clear => constructor <;> rfl
  | look inbox => exact readings _
  | _ => exact nil

/-- What the scenes of a run count. -/
theorem scenes (scenes : List Scene) :
    Counts (scenes.flatMap Scene.readings) (scenes.countP (·.doing.isClear))
      (scenes.flatMap Scene.notices) := by
  induction scenes with
  | nil => exact nil
  | cons first rest ih =>
      have hboth := (scene first).append ih
      have hnumber : first.doing.isClear.toNat = if first.doing.isClear = true then 1 else 0 := by
        cases first.doing.isClear <;> rfl
      rw [hnumber, Nat.add_comm, ← List.countP_cons] at hboth
      exact hboth

/-- The other tallies are about other things. -/
theorem of_filter {readings : List Client.Handling} {attempts : Nat} {tallies : List Tally}
    (h : Counts readings attempts (tallies.filter Tally.isNotice)) :
    Counts readings attempts tallies where
  received := by
    rw [← h.received, List.filterMap_filter]
    congr 1
    funext tally
    cases tally <;> rfl
  checksumFailures := by rw [← h.checksumFailures, List.count_filter rfl]
  replayRejections := by rw [← h.replayRejections, List.count_filter rfl]
  decryptFailures := by rw [← h.decryptFailures, List.count_filter rfl]
  connectAttempts := by rw [← h.connectAttempts, List.count_filter rfl]

end Counts

end SceneCounts

section Counters

/-- The counters have grown as the scenes of a run and the client at its end tell. -/
structure Metrics.Follows (m m' : Metrics) (scenes : List Scene) (last : ThreadedClient) :
    Prop where
  datagramsSent :
    m'.datagramsSent = m.datagramsSent + UInt64.ofNat (scenes.flatMap Scene.posts).length
  bytesSent :
    m'.bytesSent = m.bytesSent +
      UInt64.ofNat ((scenes.flatMap Scene.posts).map fun post => post.datagram.length).sum
  datagramsReceived :
    m'.datagramsReceived =
      m.datagramsReceived + UInt64.ofNat (scenes.flatMap Scene.readings).length
  bytesReceived :
    m'.bytesReceived = m.bytesReceived +
      UInt64.ofNat ((scenes.flatMap Scene.readings).map fun h => h.datagram.length).sum
  /-- An attempt is counted when what was left of those before is cleared away. -/
  connectAttempts :
    m'.connectAttempts + UInt64.ofNat last.clearing =
      m.connectAttempts + UInt64.ofNat (scenes.countP (·.doing.isEntry))
  connectionsEstablished :
    m'.connectionsEstablished =
      m.connectionsEstablished + UInt64.ofNat last.client.connections
  connectionErrors :
    m'.connectionErrors =
      m.connectionErrors + UInt64.ofNat (last.client.events.count .connectionError)
  checksumFailures :
    m'.checksumFailures =
      m.checksumFailures + UInt64.ofNat ((scenes.flatMap Scene.readings).countP (·.isUnsigned))
  replayRejections :
    m'.replayRejections =
      m.replayRejections + UInt64.ofNat ((scenes.flatMap Scene.readings).countP (·.isReplayed))
  decryptFailures :
    m'.decryptFailures =
      m.decryptFailures + UInt64.ofNat ((scenes.flatMap Scene.readings).countP (·.isForged))

/-- When no call to connect is under way, all attempts that began are counted. -/
theorem Metrics.Follows.connectAttempts_eq {m m' : Metrics} {scenes : List Scene}
    {last : ThreadedClient} (h : m.Follows m' scenes last)
    (hidle : ∀ call, Progress.paused call ∈ last.shared.calls → call.attempt? = none) :
    m'.connectAttempts =
      m.connectAttempts + UInt64.ofNat (scenes.countP (·.doing.isEntry)) := by
  have hcounted := h.connectAttempts
  rw [ThreadedClient.clearing_eq_zero hidle] at hcounted
  exact (UInt64.add_zero _).symm.trans hcounted

namespace ThreadedClient

/-- The tallies of a client. -/
def tallies (s : ThreadedClient) : List Tally :=
  s.client.journal.filterMap Effect.tally?

/-- After every run the counters tell the number and the total length of the datagrams that the
socket took, and of those that were read from the server; the attempts that were begun, but for
those still clearing away what was before; the events of a link that is up and of an attempt or a
datagram that failed; the plain datagrams that were not signed; and the datagrams of the secure
channel that the window and the cipher refused. -/
theorem counters_follow_run (setup : Setup) (entropy : Entropy) (now : Moment)
    (moves : List (Network × Thread × Move)) (m : Metrics) :
    let start := ofClient (.create setup entropy now)
    let last := start.run moves
    last.client.datagrams = ((start.scenes moves).flatMap Scene.posts).map Post.datagram ∧
      m.Follows (m.recordAll last.tallies) (start.scenes moves) last := by
  intro start last
  obtain ⟨added, hjournal, hrecords⟩ := (sound_ofClient setup entropy now).records_run moves
  have hnone : start.client.journal = [] := rfl
  rw [hnone, List.nil_append] at hjournal
  have htallies : last.tallies = added.filterMap Effect.tally? :=
    congrArg (List.filterMap Effect.tally?) hjournal
  have hevents : last.client.events = added.filterMap Effect.event? :=
    congrArg (List.filterMap Effect.event?) hjournal
  have hsent : last.tallies.filterMap Tally.sent? =
      ((start.scenes moves).flatMap Scene.posts).map fun post => post.datagram.length := by
    rw [htallies, hrecords.sent, hrecords.datagrams, List.map_map]
    rfl
  have hcounts : Counts ((start.scenes moves).flatMap Scene.readings)
      ((start.scenes moves).countP (·.doing.isClear)) last.tallies := by
    refine .of_filter ?_
    rw [htallies, hrecords.notices]
    exact .scenes _
  have hattempts : last.tallies.count .connectAttempt + last.clearing =
      (start.scenes moves).countP (·.doing.isEntry) := by
    have hrun := clearing_run start moves
    have hstart : start.clearing = 0 := rfl
    rw [hstart, Nat.zero_add, Nat.add_comm] at hrun
    rw [hcounts.connectAttempts]
    exact hrun
  rw [Metrics.recordAll_eq]
  refine ⟨?_, ?_⟩
  · rw [Client.datagrams, hjournal, hrecords.datagrams]
  constructor
  · simp only [Metrics.grown, hsent, List.length_map]
  · simp only [Metrics.grown, hsent]
  · simp only [Metrics.grown, hcounts.received, List.length_map]
  · simp only [Metrics.grown, hcounts.received]
  · simp only [Metrics.grown]
    rw [← hattempts, UInt64.ofNat_add, UInt64.add_assoc]
  · simp only [Metrics.grown, Client.connections, hevents, ← hrecords.established, htallies]
  · simp only [Metrics.grown, hevents, ← hrecords.failed, htallies]
  · simp only [Metrics.grown, hcounts.checksumFailures]
  · simp only [Metrics.grown, hcounts.replayRejections]
  · simp only [Metrics.grown, hcounts.decryptFailures]

end ThreadedClient

end Counters

end GameLink
