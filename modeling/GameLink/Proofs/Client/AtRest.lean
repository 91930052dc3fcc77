import GameLink.Proofs.Client.Staffing

/-!
# Clients at rest

Once all calls have returned, an attempt that waits or has failed and a link that is up have the
workers they need: a timeout, a retry and the end of a silent link can still come.

**Algorithm.** A turn is a part of a call, a turn of a worker, or something that leaves the workers
alone.  Each keeps the link staffed, if no part of an overtaken attempt takes the socket or a worker
of the newer link.

**Results.**
* `Staffed.take`, `Staffed.run`: so does every run.
* `fails_in_time`, `retries_in_time`, `ends_in_time`: what the workers are there for.
* `workers_at_rest`: the two together.
-/

namespace GameLink
namespace SharedClient

variable {s : SharedClient}

namespace Staffed

section WorkerTurns

theorem retryTurn (h : s.Staffed) (generation : Nat) :
    (s.update (s.station.retryTurn generation)).Staffed := by
  have hturn := s.station.retryTurned generation
  generalize s.station.retryTurn generation = x' at hturn ⊢
  cases hturn with
  | waited hfooting => exact h.update_same hfooting rfl rfl fun _ => rfl
  | @timedOut client hstatus hfooting =>
      have hafter : client.link.status = .connectionFailed := congrArg Footing.status hfooting
      have hgeneration : client.link.generation = s.generation :=
        congrArg Footing.generation hfooting
      refine h.update hgeneration rfl (congrArg Footing.target hfooting)
        (congrArg Footing.remote hfooting) (fun _ => Or.inl hstatus) (fun _ _ => Or.inr hafter)
        ?_ ?_ ?_
      · rintro - (hlive | ⟨hfailed, -⟩)
        · refine Or.inl ?_
          rw [Station.generation, hgeneration]
          exact hlive
        · cases hstatus.symm.trans hfailed
      · simp [Station.NeedsReading, hafter]
      · simp [Station.NeedsReading, hafter]
  | @decided client hstatus hfooting =>
      have hafter : client.link.status = .connectionFailed :=
        (congrArg Footing.status hfooting).trans hstatus
      have hreconnects : client.workers.reconnects = s.station.client.workers.reconnects + 1 :=
        congrArg Footing.reconnects hfooting
      refine h.update (congrArg Footing.generation hfooting) rfl (congrArg Footing.target hfooting)
        (congrArg Footing.remote hfooting) (fun _ => Or.inr hstatus) (fun _ _ => Or.inr hafter)
        ?_ ?_ ?_
      · exact fun _ _ => Or.inr ⟨hafter, hreconnects ▸ Nat.succ_pos _⟩
      · simp [Station.NeedsReading, hafter]
      · simp [Station.NeedsReading, hafter]
  | ended hstatus =>
      have hpending : ¬ s.station.client.link.status.IsPending := by
        rcases hstatus with hconnected | hdisconnected
        · simp [LinkStatus.IsPending, hconnected]
        · simp [LinkStatus.IsPending, hdisconnected]
      refine h.update rfl rfl rfl rfl id (fun _ => id) (fun hnow => absurd hnow hpending) id ?_
      rintro - ⟨hsocket, hopener, hlive⟩
      exact ⟨hsocket, hopener, (Crew.isLive_dismiss_of_ne (by simp)).trans hlive⟩

theorem pollTurn (h : s.Staffed) (net : Network) (generation : Nat) :
    (s.update (s.station.pollTurn net generation)).Staffed := by
  have hturn := Station.pollTurned net s.station generation
  generalize s.station.pollTurn net generation = x' at hturn ⊢
  cases hturn with
  | @kept client crew status hanswers hremote hfooting hkept hretry hlive =>
      have hstatus : client.link.status = status := congrArg Footing.status hfooting
      have hgeneration : client.link.generation = s.generation :=
        congrArg Footing.generation hfooting
      have hpublished : client.link.remote = s.station.client.link.remote :=
        congrArg Footing.remote hfooting
      have hreconnects : client.workers.reconnects = s.station.client.workers.reconnects :=
        congrArg Footing.reconnects hfooting
      have hsocket : client.socket.isSome = s.station.client.socket.isSome :=
        congrArg Footing.hasSocket hfooting
      refine h.update hgeneration hkept (congrArg Footing.target hfooting) hpublished ?_ ?_ ?_ ?_ ?_
      · intro hpending
        rcases hanswers with hsame | ⟨hconnecting, -⟩
        · exact hsame ▸ hstatus ▸ hpending
        · exact Or.inl hconnecting
      · intro hnone hpending
        show client.link.status.IsPending
        rw [hstatus, hremote hnone]
        exact hpending
      · rintro - (hlives | ⟨hfailed, hdecided⟩)
        · refine Or.inl ?_
          rw [Station.generation, hgeneration]
          exact (hretry _).trans hlives
        · refine Or.inr ⟨?_, hreconnects ▸ hdecided⟩
          rcases hanswers with hsame | ⟨hconnecting, -⟩
          · exact hstatus.trans (hsame.trans hfailed)
          · cases hconnecting.symm.trans hfailed
      · -- A link that comes up was reading its socket before.
        rintro (hconnected | ⟨hconnecting, hsome⟩)
        · rcases hanswers with hsame | ⟨hbefore, -⟩
          · exact Or.inl (hsame.symm.trans (hstatus.symm.trans hconnected))
          · refine Or.inr ⟨hbefore, fun hnone => ?_⟩
            cases hbefore.symm.trans ((hremote hnone).symm.trans (hstatus.symm.trans hconnected))
        · have hnow : status = .connecting := hstatus.symm.trans hconnecting
          refine Or.inr ⟨?_, fun hnone => hsome (hpublished.trans hnone)⟩
          rcases hanswers with hsame | ⟨-, hother | hother⟩
          · exact hsame.symm.trans hnow
          · cases hother.symm.trans hnow
          · cases hother.symm.trans hnow
      · rintro hneeds ⟨hopen, hopener, hlives⟩
        have hup : status = .connecting ∨ status = .connected := by
          rcases hneeds with hconnected | ⟨hconnecting, -⟩
          · exact Or.inr (hstatus.symm.trans hconnected)
          · exact Or.inl (hstatus.symm.trans hconnecting)
        refine ⟨hsocket.trans hopen, hopener.trans hgeneration.symm, ?_⟩
        rw [Station.generation, hgeneration]
        exact (hlive hup _).trans hlives
  | dropped hdropped hkept =>
      exact h.dropped (fun _ _ => id) hdropped.generation (fun duty n hn => hkept ▸ hn)
        hdropped.status

end WorkerTurns

section NewCalls

variable {made : Call}

theorem calls_make_cases {i : Nat} {next : Call}
    (h : (s.make made).calls[i]? = some (.paused next)) :
    s.calls[i]? = some (.paused next) ∨ next = made := by
  simp only [SharedClient.make, List.getElem?_append] at h
  split at h
  · exact Or.inl h
  · refine Or.inr ?_
    have hmem := List.mem_of_getElem? h
    simpa using hmem

/-- One more call, which has not begun anything. -/
theorem make (h : s.Staffed) (hnone : made.attempt? = none) : (s.make made).Staffed := by
  have hold : ∀ {i : Nat} {progress : Progress}, s.calls[i]? = some progress →
      (s.make made).calls[i]? = some progress := by
    intro i progress hi
    exact (List.getElem?_append_left (List.getElem?_eq_some_iff.mp hi).1).trans hi
  have hattempt : ∀ {i : Nat} {a : Attempt}, (s.make made).attempt? i = some a →
      s.attempt? i = some a := by
    intro i a ha
    unfold attempt? at ha
    split at ha
    · rename_i next hnext
      rcases calls_make_cases hnext with hsame | rfl
      · simp only [attempt?, hsame]
        exact ha
      · cases hnone.symm.trans ha
    · cases ha
  have hcurrent : ∀ {i : Nat} {next : Call} {a : Attempt}, (s.make made).Current i next a →
      s.Current i next a := by
    intro i next a hown
    rcases calls_make_cases hown.paused with hsame | rfl
    · exact ⟨hsame, hown.begun, hown.generation⟩
    · cases hnone.symm.trans hown.begun
  have hclearing : s.IsClearing → (s.make made).IsClearing := by
    rintro ⟨i, next, a, hown, hnext⟩
    exact ⟨i, next, a, ⟨hold hown.paused, hown.begun, hown.generation⟩, hnext⟩
  have hdisconnecting : s.IsDisconnecting → (s.make made).IsDisconnecting := by
    rintro ⟨i, next, hown, hnext⟩
    exact ⟨i, next, hold hown, hnext⟩
  exact
    { generation_le := fun i a ha => h.generation_le i a (hattempt ha)
      generation_inj := fun i j a b ha hb => h.generation_inj i j a b (hattempt ha) (hattempt hb)
      kept_le := h.kept_le
      target := h.target
      unpublished := fun i next a hown => h.unpublished i next a (hcurrent hown)
      unkept := fun i next a duty hown => h.unkept i next a duty (hcurrent hown)
      timed := fun hpending => (h.timed hpending).imp_right (Or.imp hclearing hdisconnecting)
      read := fun hneeds => (h.read hneeds).imp_right hdisconnecting }

theorem calls_make_self (s : SharedClient) (made : Call) :
    (s.make made).calls[s.calls.length]? = some (.paused made) := by
  simp [SharedClient.make]

theorem call (h : s.Staffed) (net : Network) (hnone : made.attempt? = none) :
    (s.call net made).Staffed := by
  refine (h.make hnone).resume net s.calls.length fun next a hnext ha => ?_
  cases (calls_make_self s made).symm.trans hnext
  cases hnone.symm.trans ha

/-- A retry that was decided on begins, or gives way. -/
theorem reconnect (h : s.Staffed) (net : Network) : (s.reconnect net).Staffed := by
  -- One retry less is noticed only while the link has failed.
  have hless : ∀ n, s.station.client.link.status ≠ .connectionFailed →
      (s.withReconnects n).Staffed := by
    intro n hstatus
    refine h.update rfl rfl rfl rfl id (fun _ => id) ?_ id fun _ => id
    rintro - (hlive | ⟨hfailed, -⟩)
    · exact Or.inl hlive
    · exact absurd hfailed hstatus
  rcases reconnect_cases net s with ⟨-, hsame⟩ | ⟨hnone, n, hcall⟩ | ⟨n, host, port, -, hcall⟩
  · rw [hsame]
    exact h
  · rw [hcall]
    exact hless n fun hfailed => h.target (Or.inr hfailed) hnone
  · rw [hcall]
    by_cases hfailed : s.station.client.link.status = .connectionFailed
    · have hmay : (s.withReconnects n).station.client.link.mayBegin true = true :=
        decide_eq_true hfailed
      have hself := calls_make_self s (.begin host port true)
      have hbegun : (s.withReconnects n).call net (.begin host port true) =
          (s.make (.begin host port true)).put s.calls.length
            ((Call.begin host port true).advance net (s.withReconnects n).station).1
            ((Call.begin host port true).advance net (s.withReconnects n).station).2 :=
        resume_eq_put net (calls_make_self (s.withReconnects n) (.begin host port true))
      rw [hbegun]
      simp only [Call.advance, hmay, if_true]
      exact (h.make rfl).begun hself rfl rfl rfl (Nat.lt_succ_self _) rfl (Option.some_ne_none _)
        rfl rfl
    · exact (hless n hfailed).call net rfl

end NewCalls

section Runs

/-- A turn, if it is not a part of an overtaken attempt that interferes. -/
theorem take (h : s.Staffed) (net : Network) (turn : Turn)
    (hspared : ∀ p ∈ s.partOf? net turn, p.isOvertaken = true → p.call.touchesWorkers = true →
      p.before.station.Spared p.after.station) :
    (s.take net turn).Staffed := by
  cases turn with
  | connect host port => exact h.call net rfl
  | disconnect => exact h.call net rfl
  | reconnect => exact h.reconnect net
  | resume index =>
      refine h.resume net index fun call attempt hcall hattempt hover htouches => ?_
      have hpart : s.partOf? net (.resume index) = some ⟨net, s, index, call⟩ := by
        simp only [partOf?, hcall]
      have hovertaken : (⟨net, s, index, call⟩ : Part).isOvertaken = true := by
        simp [Part.isOvertaken, hattempt, hover]
      have hafter := hspared _ hpart hovertaken htouches
      rwa [station_after hcall] at hafter
  | errand errand =>
      exact h.update_same (Client.footing_errand net s.station.client errand) rfl rfl fun _ => rfl
  | deliver generation arrival =>
      exact h.update_same rfl rfl rfl fun _ => Crew.isLive_change (fun _ => rfl) fun _ => rfl
  | retryTurn generation => exact h.retryTurn generation
  | pollTurn generation => exact h.pollTurn net generation
  | leave badge => exact h.update_same rfl rfl rfl fun _ => Crew.isLive_dismissCancelled

theorem run (h : s.Staffed) (turns : List (Network × Turn))
    (hspared : ∀ p ∈ s.parts turns, p.isOvertaken = true → p.call.touchesWorkers = true →
      p.before.station.Spared p.after.station) :
    (s.run turns).Staffed := by
  induction turns generalizing s with
  | nil => exact h
  | cons turn rest ih =>
      obtain ⟨net, turn⟩ := turn
      refine ih (h.take net turn fun p hp => ?_) fun p hp => ?_
      · exact hspared p (List.mem_append_left _ (Option.mem_toList.mpr hp))
      · exact hspared p (List.mem_append_right _ hp)

end Runs

end Staffed

/-- A new client needs no worker. -/
theorem staffed_ofClient (setup : Setup) (entropy : Entropy) (now : Moment) :
    (ofClient (.create setup entropy now)).Staffed := by
  have hstatus : (ofClient (.create setup entropy now)).station.client.link.status =
      .disconnected := rfl
  have hpending :
      ¬ (ofClient (.create setup entropy now)).station.client.link.status.IsPending := by
    simp [LinkStatus.IsPending, hstatus]
  have hcurrent : ∀ i call a, ¬ (ofClient (.create setup entropy now)).Current i call a := by
    rintro i call a ⟨hpaused, -, -⟩
    cases hpaused
  exact
    { generation_le := fun i a ha => by cases ha
      generation_inj := fun i j a b ha => by cases ha
      kept_le := fun duty n hn => by cases hn
      target := fun hnow => absurd hnow hpending
      unpublished := fun i call a hown => absurd hown (hcurrent i call a)
      unkept := fun i call a duty hown => absurd hown (hcurrent i call a)
      timed := fun hnow => absurd hnow hpending
      read := fun hneeds => by simp [Station.NeedsReading, hstatus] at hneeds }

section WorkerDuties

def status (s : SharedClient) : LinkStatus :=
  s.station.client.link.status

/-- A span that is over once so much more time has passed. -/
theorem since_add_not_lt (start now : Moment) (span : Duration) :
    ¬ start.since (now + (start + span)) < span := by
  rw [Duration.lt_iff]
  show ¬ now.nanoseconds + (start.nanoseconds + span.nanoseconds) - start.nanoseconds <
    span.nanoseconds
  omega

/-- A retry worker lets an attempt fail that took too long. -/
theorem retryTurn_of_expired {x : Station} {generation : Nat}
    (hstatus : x.client.link.status = .connecting)
    (hpassed : ¬ x.client.link.phaseStarted.since x.client.now < x.client.link.connectTimeout)
    (hlive : x.crew.isLive ⟨.retry, generation⟩ = true) :
    (x.retryTurn generation).client.link.status = .connectionFailed := by
  simp only [Station.retryTurn, Crew.runs_of_isLive hlive, if_true, Client.retryTick, hstatus,
    hpassed, if_false]
  rfl

/-- An attempt without an answer fails in time. -/
theorem fails_in_time (hstatus : s.status = .connecting) (generation : Nat)
    (hlive : s.station.crew.isLive ⟨.retry, generation⟩ = true) :
    ∃ time, ∀ net,
      (s.run [(net, .errand (.elapse time)), (net, .retryTurn generation)]).status =
        .connectionFailed := by
  refine ⟨s.station.client.link.phaseStarted + s.station.client.link.connectTimeout, fun net => ?_⟩
  rw [run_cons, run_cons, run_nil]
  exact retryTurn_of_expired hstatus (since_add_not_lt _ _ _) hlive

/-- A retry that was decided on begins if the last attempt failed. -/
theorem status_reconnect_of_failed (net : Network) (hstatus : s.status = .connectionFailed)
    (htarget : s.station.client.link.target ≠ none)
    (hreconnects : 0 < s.station.client.workers.reconnects) :
    (s.reconnect net).status = .connecting := by
  rcases reconnect_cases net s with ⟨hzero, -⟩ | ⟨hnone, -⟩ | ⟨n, host, port, -, hcall⟩
  · omega
  · exact absurd hnone htarget
  · have hmay : (s.withReconnects n).station.client.link.mayBegin true = true :=
      decide_eq_true hstatus
    rw [hcall, SharedClient.call,
      resume_eq_put net (Staffed.calls_make_self (s.withReconnects n) (.begin host port true))]
    simp only [Call.advance, SharedClient.make, hmay, if_true]
    rfl

/-- Once the pause after a failed attempt is over, a retry is decided on, unless one is already. -/
theorem retry_decided {x : Station} (hstatus : x.client.link.status = .connectionFailed)
    (henabled : x.client.link.retryEnabled = true) (htarget : x.client.link.target ≠ none)
    (hpassed : ¬ x.client.link.phaseStarted.since x.client.now < x.client.link.retryInterval)
    (generation : Nat)
    (htimed : x.crew.isLive ⟨.retry, generation⟩ = true ∨ 0 < x.client.workers.reconnects) :
    (x.retryTurn generation).client.link.status = .connectionFailed ∧
      (x.retryTurn generation).client.link.target = x.client.link.target ∧
      0 < (x.retryTurn generation).client.workers.reconnects := by
  cases hruns : x.crew.runs ⟨.retry, generation⟩ with
  | true =>
      have hfooting : (x.retryTurn generation).client.footing =
          { x.client.footing with
            status := .connectionFailed, reconnects := x.client.workers.reconnects + 1 } := by
        simp only [Station.retryTurn, hruns, if_true, Client.retryTick, hstatus, henabled, htarget,
          hpassed, Bool.not_true, Bool.false_eq_true, or_self, if_false]
        rfl
      have hreconnects : (x.retryTurn generation).client.workers.reconnects =
          x.client.workers.reconnects + 1 :=
        congrArg Footing.reconnects hfooting
      exact ⟨congrArg Footing.status hfooting, congrArg Footing.target hfooting,
        hreconnects ▸ Nat.succ_pos _⟩
  | false =>
      have hsame : x.retryTurn generation = x := by
        simp only [Station.retryTurn, hruns, Bool.false_eq_true, if_false]
      rw [hsame]
      refine ⟨hstatus, rfl, htimed.resolve_left fun hlive => ?_⟩
      rw [Crew.runs_of_isLive hlive] at hruns
      cases hruns

/-- An attempt that failed is retried in time, if retries are switched on. -/
theorem retries_in_time (hstatus : s.status = .connectionFailed)
    (henabled : s.station.client.link.retryEnabled = true)
    (htarget : s.station.client.link.target ≠ none)
    (htimed : s.station.crew.isLive ⟨.retry, s.generation⟩ = true ∨
      0 < s.station.client.workers.reconnects) :
    ∃ time, ∀ net,
      (s.run [(net, .errand (.elapse time)), (net, .retryTurn s.generation),
        (net, .reconnect)]).status = .connecting := by
  refine ⟨s.station.client.link.phaseStarted + s.station.client.link.retryInterval, fun net => ?_⟩
  have hpassed := since_add_not_lt s.station.client.link.phaseStarted s.station.client.now
    s.station.client.link.retryInterval
  obtain ⟨hfailed, hsame, hdecided⟩ := retry_decided
    (x := (s.take net (.errand (.elapse
      (s.station.client.link.phaseStarted + s.station.client.link.retryInterval)))).station)
    hstatus henabled htarget hpassed s.generation htimed
  rw [run_cons, run_cons, run_cons, run_nil]
  exact status_reconnect_of_failed net hfailed (fun hnone => htarget (hsame.symm.trans hnone))
    hdecided

/-- A poll worker gives up a link that has been silent for too long. -/
theorem pollTurn_of_silent (net : Network) {x : Station} {generation : Nat}
    (hstatus : x.client.link.status = .connected)
    (hsilent : x.client.setup.settings.client.keepaliveTimeout <
      x.client.link.lastActivity.since x.client.now)
    (hlive : x.crew.isLive ⟨.poll, generation⟩ = true) :
    (x.pollTurn net generation).client.link.status = .disconnected := by
  obtain ⟨worker, hworker⟩ := Crew.exists_find?_of_isLive hlive
  simp only [Station.pollTurn, hworker, Client.poll, Station.seenBy, hstatus, hsilent, if_true]
  rfl

/-- A link that is up but silent ends in time. -/
theorem ends_in_time (hstatus : s.status = .connected) (generation : Nat)
    (hlive : s.station.crew.isLive ⟨.poll, generation⟩ = true) :
    ∃ time, ∀ net,
      (s.run [(net, .errand (.elapse time)), (net, .pollTurn generation)]).status =
        .disconnected := by
  refine ⟨s.station.client.link.lastActivity +
    (s.station.client.setup.settings.client.keepaliveTimeout + ⟨1⟩), fun net => ?_⟩
  have hpassed := since_add_not_lt s.station.client.link.lastActivity s.station.client.now
    (s.station.client.setup.settings.client.keepaliveTimeout + ⟨1⟩)
  rw [run_cons, run_cons, run_nil]
  exact pollTurn_of_silent net hstatus (Nat.lt_of_succ_le (Nat.le_of_not_lt hpassed)) hlive

/-- The link has the workers it needs, and they can do what they are there for. -/
structure IsAttended (s : SharedClient) : Prop where
  connecting : s.status = .connecting →
    s.station.crew.isLive ⟨.retry, s.generation⟩ = true
  failed : s.status = .connectionFailed →
    s.station.crew.isLive ⟨.retry, s.generation⟩ = true ∨ 0 < s.station.client.workers.reconnects
  connected : s.status = .connected →
    s.station.client.socket.isSome = true ∧
      s.station.crew.isLive ⟨.poll, s.station.opener⟩ = true
  fails : s.status = .connecting → ∃ time, ∀ net,
    (s.run [(net, .errand (.elapse time)), (net, .retryTurn s.generation)]).status =
      .connectionFailed
  retries : s.status = .connectionFailed → s.station.client.link.retryEnabled = true →
    ∃ time, ∀ net,
      (s.run [(net, .errand (.elapse time)), (net, .retryTurn s.generation),
        (net, .reconnect)]).status = .connecting
  ends : s.status = .connected → ∃ time, ∀ net,
    (s.run [(net, .errand (.elapse time)), (net, .pollTurn s.station.opener)]).status =
      .disconnected

namespace Staffed

variable (hrest : ∀ progress ∈ s.calls, progress.isOver = true)
include hrest

theorem not_isClearing_of_rest : ¬ s.IsClearing := by
  rintro ⟨i, call, attempt, hcurrent, -⟩
  have hover := hrest _ (List.mem_of_getElem? hcurrent.paused)
  cases hover

theorem not_isDisconnecting_of_rest : ¬ s.IsDisconnecting := by
  rintro ⟨i, call, hpaused, -⟩
  have hover := hrest _ (List.mem_of_getElem? hpaused)
  cases hover

/-- A link that is staffed has its workers once all calls have returned. -/
theorem isAttended_of_rest (h : s.Staffed) : s.IsAttended := by
  have htimed : s.status.IsPending → s.station.IsTimed := by
    intro hpending
    rcases h.timed hpending with htimed | hclearing | hdisconnecting
    · exact htimed
    · exact absurd hclearing (not_isClearing_of_rest hrest)
    · exact absurd hdisconnecting (not_isDisconnecting_of_rest hrest)
  have hconnecting : s.status = .connecting →
      s.station.crew.isLive ⟨.retry, s.generation⟩ = true := by
    intro hstatus
    rcases htimed (Or.inl hstatus) with hlive | ⟨hfailed, -⟩
    · exact hlive
    · cases hstatus.symm.trans hfailed
  have hfailed : s.status = .connectionFailed →
      s.station.crew.isLive ⟨.retry, s.generation⟩ = true ∨
        0 < s.station.client.workers.reconnects :=
    fun hstatus => (htimed (Or.inr hstatus)).imp_right And.right
  have hconnected : s.status = .connected → s.station.client.socket.isSome = true ∧
      s.station.crew.isLive ⟨.poll, s.station.opener⟩ = true := by
    intro hstatus
    rcases h.read (Or.inl hstatus) with ⟨hsocket, hopener, hlive⟩ | hdisconnecting
    · exact ⟨hsocket, hopener ▸ hlive⟩
    · exact absurd hdisconnecting (not_isDisconnecting_of_rest hrest)
  exact
    { connecting := hconnecting
      failed := hfailed
      connected := hconnected
      fails := fun hstatus => fails_in_time hstatus s.generation (hconnecting hstatus)
      retries := fun hstatus henabled =>
        retries_in_time hstatus henabled (h.target (Or.inr hstatus)) (hfailed hstatus)
      ends := fun hstatus => ends_in_time hstatus s.station.opener (hconnected hstatus).2 }

end Staffed

/-- When all calls have returned, a link that waits, has failed or is up has the workers it needs,
unless an overtaken attempt took away its socket or one of its own workers while it stopped workers
or kept its own. -/
theorem workers_at_rest (setup : Setup) (entropy : Entropy) (now : Moment)
    (turns : List (Network × Turn))
    (hspared : ∀ p ∈ (ofClient (.create setup entropy now)).parts turns,
      p.isOvertaken = true → p.call.touchesWorkers = true →
        p.before.station.Spared p.after.station)
    (hrest : ∀ progress ∈ ((ofClient (.create setup entropy now)).run turns).calls,
      progress.isOver = true) :
    ((ofClient (.create setup entropy now)).run turns).IsAttended :=
  ((staffed_ofClient setup entropy now).run turns hspared).isAttended_of_rest hrest

/-- Turns of a client whose network is the same all the time. -/
def within (net : Network) (turns : List Turn) : List (Network × Turn) :=
  turns.map fun turn => (net, turn)

/-- An acceptance reaches the socket of an attempt and is read. -/
def acceptanceRead (generation : Nat) : List Turn :=
  [.deliver generation ⟨⟨1, 3565⟩, Client.sampleAcceptance⟩, .pollTurn generation]

/-- A call to connect is about to keep its retry worker and is overtaken.  It goes on to look up the
server; then a newer call to connect is made and succeeds, and the older one returns. -/
def sparingTurns : List (Network × Turn) :=
  within (.single 1)
    ([.connect "server" 3565, .resume 0, .disconnect, .resume 1, .resume 0,
        .connect "server" 3565, .resume 2, .leave ⟨.retry, 1⟩] ++
      List.replicate 5 (.resume 2) ++ acceptanceRead 4 ++ List.replicate 2 (.resume 0))

/-- Here the older call is about to stop the workers, and stops those of the newer one. -/
def strippingTurns : List (Network × Turn) :=
  within (.single 1)
    ([.connect "server" 3565, .disconnect, .resume 1, .connect "server" 3565] ++
      List.replicate 5 (.resume 2) ++ acceptanceRead 4 ++
      [.resume 0, .leave ⟨.retry, 4⟩, .resume 0, .leave ⟨.poll, 4⟩] ++
      List.replicate 4 (.resume 0))

/-- In the first case the link is up with its workers, in the second without socket and worker. -/
theorem link_stripped_of_workers :
    (plainClient.run sparingTurns).IsAttended ∧
      (plainClient.run sparingTurns).status = .connected ∧
      (∃ p ∈ plainClient.parts sparingTurns,
        p.isOvertaken = true ∧ p.call.touchesWorkers = true) ∧
      (∀ progress ∈ (plainClient.run strippingTurns).calls, progress.isOver = true) ∧
      (plainClient.run strippingTurns).status = .connected ∧
      (plainClient.run strippingTurns).station.client.socket.isSome = false ∧
      (∀ w ∈ (plainClient.run strippingTurns).station.crew.running, w.badge.duty = .retry) ∧
      ¬ (plainClient.run strippingTurns).IsAttended := by
  have hspared : ∀ p ∈ plainClient.parts sparingTurns, p.isOvertaken = true →
      p.call.touchesWorkers = true → p.before.station.Spared p.after.station := by
    decide +kernel
  have hrest : ∀ progress ∈ (plainClient.run sparingTurns).calls, progress.isOver = true := by
    decide +kernel
  have hstatus : (plainClient.run strippingTurns).status = .connected := by decide +kernel
  have hsocket : (plainClient.run strippingTurns).station.client.socket.isSome = false := by
    decide +kernel
  refine ⟨workers_at_rest plainSetup (.cyclic []) .zero sparingTurns hspared hrest,
    by decide +kernel, by decide +kernel, by decide +kernel, hstatus, hsocket, by decide +kernel,
    fun hattended => ?_⟩
  rw [(hattended.connected hstatus).1] at hsocket
  cases hsocket

end WorkerDuties

end SharedClient
end GameLink
