import GameLink.Proofs.Client.Footing
import GameLink.Proofs.Client.History
import GameLink.Proofs.Client.Sending

/-!
# Overtaken attempts

A call to connect may pause while the link goes on to a newer generation.  Its attempt is overtaken
then, and the parts of the call that are still to come compare the generations only where they
publish the socket or let the attempt fail.

**Results.**
* `advance_of_overtaken`: what a part of an overtaken attempt leaves alone in any case.
* `inert_iff`: when it leaves everything alone.
-/

namespace GameLink

namespace Station

def generation (x : Station) : Nat :=
  x.client.link.generation

/-- There is no socket and no session that could be taken away. -/
def IsCleared (x : Station) : Prop :=
  x.client.socket = none ∧ x.client.session = none

/-- Nothing is done to the link, its socket and its session, and nothing is raised or sent; the
workers of the link's own generation stay alive and kept. -/
structure Inert (x x' : Station) : Prop where
  link : x'.client.link = x.client.link
  socket : x'.client.socket = x.client.socket
  opener : x'.opener = x.opener
  session : x'.client.session = x.client.session
  events : x'.client.events = x.client.events
  datagrams : x'.client.datagrams = x.client.datagrams
  live : ∀ duty, x.crew.isLive ⟨duty, x.generation⟩ = true →
    x'.crew.isLive ⟨duty, x.generation⟩ = true
  kept : ∀ duty, x.crew.kept duty = some x.generation → x'.crew.kept duty = some x.generation

variable {x : Station}

theorem Inert.refl (x : Station) : x.Inert x :=
  ⟨rfl, rfl, rfl, rfl, rfl, rfl, fun _ h => h, fun _ h => h⟩

/-- Only the crew is changed. -/
theorem inert_crew_iff {crew : Crew} :
    x.Inert { x with crew } ↔
      (∀ duty, x.crew.isLive ⟨duty, x.generation⟩ = true →
        crew.isLive ⟨duty, x.generation⟩ = true) ∧
      ∀ duty, x.crew.kept duty = some x.generation → crew.kept duty = some x.generation :=
  ⟨fun h => ⟨h.live, h.kept⟩, fun h => ⟨rfl, rfl, rfl, rfl, rfl, rfl, h.1, h.2⟩⟩

end Station

/-- When going on with stopping the workers does nothing to a newer link: no worker of its
generation is let go or cancelled, and in the end there is nothing to clear. -/
def Stopping.IsHarmless (x : Station) : Stopping → Prop
  | .lock =>
      (∀ duty, x.crew.kept duty ≠ some x.generation) ∧ (x.crew.keptBadges = [] → x.IsCleared)
  | .join badge [] => x.crew.runs badge = false → x.IsCleared
  | .join badge (next :: _) =>
      x.crew.runs badge = false → next.generation = x.generation → x.crew.isLive next = false

/-- When the next part of a call whose attempt was overtaken does nothing to the newer link. -/
def Call.IsHarmless (net : Network) (x : Station) : Call → Prop
  | .stopWorkers _ stopping => stopping.IsHarmless x
  | .keepRetryWorker _ => x.crew.kept .retry ≠ some x.generation
  | .keepPollWorker _ => x.crew.kept .poll ≠ some x.generation
  | .sendRequest _ remote pair =>
      x.client.isCarried net remote (Client.request (pair.map KeyPair.publicKey) none) = false
  | .openSocket _ | .begin .. | .overtake | .stopBothWorkers _ => True

section Workers

namespace Crew

variable {crew : Crew}

theorem mem_keptBadges {badge : Badge} :
    badge ∈ crew.keptBadges ↔ crew.kept badge.duty = some badge.generation := by
  obtain ⟨duty, generation⟩ := badge
  cases duty with
  | retry => simp [keptBadges]
  | poll => simp [keptBadges]

theorem kept_of_keptBadges_eq_nil (h : crew.keptBadges = []) (duty : Duty) :
    crew.kept duty = none := by
  cases hkept : crew.kept duty with
  | none => rfl
  | some generation =>
      have hmem : (⟨duty, generation⟩ : Badge) ∈ crew.keptBadges := mem_keptBadges.mpr hkept
      rw [h] at hmem
      cases hmem

end Crew

namespace Client

variable {c : Client} {generation : Nat}

theorem openSocket_snd (net : Network) (c : Client) (host : String) (port : UInt16) :
    ∃ entropy, (c.openSocket net host port).2 = { c with entropy } := by
  simp only [openSocket]
  split
  · exact ⟨_, rfl⟩
  · split
    · simp only [drawKeyPair]
      split
      · exact ⟨_, rfl⟩
      · exact ⟨_, rfl⟩
    · exact ⟨_, rfl⟩

theorem failAttempt_of_overtaken (h : generation < c.link.generation) :
    c.failAttempt generation = c := by
  rw [failAttempt, if_neg (Nat.ne_of_gt h)]

theorem publish_of_overtaken (h : generation < c.link.generation) (remote : Address)
    (pair : Option KeyPair) : c.publish generation remote pair = none := by
  rw [publish, if_neg fun hboth => Nat.ne_of_gt h hboth.1]

end Client

end Workers

section OvertakenAttempt

namespace Station

variable {x : Station} {generation : Nat}

/-- Clearing is noticed exactly if there is something to clear, and starting a worker never is. -/
theorem inert_clear_iff (generation : Nat) (crew : Crew)
    (hlive : ∀ badge, crew.isLive badge = x.crew.isLive badge)
    (hkept : ∀ duty, crew.kept duty = x.crew.kept duty) :
    x.Inert
        { x with
          client := x.client.stopWorkers.clear.count .connectAttempt
          crew := crew.start ⟨.retry, generation⟩ } ↔
      x.IsCleared := by
  constructor
  · intro hinert
    exact ⟨hinert.socket.symm, hinert.session.symm⟩
  · rintro ⟨hsocket, hsession⟩
    refine ⟨rfl, hsocket.symm, rfl, hsession.symm, Client.events_count _ _,
      Client.datagrams_count _ _, fun duty hduty => ?_, fun duty hduty => (hkept duty).trans hduty⟩
    rw [Crew.isLive_start, hlive, hduty]
    rfl

/-- Keeping the worker of an older attempt is noticed exactly if one of the link's own generation
was kept. -/
theorem inert_keep_iff (h : generation < x.generation) (duty : Duty) {client : Client}
    (hclient : x.Inert { x with client }) :
    x.Inert { x with client, crew := x.crew.keep ⟨duty, generation⟩ } ↔
      x.crew.kept duty ≠ some x.generation := by
  constructor
  · intro hinert hkept
    have hafter := hinert.kept duty hkept
    rw [Crew.kept_keep, if_pos rfl, Option.some.injEq] at hafter
    exact Nat.ne_of_lt h hafter
  · intro hkept
    refine ⟨hclient.link, hclient.socket, rfl, hclient.session, hclient.events, hclient.datagrams,
      fun other hlive => ?_, fun other hother => ?_⟩
    · rw [Crew.isLive_keep_of_ne]
      · exact hlive
      · exact Or.inl hkept
    · rw [Crew.kept_keep]
      split
      · rename_i heq
        obtain rfl : other = duty := heq
        exact absurd hother hkept
      · exact hother

end Station

namespace Call

open Station

variable {net : Network} {x : Station} {attempt : Attempt}

/-- Stopping the workers is noticed if a worker of the link's own generation is let go or cancelled,
and if there is something to clear in the end. -/
theorem inert_stopWorkers_iff (net : Network) (attempt : Attempt) (stopping : Stopping) :
    x.Inert ((stopWorkers attempt stopping).advance net x).2 ↔ stopping.IsHarmless x := by
  cases stopping with
  | lock =>
      cases hbadges : x.crew.keptBadges with
      | nil =>
          have hnone := Crew.kept_of_keptBadges_eq_nil hbadges
          simp only [advance, Stopping.advance, hbadges, Stopping.next]
          rw [inert_clear_iff _ x.crew.release (fun _ => rfl) fun duty => (hnone duty).symm]
          simp [Stopping.IsHarmless, hbadges, hnone]
      | cons badge rest =>
          have hbadge : x.crew.kept badge.duty = some badge.generation :=
            Crew.mem_keptBadges.mp (by rw [hbadges]; exact List.mem_cons_self)
          simp only [advance, Stopping.advance, hbadges, Stopping.next]
          rw [inert_crew_iff]
          simp only [Stopping.IsHarmless, hbadges, reduceCtorEq, false_implies, and_true,
            Crew.kept_cancel, Crew.kept_release]
          constructor
          · rintro ⟨-, hkept⟩ duty hduty
            cases hkept duty hduty
          · intro hnone
            refine ⟨fun duty hlive => ?_, fun duty hduty => absurd hduty (hnone duty)⟩
            rw [Crew.isLive_cancel_of_ne, Crew.isLive_release]
            · exact hlive
            · intro heq
              exact hnone badge.duty (by rw [hbadge, ← heq])
  | join badge rest =>
      cases hruns : x.crew.runs badge with
      | true =>
          simp only [advance, Stopping.advance, hruns, if_true]
          have hsame : x.Inert { x with crew := x.crew } := .refl x
          cases rest with
          | nil => simp [Stopping.IsHarmless, hruns, hsame]
          | cons next rest => simp [Stopping.IsHarmless, hruns, hsame]
      | false =>
          simp only [advance, Stopping.advance, hruns, Bool.false_eq_true, if_false]
          cases rest with
          | nil =>
              simp only [Stopping.next, Stopping.IsHarmless, hruns, true_implies]
              exact inert_clear_iff _ x.crew (fun _ => rfl) fun _ => rfl
          | cons next rest =>
              simp only [Stopping.next, Stopping.IsHarmless, hruns, true_implies]
              rw [inert_crew_iff]
              constructor
              · rintro ⟨hlive, -⟩ hgeneration
                by_contra hnext
                have hbefore : x.crew.isLive ⟨next.duty, x.generation⟩ = true := by
                  rw [← hgeneration]
                  exact Bool.not_eq_false _ ▸ hnext
                have hafter := hlive next.duty hbefore
                rw [← hgeneration, Crew.isLive_cancel_self] at hafter
                cases hafter
              · intro hnext
                refine ⟨fun duty hlive => ?_, fun _ hkept => hkept⟩
                rw [Crew.isLive_cancel_of_ne]
                · exact hlive
                · intro heq
                  have hdead := hnext (by rw [← heq])
                  rw [← heq, hlive] at hdead
                  cases hdead

theorem inert_openSocket (h : attempt.generation < x.generation) :
    x.Inert ((openSocket attempt).advance net x).2 := by
  obtain ⟨entropy, hopened⟩ :=
    Client.openSocket_snd net x.client attempt.host attempt.port
  have hinert : x.Inert { x with client := { x.client with entropy } } :=
    ⟨rfl, rfl, rfl, rfl, rfl, rfl, fun _ hlive => hlive, fun _ hkept => hkept⟩
  simp only [advance]
  generalize x.client.openSocket net attempt.host attempt.port = outcome at hopened ⊢
  obtain ⟨failure | ⟨remote, pair⟩, client⟩ := outcome
  · cases hopened
    have hsame := Client.failAttempt_of_overtaken (c := { x.client with entropy }) h
    dsimp only
    rw [hsame]
    exact hinert
  · cases hopened
    exact hinert

theorem inert_sendRequest_iff (h : attempt.generation < x.generation) (remote : Address)
    (pair : Option KeyPair) :
    x.Inert ((sendRequest attempt remote pair).advance net x).2 ↔
      x.client.isCarried net remote (Client.request (pair.map KeyPair.publicKey) none) = false := by
  cases hcarried :
      x.client.isCarried net remote (Client.request (pair.map KeyPair.publicKey) none) with
  | true =>
      have hpublish := Client.publish_of_overtaken (c := x.client.noteSent remote
        (Client.request (pair.map KeyPair.publicKey) none)) h remote pair
      simp only [advance, Client.sendRequest, hcarried, if_true, hpublish, reduceCtorEq, iff_false]
      intro hinert
      have hdatagrams := hinert.datagrams
      rw [Client.datagrams_noteSent] at hdatagrams
      simp at hdatagrams
  | false =>
      simp only [advance, Client.sendRequest, hcarried, Bool.false_eq_true, if_false, iff_true]
      rw [Client.failAttempt_of_overtaken h]
      exact .refl x

/-- The next part of a call whose attempt was overtaken does nothing to the newer link exactly if
it is harmless. -/
theorem inert_iff (net : Network) {call : Call} (hcall : call.attempt? = some attempt)
    (h : attempt.generation < x.generation) :
    x.Inert (call.advance net x).2 ↔ call.IsHarmless net x := by
  cases call with
  | stopWorkers a stopping =>
      cases hcall
      exact inert_stopWorkers_iff net attempt stopping
  | keepRetryWorker a =>
      cases hcall
      exact inert_keep_iff h .retry
        ⟨rfl, rfl, rfl, rfl, rfl, rfl, fun _ hlive => hlive, fun _ hkept => hkept⟩
  | openSocket a =>
      cases hcall
      exact iff_of_true (inert_openSocket h) trivial
  | sendRequest a remote pair =>
      cases hcall
      exact inert_sendRequest_iff h remote pair
  | keepPollWorker a =>
      cases hcall
      exact inert_keep_iff h .poll
        ⟨rfl, rfl, rfl, rfl, rfl, rfl, fun _ hlive => hlive, fun _ hkept => hkept⟩
  | begin host port isRetry => cases hcall
  | overtake => cases hcall
  | stopBothWorkers stopping => cases hcall

/-- What a part of an overtaken attempt leaves alone in any case. -/
structure Outdated (x : Station) (attempt : Attempt) (outcome : Progress × Station) : Prop where
  link : outcome.2.client.link = x.client.link
  reconnects : outcome.2.client.workers.reconnects = x.client.workers.reconnects
  opener : outcome.2.opener = x.opener
  events : outcome.2.client.events = x.client.events
  kept : ∀ duty, outcome.2.crew.kept duty = x.crew.kept duty ∨ outcome.2.crew.kept duty = none ∨
    outcome.2.crew.kept duty = some attempt.generation
  attempt : ∀ next, outcome.1 = .paused next → next.attempt? = some attempt

/-- Going on with stopping the workers keeps none that was not kept. -/
theorem kept_advance (crew : Crew) (stopping : Stopping) (duty : Duty) :
    (stopping.advance crew).2.kept duty = crew.kept duty ∨
      (stopping.advance crew).2.kept duty = none := by
  cases stopping with
  | lock =>
      right
      simp only [Stopping.advance]
      cases crew.keptBadges with
      | nil => rfl
      | cons badge rest => rfl
  | join badge rest =>
      left
      simp only [Stopping.advance]
      split
      · rfl
      · cases rest with
        | nil => rfl
        | cons next rest => rfl

theorem outdated_stopWorkers (net : Network) (x : Station) (attempt : Attempt)
    (stopping : Stopping) :
    Outdated x attempt ((stopWorkers attempt stopping).advance net x) := by
  have hkept := kept_advance x.crew stopping
  simp only [advance]
  generalize stopping.advance x.crew = outcome at hkept ⊢
  obtain ⟨_ | next, crew⟩ := outcome
  · refine ⟨rfl, rfl, rfl, Client.events_count _ _, fun duty => ?_, fun next h => by cases h; rfl⟩
    exact (hkept duty).imp_right Or.inl
  · refine ⟨rfl, rfl, rfl, rfl, fun duty => ?_, fun next h => by cases h; rfl⟩
    exact (hkept duty).imp_right Or.inl

theorem kept_keep_cases (crew : Crew) (badge : Badge) (duty : Duty) :
    (crew.keep badge).kept duty = crew.kept duty ∨
      (crew.keep badge).kept duty = none ∨
        (crew.keep badge).kept duty = some badge.generation := by
  rw [Crew.kept_keep]
  split
  · exact Or.inr (Or.inr rfl)
  · exact Or.inl rfl

theorem outdated_openSocket (h : attempt.generation < x.generation) :
    Outdated x attempt ((openSocket attempt).advance net x) := by
  obtain ⟨entropy, hopened⟩ := Client.openSocket_snd net x.client attempt.host attempt.port
  simp only [advance]
  generalize x.client.openSocket net attempt.host attempt.port = outcome at hopened ⊢
  obtain ⟨failure | ⟨remote, pair⟩, client⟩ := outcome
  · cases hopened
    have hsame := Client.failAttempt_of_overtaken (c := { x.client with entropy }) h
    dsimp only
    rw [hsame]
    exact ⟨rfl, rfl, rfl, rfl, fun _ => Or.inl rfl, fun next h => by cases h⟩
  · cases hopened
    exact ⟨rfl, rfl, rfl, rfl, fun _ => Or.inl rfl, fun next h => by cases h; rfl⟩

theorem outdated_sendRequest (h : attempt.generation < x.generation) (remote : Address)
    (pair : Option KeyPair) :
    Outdated x attempt ((sendRequest attempt remote pair).advance net x) := by
  simp only [advance, Client.sendRequest]
  split
  · rename_i failure client heq
    split at heq
    · cases heq
    · cases heq
      rw [Client.failAttempt_of_overtaken h]
      exact ⟨rfl, rfl, rfl, rfl, fun _ => Or.inl rfl, fun next h => by cases h⟩
  · rename_i client heq
    split at heq
    · cases heq
      rw [Client.publish_of_overtaken (c := x.client.noteSent remote _) h]
      exact ⟨rfl, rfl, rfl, Client.events_noteSent _ _ _, fun _ => Or.inl rfl,
        fun next h => by cases h⟩
    · cases heq

theorem advance_of_overtaken (net : Network) {call : Call} (hcall : call.attempt? = some attempt)
    (h : attempt.generation < x.generation) : Outdated x attempt (call.advance net x) := by
  cases call with
  | stopWorkers a stopping =>
      cases hcall
      exact outdated_stopWorkers net x attempt stopping
  | keepRetryWorker a =>
      cases hcall
      exact ⟨rfl, rfl, rfl, rfl, kept_keep_cases x.crew _, fun next h => by cases h; rfl⟩
  | openSocket a =>
      cases hcall
      exact outdated_openSocket h
  | sendRequest a remote pair =>
      cases hcall
      exact outdated_sendRequest h remote pair
  | keepPollWorker a =>
      cases hcall
      exact ⟨rfl, rfl, rfl, rfl, kept_keep_cases x.crew _, fun next h => by cases h⟩
  | begin host port isRetry => cases hcall
  | overtake => cases hcall
  | stopBothWorkers stopping => cases hcall

end Call

end OvertakenAttempt

end GameLink
