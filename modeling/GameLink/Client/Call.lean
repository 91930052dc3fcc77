import GameLink.Client.Crew
import GameLink.Client.Run

/-!
# Calls in parts

Connecting and disconnecting consist of parts.  A call may pause between two parts, and
others go on meanwhile: other calls, the workers, the network.

**Parts.** A call under way is named for the part that comes next.  What it needs later
it carries along: the attempt it began, the address and keys it found.  A part that waits
for a worker to end is taken again until it has ended.

**Results.** A call that is never paused, on a client that keeps no worker, does what the
whole call does (`finish_begin`, `finish_overtake`).
-/

namespace GameLink

/-- An attempt as the call that began it knows it. -/
structure Attempt where
  host : String
  port : UInt16
  generation : Nat
deriving DecidableEq, Repr

/-- A call under way, named for the part that comes next. -/
inductive Call
  | begin (host : String) (port : UInt16) (isRetry : Bool)
  | stopWorkers (attempt : Attempt) (stopping : Stopping)
  | keepRetryWorker (attempt : Attempt)
  | openSocket (attempt : Attempt)
  | sendRequest (attempt : Attempt) (remote : Address) (pair : Option KeyPair)
  | keepPollWorker (attempt : Attempt)
  /-- The first part of disconnecting. -/
  | overtake
  | stopBothWorkers (stopping : Stopping)
deriving DecidableEq

/-- How far a call has come. -/
inductive Progress
  | paused (next : Call)
  | returned (result : Except Failure Unit)

/-- Whether a call has returned. -/
def Progress.isOver : Progress → Bool
  | .paused _ => false
  | .returned _ => true

/-- A client with its workers as tasks. -/
structure Station where
  client : Client
  crew : Crew := {}
  /-- The attempt that opened the socket, if there is one. -/
  opener : Nat := 0

namespace Call

/-- Takes the next part of a call. -/
def advance (net : Network) (x : Station) : Call → Progress × Station
  | .begin host port isRetry =>
      if x.client.link.mayBegin isRetry then
        let link := x.client.link.begin host port isRetry x.client.now
        (.paused (.stopWorkers ⟨host, port, link.generation⟩ .lock),
          { x with client := { x.client with link } })
      else
        (.returned (.error (.invalidState .attemptInProgress)), x)
  | .stopWorkers attempt stopping =>
      match stopping.advance x.crew with
      | (some stopping, crew) => (.paused (.stopWorkers attempt stopping), { x with crew })
      | (none, crew) =>
          (.paused (.keepRetryWorker attempt),
            { x with
              client := x.client.stopWorkers.clear.count .connectAttempt
              crew := crew.start ⟨.retry, attempt.generation⟩ })
  | .keepRetryWorker attempt =>
      (.paused (.openSocket attempt),
        { x with
          client := x.client.startRetryWorker
          crew := x.crew.keep ⟨.retry, attempt.generation⟩ })
  | .openSocket attempt =>
      match x.client.openSocket net attempt.host attempt.port with
      | (.error failure, client) =>
          (.returned (.error failure),
            { x with client := client.failAttempt attempt.generation })
      | (.ok (remote, pair), client) =>
          (.paused (.sendRequest attempt remote pair), { x with client })
  | .sendRequest attempt remote pair =>
      match x.client.sendRequest net remote pair with
      | (.error failure, client) =>
          (.returned (.error failure),
            { x with client := client.failAttempt attempt.generation })
      | (.ok (), client) =>
          match client.publish attempt.generation remote pair with
          | some client =>
              (.paused (.keepPollWorker attempt),
                { client
                  crew := x.crew.start ⟨.poll, attempt.generation⟩
                  opener := attempt.generation })
          | none => (.returned (.ok ()), { x with client })
  | .keepPollWorker attempt =>
      (.returned (.ok ()),
        { x with
          client := x.client.startPollWorker
          crew := x.crew.keep ⟨.poll, attempt.generation⟩ })
  | .overtake => (.paused (.stopBothWorkers .lock), { x with client := x.client.overtake })
  | .stopBothWorkers stopping =>
      match stopping.advance x.crew with
      | (some stopping, crew) => (.paused (.stopBothWorkers stopping), { x with crew })
      | (none, crew) =>
          (.returned (.ok ()),
            { x with client := x.client.stopWorkers.dropLink.forgetAttempts, crew })

/-- The attempt that a call began. -/
def attempt? : Call → Option Attempt
  | .stopWorkers attempt _ | .keepRetryWorker attempt | .openSocket attempt
  | .sendRequest attempt _ _ | .keepPollWorker attempt => some attempt
  | .begin .. | .overtake | .stopBothWorkers _ => none

/-- Takes a number of parts of a call without a pause. -/
def advanceBy (net : Network) : Nat → Station → Call → Progress × Station
  | 0, x, call => (.paused call, x)
  | n + 1, x, call =>
      match call.advance net x with
      | (.paused next, x) => advanceBy net n x next
      | (.returned result, x) => (.returned result, x)

/-- Takes all parts of a call without a pause, if no worker is waited for. -/
def finish (net : Network) (x : Station) (call : Call) : Progress × Station :=
  advanceBy net 6 x call

/-- After a part that leaves more to do, the rest of the parts are taken. -/
theorem advanceBy_paused {net : Network} {x x' : Station} {call next : Call}
    (h : call.advance net x = (.paused next, x')) (n : Nat) :
    advanceBy net (n + 1) x call = advanceBy net n x' next := by
  simp only [advanceBy, h]

variable {x : Station}

theorem advance_lock (hkept : x.crew.keptBadges = []) :
    Stopping.lock.advance x.crew = (none, x.crew.release) := by
  simp only [Stopping.advance, hkept, Stopping.next]

/-- Connecting without a pause is a whole attempt. -/
theorem finish_begin (net : Network) (hkept : x.crew.keptBadges = []) (host : String)
    (port : UInt16) (isRetry : Bool) :
    ∃ x', finish net x (.begin host port isRetry) =
        (.returned (x.client.attempt net host port isRetry).1, x') ∧
      x'.client = (x.client.attempt net host port isRetry).2 := by
  unfold finish Client.attempt
  by_cases hmay : x.client.link.mayBegin isRetry
  · have hbegin : ∃ crew,
        advanceBy net 6 x (.begin host port isRetry) =
          advanceBy net 3 { x with client := x.client.beginAttempt host port isRetry, crew }
            (.openSocket
              ⟨host, port, (x.client.beginAttempt host port isRetry).link.generation⟩) := by
      constructor
      rw [advanceBy_paused (by simp only [advance, hmay, if_true]; rfl),
        advanceBy_paused (by simp only [advance, advance_lock hkept]; rfl)]
      rfl
    obtain ⟨crew, hbegin⟩ := hbegin
    rw [if_pos hmay, hbegin]
    generalize x.client.beginAttempt host port isRetry = started
    rcases hopen : started.openSocket net host port with
      ⟨failure | ⟨remote, pair⟩, opened⟩
    · simp only [advanceBy, advance, hopen]
      exact ⟨_, rfl, rfl⟩
    · rw [advanceBy_paused (by simp only [advance, hopen]; rfl)]
      simp only [hopen]
      rcases hsend : opened.sendRequest net remote pair with ⟨failure | ⟨⟩, sent⟩
      · simp only [advanceBy, advance, hsend]
        exact ⟨_, rfl, rfl⟩
      · cases hpublish : sent.publish started.link.generation remote pair with
        | none =>
            simp only [advanceBy, advance, hsend, hpublish]
            exact ⟨_, rfl, rfl⟩
        | some published =>
            simp only [advanceBy, advance, hsend, hpublish]
            exact ⟨_, rfl, rfl⟩
  · exact ⟨x, by simp [advanceBy, advance, hmay], by simp [hmay]⟩

/-- Disconnecting without a pause is the whole of it. -/
theorem finish_overtake (net : Network) (hkept : x.crew.keptBadges = []) :
    ∃ x', finish net x .overtake = (.returned (.ok ()), x') ∧
      x'.client = x.client.disconnect := by
  simp only [finish, advanceBy, advance, advance_lock (x := { x with client := _ }) hkept]
  exact ⟨_, rfl, rfl⟩

end Call
end GameLink
