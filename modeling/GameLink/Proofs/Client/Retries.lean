import GameLink.Proofs.Client.Trail

/-!
# Retries

A turn of the retry worker decides on a retry, and the retry is made by itself, later.  In between
the application may connect, disconnect or change the settings, and datagrams may arrive.  Each call,
retry, turn and datagram is one step here; nothing else happens within it.

**Decisions.** A retry is issued by the decision on it; the count of retries counts decisions.
One that is still to be made is taken before it begins, so that no decision makes for two.  A retry
that is still to be made looks only at whether the link has failed, not at which failure it is.

**Results.**
* `Client.Retrying.follows`: target, count of retries and retries to be made, from one passage to
  the next.
* `Client.Failing.follows`: since when a link has failed.
* `Trail.ended`: a link that was given up sends nothing until the application connects.
* `retry_discipline`: which retries a run makes, when, and where to.
* `early_retry`: a retry that follows a newer failure at once.
-/

namespace GameLink

open Client

section Decisions

namespace Passage

/-- Whether an attempt begins by itself. -/
def isRetry (p : Passage) : Bool :=
  p.occasion = .beginning true

/-- Whether the application begins an attempt or ends the link. -/
def restarts (p : Passage) : Bool :=
  p.occasion = .beginning false ∨ p.occasion = .ending

/-- Whether the retry worker decides on a retry. -/
def decides (p : Passage) : Bool :=
  p.occasion = .timer ∧ p.before.workers.reconnects < p.after.workers.reconnects

end Passage

/-- Host and port of the attempt that began last. -/
def lastTarget (ps : List Passage) : Option (String × UInt16) :=
  (ps.reverse.find? fun p => p.occasion.begins).bind fun p => p.after.link.target

/-- How many retries were decided on since the application last connected or disconnected. -/
def retriesIssued (ps : List Passage) : Nat :=
  (ps.reverse.takeWhile fun p => !p.restarts).countP Passage.decides

theorem lastTarget_append_singleton (ps : List Passage) (p : Passage) :
    lastTarget (ps ++ [p]) =
      if p.occasion.begins then p.after.link.target else lastTarget ps := by
  rw [lastTarget, List.reverse_append, List.reverse_singleton, List.singleton_append,
    List.find?_cons]
  cases p.occasion.begins with
  | true => rfl
  | false => rfl

theorem retriesIssued_append_singleton (ps : List Passage) (p : Passage) :
    retriesIssued (ps ++ [p]) =
      if p.restarts then 0 else retriesIssued ps + if p.decides then 1 else 0 := by
  rw [retriesIssued, List.reverse_append, List.reverse_singleton, List.singleton_append,
    List.takeWhile_cons]
  cases p.restarts with
  | true => rfl
  | false => exact List.countP_cons

end Decisions

section Links

/-- What a turn of the retry worker finds and does when it decides on a retry. -/
structure Client.Decides (c c' : Client) : Prop where
  failed : c.link.status = .connectionFailed
  enabled : c.link.retryEnabled = true
  late : c.link.retryInterval ≤ c.link.phaseStarted.since c.now
  stays : c'.link.status = .connectionFailed
  phase : c'.link.phaseStarted = c.now
  now : c'.now = c.now
  target : c'.link.target = c.link.target
  retryCount : c'.link.retryCount = c.link.retryCount + 1
  reconnects : c'.workers.reconnects = c.workers.reconnects + 1

/-- Target, count of retries and retries that were decided on stay as they are. -/
structure Client.Steady (c c' : Client) : Prop where
  target : c'.link.target = c.link.target
  retryCount : c'.link.retryCount = c.link.retryCount
  reconnects : c'.workers.reconnects = c.workers.reconnects

/-- All that can become of a link while no attempt begins, the application does not end it and no
retry is decided on. -/
inductive Client.Goes (c c' : Client) : Prop
  | stays (hsteady : Steady c c') (hstatus : c'.link.status = c.link.status)
      (hphase : c'.link.phaseStarted = c.link.phaseStarted) (hnow : c.now ≤ c'.now)
  /-- An attempt gets its answer, or fails. -/
  | settles (hsteady : Steady c c') (hwaiting : c.link.status = .connecting)
      (hphase : c'.link.phaseStarted = c.now) (hnow : c'.now = c.now)
  | drops (hsteady : Steady c c') (hended : c'.link.status = .disconnected)
      (hphase : c'.link.phaseStarted = c.now) (hnow : c'.now = c.now)

namespace Client

variable {c c' : Client}

theorem le_of_now_eq (h : c'.now = c.now) : c.now ≤ c'.now :=
  Nat.le_of_eq (congrArg Duration.nanoseconds h.symm)

theorem Goes.steady (h : Goes c c') : Steady c c' := by
  cases h with
  | stays hsteady | settles hsteady | drops hsteady => exact hsteady

theorem Asks.goes (h : Asks c c') (hwaiting : c.link.status = .connecting) : Goes c c' := by
  rcases h.outcome with ⟨hlink, -⟩ | ⟨remote, pair, hlink, -⟩
  · refine .settles ⟨?_, ?_, h.reconnects⟩ hwaiting ?_ h.now <;> rw [hlink] <;> rfl
  · refine .stays ⟨?_, ?_, h.reconnects⟩ ?_ ?_ (le_of_now_eq h.now) <;> rw [hlink]

theorem Hears.goes (h : Hears c c') : Goes c c' := by
  have hlink := h.link
  have hreconnects := congrArg Workers.reconnects h.workers
  generalize hl : c'.link = link at hlink
  cases hlink with
  | heard | cookie =>
      refine .stays ⟨?_, ?_, hreconnects⟩ ?_ ?_ (le_of_now_eq h.now) <;> rw [hl]
  | settled lastActivity hwaiting =>
      refine .settles ⟨?_, ?_, hreconnects⟩ hwaiting ?_ h.now <;> rw [hl] <;> rfl
  | dropped => refine .drops ⟨?_, ?_, hreconnects⟩ ?_ ?_ h.now <;> rw [hl] <;> rfl

theorem Ticks.decides_or_goes (h : Ticks c c') : Decides c c' ∨ Goes c c' := by
  cases h with
  | decided hfailed henabled hlate =>
      exact Or.inl ⟨hfailed, henabled, hlate, hfailed, rfl, rfl, rfl, rfl, rfl⟩
  | timedOut hwaiting => exact Or.inr (.settles ⟨rfl, rfl, rfl⟩ hwaiting rfl rfl)
  | resting | waited | stopped =>
      exact Or.inr (.stays ⟨rfl, rfl, rfl⟩ rfl rfl (Nat.le_refl _))

theorem Runs.goes (h : Runs c c') : Goes c c' := by
  have hreconnects := congrArg Workers.reconnects h.workers
  obtain ⟨_, _, _, hlink⟩ := h.link
  refine .stays ⟨?_, ?_, hreconnects⟩ ?_ ?_ h.now <;> rw [hlink]

end Client

/-- All that a passage can do to a link. -/
inductive Passage.Goes : Passage → Prop
  | begins (c : Client) (host : String) (port : UInt16) (isRetry : Bool) :
      Goes ⟨c, .beginning isRetry, c.beginAttempt host port isRetry⟩
  | ends (c : Client) : Goes ⟨c, .ending, c.disconnect⟩
  | decides {c c' : Client} (h : c.Decides c') : Goes ⟨c, .timer, c'⟩
  | goesOn {p : Passage} (hkept : p.restarts = false) (h : p.before.Goes p.after) : Goes p

theorem Passage.Arises.goes {p : Passage} (h : p.Arises) : p.Goes := by
  cases h with
  | beginning => exact .begins ..
  | ending c => exact .ends c
  | timer c =>
      rcases (ticks_retryTurn c).decides_or_goes with hdecides | hgoes
      · exact .decides hdecides
      · exact .goesOn rfl hgoes
  | asking net host port hmay => exact .goesOn rfl ((asks_attempt net host port hmay).goes rfl)
  | silence => exact .goesOn rfl (.drops ⟨rfl, rfl, rfl⟩ rfl rfl rfl)
  | datagram net remote => exact .goesOn rfl (hears_handleDatagram net _ remote _).goes
  | errand net _ errand => exact .goesOn rfl (runs_errand net _ errand).goes
  | delivery => exact .goesOn rfl (.stays ⟨rfl, rfl, rfl⟩ rfl rfl (Nat.le_refl _))

end Links

section RetryCount

/-- What a passage does to the target, to the count of retries and to the retries that were
decided on. -/
structure Passage.Retried (p : Passage) : Prop where
  target : p.occasion.begins = false → p.after.link.target = p.before.link.target
  retryCount : p.after.link.retryCount =
    if p.restarts then 0 else p.before.link.retryCount + if p.decides then 1 else 0
  reconnects : p.after.workers.reconnects =
    p.before.workers.reconnects + if p.decides then 1 else 0

namespace Passage

variable {p : Passage}

theorem Retried.of_steady (h : p.before.Steady p.after) (hkept : p.restarts = false) :
    p.Retried := by
  have hnone : p.decides = false := by simp [decides, h.reconnects]
  refine ⟨fun _ => h.target, ?_, ?_⟩
  · rw [hkept, hnone]
    exact h.retryCount.trans (UInt32.add_zero _).symm
  · rw [hnone]
    exact h.reconnects

theorem Retried.of_decides (h : p.before.Decides p.after) (hoccasion : p.occasion = .timer) :
    p.Retried := by
  have hone : p.decides = true := by simp [decides, hoccasion, h.reconnects]
  have hkept : p.restarts = false := by simp [restarts, hoccasion]
  refine ⟨fun _ => h.target, ?_, ?_⟩
  · rw [hkept, hone]
    exact h.retryCount
  · rw [hone]
    exact h.reconnects

theorem Arises.retried (h : p.Arises) : p.Retried := by
  cases h.goes with
  | begins _ _ _ isRetry =>
      cases isRetry with
      | false => exact ⟨nofun, rfl, rfl⟩
      | true => exact ⟨nofun, (UInt32.add_zero _).symm, rfl⟩
  | ends => exact ⟨fun _ => rfl, rfl, rfl⟩
  | decides hdecides => exact .of_decides hdecides rfl
  | goesOn hkept hgoes => exact .of_steady hgoes.steady hkept

/-- A decision is one of the retry worker, which finds a link that has failed. -/
theorem Arises.decides (h : p.Arises) (hdecides : p.decides = true) :
    p.before.Decides p.after := by
  obtain ⟨htimer, hmore⟩ := of_decide_eq_true hdecides
  cases h.goes with
  | begins | ends => cases htimer
  | decides hfound => exact hfound
  | goesOn _ hgoes => exact absurd hmore (Nat.not_lt_of_le (Nat.le_of_eq hgoes.steady.reconnects))

end Passage

/-- What holds of target, retries and their count, after the passages so far. -/
structure Client.Retrying (ps : List Passage) (c : Client) : Prop where
  /-- Each retry was decided on. -/
  taken : ps.countP Passage.isRetry + c.workers.reconnects ≤ ps.countP Passage.decides
  target : c.link.target = lastTarget ps
  count : c.link.retryCount = .ofNat (retriesIssued ps)

namespace Client.Retrying

variable {ps : List Passage} {c c' : Client} {p : Passage}

theorem hands (h : c.Retrying ps) (hhands : c.Hands c') : Retrying ps c' where
  taken := (Nat.add_le_add_left hhands.reconnects _).trans h.taken
  target := by
    rw [hhands.link]
    exact h.target
  count := by
    rw [hhands.link]
    exact h.count

theorem follows (h : c.Retrying ps) (hp : p.Follows c) : Retrying (ps ++ [p]) p.after := by
  have hbefore := h.hands hp.hands
  have hretried := hp.arises.retried
  refine ⟨?_, ?_, ?_⟩
  · -- a retry was taken before it begins, so that one less is left
    have htook : p.before.workers.reconnects + (if p.isRetry then 1 else 0) ≤
        c.workers.reconnects := by
      split
      · rename_i hretry
        exact hp.taken (of_decide_eq_true hretry)
      · exact hp.hands.reconnects
    have hearlier := h.taken
    rw [List.countP_append, List.countP_singleton, List.countP_append, List.countP_singleton,
      hretried.reconnects]
    omega
  · rw [lastTarget_append_singleton]
    split
    · rfl
    · rename_i hlater
      exact (hretried.target (by simpa using hlater)).trans hbefore.target
  · rw [retriesIssued_append_singleton, hretried.retryCount, hbefore.count]
    cases p.restarts with
    | true => rfl
    | false => cases p.decides <;> simp

end Client.Retrying

end RetryCount

section FailingSince

/-- A passage by which a link failed that has not begun again since. -/
def FailedBy (ps : List Passage) (f : Passage) : Prop :=
  f.before.link.status ≠ .connectionFailed ∧
    ∃ early late, ps = early ++ f :: late ∧
      ∀ q ∈ f :: late, q.after.link.status = .connectionFailed

namespace FailedBy

variable {ps : List Passage} {p f : Passage}

theorem last (hbefore : p.before.link.status ≠ .connectionFailed)
    (hafter : p.after.link.status = .connectionFailed) : FailedBy (ps ++ [p]) p :=
  ⟨hbefore, ps, [], rfl, by simpa using hafter⟩

theorem append {qs : List Passage} (h : FailedBy ps f)
    (hafter : ∀ q ∈ qs, q.after.link.status = .connectionFailed) : FailedBy (ps ++ qs) f := by
  obtain ⟨hbefore, early, late, rfl, hsince⟩ := h
  refine ⟨hbefore, early, late ++ qs, by simp, fun q hq => ?_⟩
  rw [← List.cons_append, List.mem_append] at hq
  exact hq.elim (hsince q) (hafter q)

/-- The link failed after each passage that left it in another state. -/
theorem mem_of_split {early late : List Passage} (h : FailedBy (early ++ p :: late) f)
    (hother : p.after.link.status ≠ .connectionFailed) : f ∈ late := by
  obtain ⟨-, front, back, heq, hsince⟩ := h
  rcases List.append_eq_append_iff.mp heq with ⟨_ | ⟨q, between⟩, -, hrest⟩ | ⟨between, -, hrest⟩
  · obtain ⟨rfl, -⟩ := List.cons_eq_cons.mp hrest
    exact absurd (hsince _ List.mem_cons_self) hother
  · obtain ⟨-, rfl⟩ := List.cons_eq_cons.mp hrest
    exact List.mem_append_right _ List.mem_cons_self
  · exact absurd (hsince p (hrest ▸ List.mem_append_right _ List.mem_cons_self)) hother

end FailedBy

/-- How the clock of a failed link goes on: it is set when the link fails, and is never set
back. -/
structure Client.Ages (c c' : Client) : Prop where
  past : c'.link.phaseStarted ≤ c'.now
  fails : c.link.status ≠ .connectionFailed → c'.link.status = .connectionFailed →
    c'.now ≤ c'.link.phaseStarted
  onward : c.link.status = .connectionFailed → c'.link.status = .connectionFailed →
    c.link.phaseStarted ≤ c'.link.phaseStarted

namespace Client

variable {c c' : Client}

namespace Ages

theorem of_kept (hpast : c.link.phaseStarted ≤ c.now) (hnow : c.now ≤ c'.now)
    (hstatus : c'.link.status = c.link.status)
    (hphase : c'.link.phaseStarted = c.link.phaseStarted) : Ages c c' where
  past := by
    rw [hphase]
    exact Nat.le_trans hpast hnow
  fails hbefore hafter := absurd (hstatus.symm.trans hafter) hbefore
  onward _ _ := Nat.le_of_eq (congrArg Duration.nanoseconds hphase.symm)

theorem of_set (hpast : c.link.phaseStarted ≤ c.now) (hnow : c'.now = c.now)
    (hphase : c'.link.phaseStarted = c.now) : Ages c c' where
  past := Nat.le_of_eq (congrArg Duration.nanoseconds (hphase.trans hnow.symm))
  fails _ _ := Nat.le_of_eq (congrArg Duration.nanoseconds (hnow.trans hphase.symm))
  onward _ _ := by
    rw [hphase]
    exact hpast

end Ages

theorem Goes.ages (h : Goes c c') (hpast : c.link.phaseStarted ≤ c.now) : Ages c c' := by
  cases h with
  | stays _ hstatus hphase hnow => exact .of_kept hpast hnow hstatus hphase
  | settles _ _ hphase hnow | drops _ _ hphase hnow => exact .of_set hpast hnow hphase

end Client

theorem Passage.Arises.ages {p : Passage} (h : p.Arises)
    (hpast : p.before.link.phaseStarted ≤ p.before.now) : p.before.Ages p.after := by
  cases h.goes with
  | begins | ends => exact .of_set hpast rfl rfl
  | decides hdecides => exact .of_set hpast hdecides.now hdecides.phase
  | goesOn _ hgoes => exact hgoes.ages hpast

/-- A link that has failed did so by a passage, and its clock counts from there, or later. -/
structure Client.Failing (ps : List Passage) (c : Client) : Prop where
  past : c.link.phaseStarted ≤ c.now
  since : c.link.status = .connectionFailed →
    ∃ f, FailedBy ps f ∧ f.after.now ≤ c.link.phaseStarted

namespace Client.Failing

variable {ps : List Passage} {c c' : Client} {p : Passage}

theorem hands (h : c.Failing ps) (hhands : c.Hands c') : Failing ps c' where
  past := by
    rw [hhands.link, hhands.now]
    exact h.past
  since := by
    rw [hhands.link]
    exact h.since

theorem follows (h : c.Failing ps) (hp : p.Follows c) : Failing (ps ++ [p]) p.after := by
  have hbefore := h.hands hp.hands
  have hages := hp.arises.ages hbefore.past
  refine ⟨hages.past, fun hafter => ?_⟩
  by_cases hfailed : p.before.link.status = .connectionFailed
  · obtain ⟨f, hby, hstart⟩ := hbefore.since hfailed
    exact ⟨f, hby.append (by simpa using hafter), Nat.le_trans hstart (hages.onward hfailed hafter)⟩
  · exact ⟨p, .last hfailed hafter, hages.fails hfailed hafter⟩

end Client.Failing

end FailingSince

section GivenUp

namespace Client

variable {c c' : Client}

/-- A link that waits for no answer and is not up stays so: it has failed or was given up, and
one that was given up does not fail. -/
structure Idles (c c' : Client) : Prop where
  failed : c.link.status = .connectionFailed →
    c'.link.status = .connectionFailed ∨ c'.link.status = .disconnected
  ended : c.link.status = .disconnected → c'.link.status = .disconnected

theorem Idles.of_kept (h : c'.link.status = c.link.status) : Idles c c' where
  failed hfailed := Or.inl (h.trans hfailed)
  ended := h.trans

theorem Idles.of_ended (h : c'.link.status = .disconnected) : Idles c c' where
  failed _ := Or.inr h
  ended _ := h

theorem Idles.of_waiting (hwaiting : c.link.status = .connecting) : Idles c c' where
  failed hfailed := by cases hwaiting.symm.trans hfailed
  ended hended := by cases hwaiting.symm.trans hended

theorem Goes.idles (h : Goes c c') : Idles c c' := by
  cases h with
  | stays _ hstatus => exact .of_kept hstatus
  | settles _ hwaiting => exact .of_waiting hwaiting
  | drops _ hended => exact .of_ended hended

end Client

namespace Passage.Arises

variable {p : Passage}

theorem idles (h : p.Arises) (hlater : p.occasion.begins = false) : p.before.Idles p.after := by
  cases h.goes with
  | begins => cases hlater
  | ends => exact .of_ended rfl
  | decides hdecides => exact .of_kept (hdecides.stays.trans hdecides.failed.symm)
  | goesOn _ hgoes => exact hgoes.idles

/-- A link that was given up sends nothing and stays so until the application connects. -/
theorem ended (h : p.Arises) (hended : p.before.link.status = .disconnected)
    (hother : p.occasion ≠ .beginning false) :
    p.occasion ≠ .beginning true ∧ p.datagrams = [] ∧ p.after.link.status = .disconnected := by
  have hnothing (hsame : p.after.datagrams = p.before.datagrams) : p.datagrams = [] :=
    p.datagrams_of_append (hsame.trans (List.append_nil _).symm)
  have hlater : p.occasion.begins = false := by
    cases h with
    | @beginning _ _ _ isRetry hmay =>
        cases isRetry with
        | false => exact absurd rfl hother
        | true => cases hended.symm.trans (of_decide_eq_true hmay)
    | _ => rfl
  refine ⟨fun hretry => ?_, ?_, (h.idles hlater).ended hended⟩
  · rw [hretry] at hlater
    cases hlater
  · cases h with
    | beginning => cases hlater
    | asking => cases hended
    | ending | delivery => exact hnothing rfl
    | timer c => exact hnothing (datagrams_retryTurn c)
    | silence hup => cases hended.symm.trans hup
    | datagram net remote _ hopen => exact absurd hended hopen
    | errand net hready errand =>
        obtain ⟨added, hadded, -, hnone⟩ := datagrams_errand hready net errand
        rw [hnone hended, List.append_nil] at hadded
        exact hnothing hadded

end Passage.Arises

/-- A link that was given up sends nothing until the application connects. -/
theorem Trail.ended {c c' : Client} {ps : List Passage} (h : Trail c ps c')
    (hended : c.link.status = .disconnected) (hquiet : ∀ q ∈ ps, q.occasion ≠ .beginning false) :
    (∀ q ∈ ps, q.occasion ≠ .beginning true ∧ q.datagrams = [] ∧
      q.after.link.status = .disconnected) ∧ c'.link.status = .disconnected := by
  induction h with
  | last hhands =>
      exact ⟨List.forall_mem_nil _, (congrArg Link.status hhands.link).trans hended⟩
  | next hnext _ ih =>
      rw [List.forall_mem_cons] at hquiet
      have hfirst := hnext.arises.ended
        ((congrArg Link.status hnext.hands.link).trans hended) hquiet.1
      obtain ⟨hrest, hend⟩ := ih hfirst.2.2 hquiet.2
      exact ⟨List.forall_mem_cons.mpr ⟨hfirst, hrest⟩, hend⟩

/-- A link that has failed before and has failed again has failed all the time, if no attempt
began in between. -/
theorem Trail.failed {c c' : Client} {ps : List Passage} (h : Trail c ps c')
    (hfailed : c.link.status = .connectionFailed) (hlater : ∀ q ∈ ps, q.occasion.begins = false)
    (hend : c'.link.status = .connectionFailed) :
    ∀ q ∈ ps, q.after.link.status = .connectionFailed := by
  induction h with
  | last => exact List.forall_mem_nil _
  | next hnext hrest ih =>
      rw [List.forall_mem_cons] at hlater
      have hidles := hnext.arises.idles hlater.1
      rcases hidles.failed ((congrArg Link.status hnext.hands.link).trans hfailed) with
        hstill | hended
      · exact List.forall_mem_cons.mpr ⟨hstill, ih hstill hlater.2 hend⟩
      · have hnever := hrest.ended hended fun q hq hbegins => by
          have hother := hlater.2 q hq
          rw [hbegins] at hother
          cases hother
        cases hend.symm.trans hnever.2

end GivenUp

section Requests

/-- The request of an attempt is the passage after its beginning. -/
def Asked : List Passage → Prop
  | [] => True
  | p :: ps =>
      (∀ isRetry, p.occasion = .beginning isRetry →
        ∃ net host port rest, p.after = p.before.beginAttempt host port isRetry ∧
          ps = ⟨p.after, .asking, (p.before.attempt net host port isRetry).2⟩ :: rest) ∧
        Asked ps

namespace Asked

variable {ps qs : List Passage}

theorem append (hps : Asked ps) (hqs : Asked qs) : Asked (ps ++ qs) := by
  induction ps with
  | nil => exact hqs
  | cons p ps ih =>
      refine ⟨fun isRetry hbegins => ?_, ih hps.2⟩
      obtain ⟨net, host, port, rest, hafter, rfl⟩ := hps.1 isRetry hbegins
      exact ⟨net, host, port, rest ++ qs, hafter, rfl⟩

theorem of_append (h : Asked (ps ++ qs)) : Asked qs := by
  induction ps with
  | nil => exact h
  | cons p ps ih => exact ih h.2

theorem of_later (hlater : ∀ p ∈ ps, p.occasion.begins = false) : Asked ps := by
  induction ps with
  | nil => trivial
  | cons p ps ih =>
      rw [List.forall_mem_cons] at hlater
      refine ⟨fun isRetry hbegins => ?_, ih hlater.2⟩
      rw [hbegins] at hlater
      cases hlater.1

end Asked

namespace Client

variable {c : Client}

theorem asked_attemptPassages (net : Network) (c : Client) (host : String) (port : UInt16)
    (isRetry : Bool) : Asked (c.attemptPassages net host port isRetry) := by
  unfold attemptPassages
  split
  · refine ⟨fun isRetry' hbegins => ?_, nofun, trivial⟩
    cases hbegins
    exact ⟨net, host, port, [], rfl, rfl⟩
  · trivial

theorem asked_pollPassages (net : Network) (c : Client) : Asked (c.pollPassages net) := by
  have hread : Asked (c.readPassages net) := by
    unfold readPassages
    split
    · trivial
    · refine .of_later fun p hp => ?_
      obtain ⟨h, -, rfl⟩ := List.mem_map.mp hp
      rfl
  unfold pollPassages lookPassages
  split
  · trivial
  · split
    · dsimp only
      split
      · exact .of_later (by simp [Occasion.begins])
      · exact hread
    · exact hread
    · trivial
    · trivial

theorem asked_actPassages (net : Network) (c : Client) (action : Action) :
    Asked (c.actPassages net action) := by
  have hone {p : Passage} (hlater : p.occasion.begins = false) : Asked [p] :=
    .of_later (by simpa using hlater)
  cases action with
  | connect host port => exact asked_attemptPassages net c host port false
  | connectConfigured => exact asked_attemptPassages net c _ _ false
  | reconnect =>
      simp only [actPassages, reconnectPassages]
      split
      · trivial
      · exact asked_attemptPassages net _ _ _ true
  | pollTurn => exact asked_pollPassages net c
  | _ => exact hone rfl

theorem asked_passages (c : Client) (actions : List (Network × Action)) :
    Asked (c.passages actions) := by
  induction actions generalizing c with
  | nil => trivial
  | cons taken rest ih =>
      obtain ⟨net, action⟩ := taken
      exact (asked_actPassages net c action).append (ih _)

end Client

end Requests

section RunRetries

/-- A decision on a retry, after the passages before it, one of which is the failure of the link:
the link has failed for long enough. -/
structure RetryDecided (before : List Passage) (f p : Passage) : Prop where
  failed : p.before.link.status = .connectionFailed
  enabled : p.before.link.retryEnabled = true
  by_failure : FailedBy before f
  late : p.before.link.retryInterval ≤ f.after.now.since p.before.now

/-- A retry was decided on for the failure that the link is in after some passages. -/
def IsDue (ps : List Passage) : Prop :=
  ∃ early d late f, ps = early ++ d :: late ∧ d.decides = true ∧ RetryDecided early f d ∧
    FailedBy ps f

/-- A retry, after the passages before it and before those after it. -/
structure RetryMade (before : List Passage) (p : Passage) (after : List Passage) : Prop where
  failed : p.before.link.status = .connectionFailed
  /-- Each retry so far was decided on. -/
  decided : (before ++ [p]).countP Passage.isRetry ≤ before.countP Passage.decides
  /-- If no attempt began since a decision, it was on a retry after this failure. -/
  due : ∀ early d late, before = early ++ d :: late → d.decides = true →
    (∀ q ∈ late, q.occasion.begins = false) → IsDue before
  /-- It goes to host and port of the attempt before it. -/
  asks : ∃ net host port rest, lastTarget before = some (host, port) ∧
    p.after = p.before.beginAttempt host port true ∧
      after = ⟨p.after, .asking, (p.before.attempt net host port true).2⟩ :: rest

namespace Client

variable {c c' : Client} {before after : List Passage} {p : Passage}

theorem Failing.decided (h : p.before.Failing before) (hp : p.Arises)
    (hdecides : p.decides = true) : ∃ f, RetryDecided before f p := by
  have hfound := hp.decides hdecides
  obtain ⟨f, hby, hstart⟩ := h.since hfound.failed
  refine ⟨f, hfound.failed, hfound.enabled, hby, ?_⟩
  exact Nat.le_trans hfound.late (Nat.sub_le_sub_left hstart p.before.now.nanoseconds)

end Client

theorem Trail.retryMade {c c' : Client} {before after : List Passage} {p : Passage}
    (h : Trail c (before ++ p :: after) c') (hbefore : p.before.Retrying before)
    (hafter : p.after.Retrying (before ++ [p])) (hasked : Asked (p :: after))
    (hdecided : ∀ early d late, before = early ++ d :: late → d.decides = true →
      ∃ f, RetryDecided early f d)
    (hretry : p.isRetry = true) : RetryMade before p after := by
  have hoccasion : p.occasion = .beginning true := of_decide_eq_true hretry
  obtain ⟨middle, hfirst, hsecond⟩ := h.of_append
  cases hsecond with
  | next hnext _ =>
      obtain ⟨host, port, isRetry, hbegins, hmay, htarget, hbegan⟩ :=
        hnext.arises.begun (by rw [hoccasion]; rfl)
      cases hoccasion.symm.trans hbegins
      have hfailed : p.before.link.status = .connectionFailed := of_decide_eq_true hmay
      refine ⟨hfailed, ?_, fun early d late heq hdecides hlater => ?_, ?_⟩
      · have htaken := hafter.taken
        have hnone : p.decides = false := by simp [Passage.decides, hoccasion]
        rw [List.countP_append (p := Passage.decides), List.countP_singleton, hnone] at htaken
        exact (Nat.le_add_right _ _).trans htaken
      · obtain ⟨f, hfound⟩ := hdecided early d late heq hdecides
        refine ⟨early, d, late, f, heq, hdecides, hfound, heq ▸ hfound.by_failure.append ?_⟩
        rw [heq] at hfirst
        obtain ⟨_, -, hsince⟩ := hfirst.of_append
        cases hsince with
        | next hdecision hrest =>
            have hstays := (hdecision.arises.decides hdecides).stays
            refine List.forall_mem_cons.mpr ⟨hstays, hrest.failed hstays hlater ?_⟩
            rw [← hnext.hands.link]
            exact hfailed
      · obtain ⟨net, host', port', rest, hbegan', hrest⟩ := hasked.1 true hoccasion
        have hsame : some (host', port') = some (host, port) := by
          have hlinks := congrArg (fun x : Client => x.link.target) (hbegan'.symm.trans hbegan)
          exact hlinks
        cases hsame
        exact ⟨net, host, port, rest, hbefore.target.symm.trans (htarget rfl), hbegan, hrest⟩

namespace Client

/-- Two attempts without an answer, the second one a retry.  Another retry is decided on, but the
application disconnects before it is made. -/
def retryActions : List (Network × Action) :=
  [(.single 1, .connectConfigured),
    (.single 1, .setRetryEnabled true),
    (.single 1, .elapse (.ofSeconds 3)),
    (.single 1, .retryTurn),
    (.single 1, .elapse (.ofSeconds 10)),
    (.single 1, .retryTurn),
    (.single 1, .reconnect),
    (.single 1, .elapse (.ofSeconds 3)),
    (.single 1, .retryTurn),
    (.single 1, .elapse (.ofSeconds 10)),
    (.single 1, .retryTurn),
    (.single 1, .disconnect),
    (.single 1, .reconnect),
    (.single 1, .pollTurn),
    (.single 1, .sendAck 5)]

/-- The application connects to a host without an address, and a retry is decided on ten seconds
later.  Before it is made the application connects again, in vain. -/
def earlyActions : List (Network × Action) :=
  [(.single 1, .setRetryEnabled true),
    (.single 1, .connect "\x00" 1),
    (.single 1, .elapse (.ofSeconds 10)),
    (.single 1, .retryTurn),
    (.single 1, .connect "\x00" 1),
    (.single 1, .reconnect)]

end Client

end RunRetries

end GameLink
