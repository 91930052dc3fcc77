import GameLink.Proofs.Client.Passages

/-!
# The outcome of an attempt

An attempt ends when the link comes up, is refused or fails.  The poll worker, the retry worker
and the attempt itself may all find that it has ended, in any order and more than once.

**Results.**
* `Judged.settles`: a step after the beginning settles nothing, or it settles an attempt that
  waits for its answer.
* `settledOnce_of_judged`: from one beginning to the next at most one step settles the attempt,
  and no step behind it finds the link waiting.
* `settledOnce_of_passages`: the same of a part of a run.
* `handleDatagram_of_late`: an answer that nothing waits for is only heard.
* `one_outcome`: each attempt of a run in which no call is paused has at most one outcome.
-/

namespace GameLink

/-- How an attempt ends. -/
inductive Outcome
  | established
  | denied
  | failed
deriving DecidableEq, Repr

/-- Where the link stands after an outcome. -/
def Outcome.status : Outcome → LinkStatus
  | .established => .connected
  | .denied | .failed => .connectionFailed

/-- Whether a packet answers a connection request. -/
def PacketKind.isAnswer : PacketKind → Bool
  | .connectionAccepted | .connectionDenied => true
  | _ => false

/-- Whether an attempt begins. -/
def Occasion.begins : Occasion → Bool
  | .beginning _ => true
  | _ => false

/-- The outcome that an event tells.  An error on an occasion that is no part of an attempt is
that of a datagram that was not taken. -/
def Event.outcome? (occasion : Occasion) : Event → Option Outcome
  | .connected _ => some .established
  | .connectDenied => some .denied
  | .connectionError => if occasion = .other then none else some .failed
  | .disconnected | .data .. => none

namespace Step

/-- The outcomes that a step tells the application. -/
def outcomes (s : Step) : List Outcome :=
  s.raised.filterMap (Event.outcome? s.occasion)

/-- A step settles nothing and leaves the link where it stands or disconnected, or it settles an
attempt that waits. -/
def Settles (s : Step) : Prop :=
  (s.outcomes = [] ∧ (s.after = s.before ∨ s.after = .disconnected)) ∨
    ∃ o, s.outcomes = [o] ∧ s.before = .connecting ∧ s.after = o.status

namespace Judged

variable {s : Step}

/-- A call to connect has no outcome yet. -/
theorem outcomes_of_begins (h : s.Judged) (hbegins : s.occasion.begins = true) :
    s.outcomes = [] := by
  obtain ⟨before, occasion, after, raised⟩ := s
  cases occasion with
  | beginning isRetry =>
      have harrow : Arrow before (.beginning isRetry) after raised :=
        h.documented_iff.mpr fun hstray => by cases hstray.2
      cases harrow with
      | stays | connect | retry => rfl
  | _ => cases hbegins

theorem settles_of_arrow
    {before after : LinkStatus} {occasion : Occasion} {raised : List Event}
    (h : Arrow before occasion after raised) (hlater : occasion.begins = false) :
    Settles ⟨before, occasion, after, raised⟩ := by
  cases h with
  | stays => exact Or.inl ⟨rfl, Or.inl rfl⟩
  | unsent => exact Or.inl ⟨rfl, Or.inl rfl⟩
  | connect => cases hlater
  | retry => cases hlater
  | askedInVain => exact Or.inr ⟨.failed, rfl, rfl, rfl⟩
  | timedOut => exact Or.inr ⟨.failed, rfl, rfl, rfl⟩
  | denied => exact Or.inr ⟨.denied, rfl, rfl, rfl⟩
  | unusable => exact Or.inr ⟨.failed, rfl, rfl, rfl⟩
  | accepted clientId => exact Or.inr ⟨.established, rfl, rfl, rfl⟩
  | data => exact Or.inl ⟨rfl, Or.inl rfl⟩
  | closed => exact Or.inl ⟨rfl, Or.inr rfl⟩
  | silent => exact Or.inl ⟨rfl, Or.inr rfl⟩
  | ended => exact Or.inl ⟨rfl, Or.inr rfl⟩

/-- A stray datagram settles nothing. -/
theorem settles_of_anyway (h : s.ActsAnyway) : s.Settles := by
  obtain ⟨before, occasion, after, raised⟩ := s
  simp only [ActsAnyway] at h
  split at h
  · obtain ⟨rfl, rfl⟩ := h
    exact Or.inl ⟨rfl, Or.inr rfl⟩
  · obtain ⟨rfl, contents, position, rfl⟩ := h
    exact Or.inl ⟨rfl, Or.inl rfl⟩

theorem settles (h : s.Judged) (hlater : s.occasion.begins = false) : s.Settles := by
  by_cases hstray : s.Stray
  · exact settles_of_anyway (h.anyway hstray)
  · exact settles_of_arrow (h.documented_iff.mpr hstray) hlater

/-- An outcome ends the waiting and tells where the link stands. -/
theorem of_mem_outcomes (h : s.Judged) {o : Outcome} (ho : o ∈ s.outcomes) :
    s.before = .connecting ∧ s.after = o.status := by
  have hlater : s.occasion.begins = false := by
    rw [Bool.eq_false_iff]
    intro hbegins
    rw [h.outcomes_of_begins hbegins] at ho
    cases ho
  rcases h.settles hlater with ⟨hnone, -⟩ | ⟨o', hone, hwaiting, hafter⟩
  · rw [hnone] at ho
    cases ho
  · rw [hone, List.mem_singleton] at ho
    subst ho
    exact ⟨hwaiting, hafter⟩

end Judged

/-- A step that settles nothing, on a link that does not wait. -/
def Idle (s : Step) : Prop :=
  s.outcomes = [] ∧ s.before ≠ .connecting

/-- While nothing begins, a link that does not wait for an answer does not come to wait. -/
theorem idle_of_linked
    {steps : List Step} {status last : LinkStatus} (hlinked : Linked status steps last)
    (hsettles : ∀ s ∈ steps, s.Settles) (hidle : status ≠ .connecting) :
    ∀ s ∈ steps, s.Idle := by
  induction steps generalizing status with
  | nil => simp
  | cons step steps ih =>
      obtain ⟨rfl, hrest⟩ := hlinked
      obtain ⟨hstep, hothers⟩ := List.forall_mem_cons.mp hsettles
      rcases hstep with ⟨hnone, hback⟩ | ⟨_, _, hwaiting, _⟩
      · refine List.forall_mem_cons.mpr ⟨⟨hnone, hidle⟩, ih hrest hothers ?_⟩
        rcases hback with hsame | hover
        · rwa [hsame]
        · simp [hover]
      · exact absurd hwaiting hidle

/-- From one beginning to the next there is at most one outcome, and what comes behind it finds
the link not waiting. -/
structure SettledOnce (steps : List Step) : Prop where
  once : (steps.flatMap outcomes).length ≤ 1
  idle : ∀ earlier s later, steps = earlier ++ s :: later → s.outcomes ≠ [] →
    ∀ t ∈ later, t.Idle

namespace SettledOnce

theorem cons_of_none {s : Step} {steps : List Step}
    (hnone : s.outcomes = []) (h : SettledOnce steps) : SettledOnce (s :: steps) where
  once := by
    rw [List.flatMap_cons, hnone]
    exact h.once
  idle := by
    rintro (_ | ⟨first, earlier⟩) t later heq hsome
    · cases heq
      exact absurd hnone hsome
    · cases heq
      exact h.idle earlier t later rfl hsome

theorem cons_of_idle {s : Step} {steps : List Step} {o : Outcome}
    (hone : s.outcomes = [o]) (h : ∀ t ∈ steps, t.Idle) : SettledOnce (s :: steps) where
  once := by
    have hrest : steps.flatMap outcomes = [] :=
      List.flatMap_eq_nil_iff.mpr fun t hmem => (h t hmem).1
    rw [List.flatMap_cons, hone, hrest]
    exact Nat.le_refl _
  idle := by
    rintro (_ | ⟨first, earlier⟩) t later heq hsome
    · cases heq
      exact h
    · cases heq
      exact absurd (h t (by simp)).1 hsome

end SettledOnce

theorem settledOnce_of_linked
    {steps : List Step} {status last : LinkStatus} (hlinked : Linked status steps last)
    (hsettles : ∀ s ∈ steps, s.Settles) : SettledOnce steps := by
  -- the first outcome takes the link out of waiting, and it does not come back
  induction steps generalizing status with
  | nil => exact ⟨Nat.zero_le _, by simp⟩
  | cons step steps ih =>
      obtain ⟨-, hrest⟩ := hlinked
      obtain ⟨hstep, hothers⟩ := List.forall_mem_cons.mp hsettles
      rcases hstep with ⟨hnone, -⟩ | ⟨o, hone, -, hafter⟩
      · exact .cons_of_none hnone (ih hrest hothers)
      · refine .cons_of_idle hone (idle_of_linked hrest hothers ?_)
        rw [hafter]
        cases o <;> nofun

/-- From a beginning to the next one the attempt is settled at most once. -/
theorem settledOnce_of_judged
    {steps : List Step} {status last : LinkStatus} (hlinked : Linked status steps last)
    (hjudged : ∀ s ∈ steps, s.Judged) (hlater : ∀ s ∈ steps.tail, s.occasion.begins = false) :
    SettledOnce steps := by
  cases steps with
  | nil => exact ⟨Nat.zero_le _, by simp⟩
  | cons first rest =>
      obtain ⟨-, hrest⟩ := hlinked
      obtain ⟨hfirst, hothers⟩ := List.forall_mem_cons.mp hjudged
      have hsettled := fun s hmem => (hothers s hmem).settles (hlater s hmem)
      cases hbegins : first.occasion.begins with
      | true =>
          exact .cons_of_none (hfirst.outcomes_of_begins hbegins)
            (settledOnce_of_linked hrest hsettled)
      | false =>
          exact settledOnce_of_linked ⟨rfl, hrest⟩
            (List.forall_mem_cons.mpr ⟨hfirst.settles hbegins, hsettled⟩)

end Step

theorem linked_of_append
    {first second : List Step} {status last : LinkStatus}
    (h : Linked status (first ++ second) last) :
    ∃ middle, Linked status first middle ∧ Linked middle second last := by
  induction first generalizing status with
  | nil => exact ⟨status, rfl, h⟩
  | cons step steps ih =>
      obtain ⟨middle, hfirst, hsecond⟩ := ih h.2
      exact ⟨middle, ⟨h.1, hfirst⟩, hsecond⟩

namespace Client

variable {c : Client} {bytes : Bytes}

section LateAnswers

/-- A link that does not wait for an answer passes it over. -/
theorem handlePacket_of_late
    {packet : Packet} (hanswer : packet.kind.isAnswer = true)
    (hidle : c.link.status ≠ .connecting) (net : Network) (remote : Address) (b : Buffer) :
    c.handlePacket net remote b packet = (.goOn, c) := by
  cases packet with
  | connectionAccepted a => simp only [handlePacket, accept, if_neg hidle]
  | connectionDenied => simp only [handlePacket, if_neg hidle]
  | _ => cases hanswer

/-- An answer that nothing waits for is only heard. -/
theorem handleDatagram_of_late
    (hpool : c.pool.Uniform) {kind : PacketKind} (hkind : Handling.kind? ⟨c, bytes⟩ = some kind)
    (hanswer : kind.isAnswer = true) (hidle : c.link.status ≠ .connecting)
    (net : Network) (remote : Address) :
    ∃ pool, c.handleDatagram net remote bytes = (.goOn, { c.heard with pool }) := by
  simp only [Handling.kind?] at hkind
  split at hkind
  · rename_i hheader hcookie
    obtain ⟨body, hsigned⟩ : ∃ body, signedBody? bytes = some body := by
      cases hsigned : signedBody? bytes with
      | none => simp [signedKind?, hsigned] at hkind
      | some body => exact ⟨body, rfl⟩
    rw [signedKind?_of_body hsigned] at hkind
    obtain ⟨tag, htag, hknown⟩ := Option.bind_eq_some_iff.mp hkind
    obtain ⟨rest, rfl⟩ := List.head?_eq_some_iff.mp htag
    obtain ⟨b', hverify, hbody⟩ := (loaded_loadedBuffer bytes hpool).verify_of_signed hsigned
    have hunread : b'.unread = tag :: rest := by
      rw [Buffer.unread, hbody.contents, hbody.position, List.drop_zero]
    obtain ⟨packet, last, hread⟩ : ∃ packet last,
        Packet.readFields (b'.advance 1) kind = (.ok packet, last) := by
      cases kind <;> first | exact ⟨_, _, rfl⟩ | cases hanswer
    have hdecode := (Packet.decode_of_known hunread hknown).trans hread
    have hpacket : packet.kind.isAnswer = true := by
      rw [Packet.kind_of_readFields hread]
      exact hanswer
    obtain ⟨pool, hloaded, -⟩ := settled_loadedBuffer hpool bytes
    have hlate := handlePacket_of_late (c := ({ c with pool } : Client).heard) hpacket hidle net
      remote last
    refine ⟨pool.release thread (c.loadedBuffer bytes).1, ?_⟩
    simp only [handleDatagram, hheader, hcookie, handlePlain, hverify, hloaded, hdecode, hlate]
    rfl
  · cases hkind

end LateAnswers

end Client

section Attempts

/-- A passage that leaves status, client number and session as they are, raises nothing, sends
nothing and counts nothing. -/
structure Passage.Ignored (p : Passage) : Prop where
  status : p.after.link.status = p.before.link.status
  clientId : p.after.link.clientId = p.before.link.clientId
  session : p.after.session = p.before.session
  journal : p.after.journal = p.before.journal

theorem Passage.Genuine.ignored
    {p : Passage} (h : p.Genuine) {kind : PacketKind} (hkind : p.occasion = .datagram (some kind))
    (hanswer : kind.isAnswer = true) (hidle : p.before.link.status ≠ .connecting) :
    p.Ignored := by
  obtain ⟨hready, net, remote, bytes, hpassage⟩ := h _ hkind
  have hsame : Client.Handling.kind? ⟨p.before, bytes⟩ = some kind :=
    Occasion.datagram.inj ((congrArg Passage.occasion hpassage).symm.trans hkind)
  obtain ⟨pool, hhandled⟩ :=
    Client.handleDatagram_of_late hready.uniform hsame hanswer hidle net remote
  have hafter : p.after = { p.before.heard with pool } := by
    rw [hpassage]
    exact congrArg Prod.snd hhandled
  constructor <;> rw [hafter] <;> rfl

namespace Client

/-- A part of a run in which no attempt begins, but for its first step, settles at most one. -/
theorem settledOnce_of_passages
    {c : Client} (hc : c.Ready) {actions : List (Network × Action)}
    {before attempt after : List Passage}
    (hsplit : c.passages actions = before ++ attempt ++ after)
    (hlater : ∀ p ∈ attempt.tail, p.occasion.begins = false) :
    Step.SettledOnce (attempt.map Passage.step) ∧ ∀ p ∈ attempt, p.step.Judged ∧ p.Genuine := by
  have hunfolds := unfolds_run hc actions
  have hgenuine := genuine_passages hc actions
  have hlinked := hunfolds.linked
  have hjudged := hunfolds.judged
  rw [hsplit] at hgenuine
  rw [history_eq, hsplit, List.map_append, List.map_append] at hlinked hjudged
  obtain ⟨_, hfront, -⟩ := linked_of_append hlinked
  obtain ⟨_, -, hattempt⟩ := linked_of_append hfront
  have hattemptJudged : ∀ s ∈ attempt.map Passage.step, s.Judged := fun s hs =>
    hjudged s (List.mem_append_left _ (List.mem_append_right _ hs))
  refine ⟨Step.settledOnce_of_judged hattempt hattemptJudged ?_, fun p hp => ⟨?_, ?_⟩⟩
  · rw [← List.map_tail]
    intro s hs
    obtain ⟨p, hp, rfl⟩ := List.mem_map.mp hs
    exact hlater p hp
  · exact hattemptJudged _ (List.mem_map_of_mem hp)
  · exact hgenuine p (List.mem_append_left _ (List.mem_append_right _ hp))

/-- The passages of a run, in which no call is paused, raise its events.  From the beginning of an
attempt to the next beginning the application is told at most one outcome: that the link came up,
that it was refused, or that the attempt failed.  The link was waiting before and stands then where
the outcome says.  Acceptances and denials that come later, in any number and order, are ignored. -/
theorem one_outcome
    (setup : Setup) (entropy : Entropy) (now : Moment)
    (actions : List (Network × Action)) :
    let c := create setup entropy now
    (c.run actions).events = (c.passages actions).flatMap (fun p => p.step.raised) ∧
      ∀ before attempt after, c.passages actions = before ++ attempt ++ after →
        (∀ p ∈ attempt.tail, p.occasion.begins = false) →
          (attempt.flatMap fun p => p.step.outcomes).length ≤ 1 ∧
            ∀ earlier p later, attempt = earlier ++ p :: later → ∀ o ∈ p.step.outcomes,
              p.before.link.status = .connecting ∧ p.after.link.status = o.status ∧
                ∀ q ∈ later,
                  q.occasion = .datagram (some .connectionAccepted) ∨
                      q.occasion = .datagram (some .connectionDenied) →
                    q.Ignored := by
  intro c
  have hready : c.Ready := .create setup entropy now
  refine ⟨?_, fun before attempt after hsplit hlater => ?_⟩
  · have hevents : (c.run actions).events = (c.history actions).flatMap Step.raised :=
      (unfolds_run hready actions).events
    rw [hevents, history_eq, List.flatMap_map]
  · obtain ⟨hsettled, hpassages⟩ := settledOnce_of_passages hready hsplit hlater
    refine ⟨?_, ?_⟩
    · have honce := hsettled.once
      rw [List.flatMap_map] at honce
      exact honce
    · rintro earlier p later rfl o ho
      obtain ⟨hjudged, -⟩ := hpassages p (by simp)
      obtain ⟨hwaiting, hafter⟩ := hjudged.of_mem_outcomes ho
      refine ⟨hwaiting, hafter, fun q hq hanswer => ?_⟩
      have hidle : q.step.Idle :=
        hsettled.idle (earlier.map Passage.step) p.step (later.map Passage.step) (by simp)
          (List.ne_nil_of_mem ho) _ (List.mem_map_of_mem hq)
      obtain ⟨-, hgenuine⟩ := hpassages q (by simp [hq])
      rcases hanswer with haccepted | hdenied
      · exact hgenuine.ignored haccepted rfl hidle.2
      · exact hgenuine.ignored hdenied rfl hidle.2

end Client

end Attempts

end GameLink
