import GameLink.Proofs.Client.Interleaving

/-!
# Workers for every state

An attempt that waits or has failed needs a retry worker, or a retry that was decided on; a link
that is up needs a poll worker for its socket.  While calls are under way these may be missing for
a time; what is said of the calls accounts for that.

**Algorithm.** A call to connect lets all workers go and starts its own; until then it is clearing.
A call to disconnect may let go any worker, but ends with a link that needs none.

**Results.**
* `Call.spared_of_not_touchesWorkers`: which parts of an overtaken attempt never interfere.
* `Staffed.currentPart`, `Staffed.overtakenPart`, `Staffed.otherPart`, `Staffed.begun`,
  `Staffed.dropped`: what a part of a call has to keep.
* `Staffed.update`: what anything else has to keep.
* `Staffed.resume`: every part keeps it, if no overtaken attempt interferes.
-/

namespace GameLink

namespace Call

/-- A call to connect that has not started its retry worker yet. -/
def isClearing : Call → Bool
  | .stopWorkers .. => true
  | _ => false

/-- A call to connect that has not published its socket yet. -/
def isUnpublished : Call → Bool
  | .stopWorkers .. | .keepRetryWorker _ | .openSocket _ | .sendRequest .. => true
  | _ => false

/-- A call to connect whose worker for a duty is not kept yet. -/
def isUnkept (duty : Duty) : Call → Bool
  | .stopWorkers .. | .keepRetryWorker _ => true
  | .openSocket _ | .sendRequest .. | .keepPollWorker _ => duty = .poll
  | _ => false

def isDisconnecting : Call → Bool
  | .overtake | .stopBothWorkers _ => true
  | _ => false

/-- A part that stops workers, or keeps one in the place of another. -/
def touchesWorkers : Call → Bool
  | .stopWorkers .. | .keepRetryWorker _ | .keepPollWorker _ => true
  | _ => false

theorem not_isDisconnecting {call : Call} {attempt : Attempt}
    (h : call.attempt? = some attempt) : call.isDisconnecting = false := by
  cases call with
  | overtake => cases h
  | stopBothWorkers stopping => cases h
  | _ => rfl

end Call

/-- An attempt waits for its answer or for a retry. -/
def LinkStatus.IsPending (status : LinkStatus) : Prop :=
  status = .connecting ∨ status = .connectionFailed

namespace Station

/-- The retry worker of the link's own generation lives, or a retry of a failed attempt was decided
on. -/
def IsTimed (x : Station) : Prop :=
  x.crew.isLive ⟨.retry, x.generation⟩ = true ∨
    x.client.link.status = .connectionFailed ∧ 0 < x.client.workers.reconnects

/-- The link reads its socket: there is one, it is that of its own generation, and so is a poll
worker that lives. -/
def IsRead (x : Station) : Prop :=
  x.client.socket.isSome = true ∧ x.opener = x.generation ∧
    x.crew.isLive ⟨.poll, x.generation⟩ = true

/-- A link that is up, or whose attempt asked for an answer, is to be read. -/
def NeedsReading (x : Station) : Prop :=
  x.client.link.status = .connected ∨
    x.client.link.status = .connecting ∧ x.client.link.remote ≠ none

/-- An overtaken attempt leaves alone what a link needs: its socket, and the workers of its own
generation. -/
structure Spared (x x' : Station) : Prop where
  socket : x'.client.socket.isSome = x.client.socket.isSome
  live : ∀ duty, x.crew.isLive ⟨duty, x.generation⟩ = true →
    x'.crew.isLive ⟨duty, x.generation⟩ = true

instance (x x' : Station) : Decidable (x.Spared x') :=
  decidable_of_iff
    (x'.client.socket.isSome = x.client.socket.isSome ∧
      ∀ duty ∈ [Duty.retry, Duty.poll], x.crew.isLive ⟨duty, x.generation⟩ = true →
        x'.crew.isLive ⟨duty, x.generation⟩ = true)
    ⟨fun h => ⟨h.1, fun duty => h.2 duty (by cases duty <;> simp)⟩,
      fun h => ⟨h.socket, fun duty _ => h.live duty⟩⟩

variable {x x' : Station}

theorem Inert.spared (h : x.Inert x') : x.Spared x' :=
  ⟨congrArg Option.isSome h.socket, h.live⟩

theorem IsTimed.of_spared (h : x.IsTimed) (hspared : x.Spared x')
    (hlink : x'.client.link = x.client.link)
    (hreconnects : x'.client.workers.reconnects = x.client.workers.reconnects) : x'.IsTimed := by
  simp only [IsTimed, generation, hlink, hreconnects] at h ⊢
  exact h.imp_left (hspared.live .retry)

theorem IsRead.of_spared (h : x.IsRead) (hspared : x.Spared x')
    (hlink : x'.client.link = x.client.link) (hopener : x'.opener = x.opener) : x'.IsRead := by
  obtain ⟨hsocket, hopened, hlive⟩ := h
  simp only [IsRead, generation, hlink, hopener]
  exact ⟨hspared.socket.trans hsocket, hopened, hspared.live .poll hlive⟩

end Station

/-- Looking up the server and sending the request interfere with nothing in an overtaken attempt. -/
theorem Call.spared_of_not_touchesWorkers (net : Network) {x : Station} {call : Call}
    {attempt : Attempt} (hattempt : call.attempt? = some attempt)
    (hover : attempt.generation < x.generation) (hnot : call.touchesWorkers = false) :
    x.Spared (call.advance net x).2 := by
  cases call with
  | openSocket own =>
      cases hattempt
      exact (inert_openSocket hover).spared
  | sendRequest own remote pair =>
      cases hattempt
      simp only [advance, Client.sendRequest]
      split
      · rename_i heq
        split at heq
        · cases heq
        · cases heq
          rw [Client.failAttempt_of_overtaken hover]
          exact (Station.Inert.refl x).spared
      · rename_i heq
        split at heq
        · cases heq
          rw [Client.publish_of_overtaken (c := x.client.noteSent remote _) hover]
          exact ⟨rfl, fun _ => id⟩
        · cases heq
  | stopWorkers own stopping => cases hnot
  | keepRetryWorker own => cases hnot
  | keepPollWorker own => cases hnot
  | begin host port isRetry => cases hattempt
  | overtake => cases hattempt
  | stopBothWorkers stopping => cases hattempt

namespace SharedClient

variable {s : SharedClient} {index : Nat} {call : Call} {attempt : Attempt}

/-- The attempt of a call that is under way. -/
def attempt? (s : SharedClient) (index : Nat) : Option Attempt :=
  match s.calls[index]? with
  | some (.paused call) => call.attempt?
  | _ => none

/-- A call under way whose attempt is the newest. -/
structure Current (s : SharedClient) (index : Nat) (call : Call) (attempt : Attempt) : Prop where
  paused : s.calls[index]? = some (.paused call)
  begun : call.attempt? = some attempt
  generation : attempt.generation = s.generation

theorem Current.attempt? (h : s.Current index call attempt) : s.attempt? index = some attempt := by
  simp only [SharedClient.attempt?, h.paused, h.begun]

def IsClearing (s : SharedClient) : Prop :=
  ∃ index call attempt, s.Current index call attempt ∧ call.isClearing = true

def IsDisconnecting (s : SharedClient) : Prop :=
  ∃ (index : Nat) (call : Call),
    s.calls[index]? = some (.paused call) ∧ call.isDisconnecting = true

/-- A link has the workers it needs, as far as no call under way accounts for a missing one. -/
structure Staffed (s : SharedClient) : Prop where
  generation_le : ∀ i a, s.attempt? i = some a → a.generation ≤ s.generation
  generation_inj : ∀ i j a b, s.attempt? i = some a → s.attempt? j = some b →
    a.generation = b.generation → i = j
  kept_le : ∀ duty n, s.station.crew.kept duty = some n → n ≤ s.generation
  /-- So a retry has somewhere to go. -/
  target : s.station.client.link.status.IsPending → s.station.client.link.target ≠ none
  unpublished : ∀ i call a, s.Current i call a → call.isUnpublished = true →
    s.station.client.link.remote = none ∧ s.station.client.link.status.IsPending
  /-- So keeping the worker of the newest attempt cancels only older ones. -/
  unkept : ∀ i call a duty, s.Current i call a → call.isUnkept duty = true →
    s.station.crew.kept duty ≠ some s.generation
  timed : s.station.client.link.status.IsPending →
    s.station.IsTimed ∨ s.IsClearing ∨ s.IsDisconnecting
  read : s.station.NeedsReading → s.station.IsRead ∨ s.IsDisconnecting

section PlacedCalls

/-- The client after a call has come to some point and the station to some state. -/
def put (s : SharedClient) (index : Nat) (progress : Progress) (station : Station) : SharedClient :=
  { station, calls := s.calls.set index progress }

variable {progress : Progress} {x' : Station}

theorem resume_eq_put (net : Network) (h : s.calls[index]? = some (.paused call)) :
    s.resume net index =
      s.put index (call.advance net s.station).1 (call.advance net s.station).2 := by
  simp only [resume, h, put]

theorem calls_put_of_ne {other : Nat} (h : other ≠ index) :
    (s.put index progress x').calls[other]? = s.calls[other]? :=
  List.getElem?_set_ne (Ne.symm h)

theorem calls_put_self (h : s.calls[index]? = some (.paused call)) :
    (s.put index progress x').calls[index]? = some progress :=
  List.getElem?_set_self (List.getElem?_eq_some_iff.mp h).1

theorem attempt?_put_of_ne {other : Nat} (h : other ≠ index) :
    (s.put index progress x').attempt? other = s.attempt? other := by
  simp only [SharedClient.attempt?, calls_put_of_ne h]

/-- A call that goes on is of the attempt it was of. -/
theorem attempt?_put (h : s.calls[index]? = some (.paused call))
    (hattempt : ∀ next, progress = .paused next →
      next.attempt? = call.attempt? ∨ next.attempt? = none) {i : Nat} {a : Attempt}
    (ha : (s.put index progress x').attempt? i = some a) : s.attempt? i = some a := by
  by_cases hi : i = index
  · subst hi
    simp only [SharedClient.attempt?, calls_put_self h] at ha
    simp only [SharedClient.attempt?, h]
    cases progress with
    | returned result => cases ha
    | paused next =>
        have hnext : next.attempt? = some a := ha
        rcases hattempt next rfl with hsame | hnone
        · exact hsame.symm.trans hnext
        · cases hnone.symm.trans hnext
  · rwa [attempt?_put_of_ne hi] at ha

/-- A part of a call that is not of the newest attempt: that stays with the call it was with. -/
theorem current_put_iff (hcall : s.calls[index]? = some (.paused call))
    (hgeneration : x'.generation = s.generation)
    (hbefore : ∀ a, call.attempt? = some a → a.generation ≠ s.generation)
    (hafter : ∀ next a, progress = .paused next → next.attempt? = some a →
      a.generation ≠ s.generation) {i : Nat} {next : Call} {a : Attempt} :
    (s.put index progress x').Current i next a ↔ s.Current i next a := by
  constructor
  · intro hcurrent
    have hnewest : a.generation = s.generation := hcurrent.generation.trans hgeneration
    have hi : i ≠ index := by
      rintro rfl
      have hnext := Option.some.inj ((calls_put_self hcall).symm.trans hcurrent.paused)
      exact hafter next a hnext hcurrent.begun hnewest
    exact ⟨(calls_put_of_ne hi).symm.trans hcurrent.paused, hcurrent.begun, hnewest⟩
  · intro hcurrent
    have hi : i ≠ index := by
      rintro rfl
      cases hcurrent.paused.symm.trans hcall
      exact hbefore a hcurrent.begun hcurrent.generation
    exact ⟨(calls_put_of_ne hi).trans hcurrent.paused, hcurrent.begun,
      hcurrent.generation.trans hgeneration.symm⟩

/-- Another call goes on disconnecting. -/
theorem IsDisconnecting.put (h : s.IsDisconnecting) (hcall : s.calls[index]? = some (.paused call))
    (hnot : call.isDisconnecting = false) : (s.put index progress x').IsDisconnecting := by
  obtain ⟨i, other, hother, hdisconnecting⟩ := h
  have hi : i ≠ index := by
    rintro rfl
    cases hother.symm.trans hcall
    rw [hnot] at hdisconnecting
    cases hdisconnecting
  exact ⟨i, other, (calls_put_of_ne hi).trans hother, hdisconnecting⟩

end PlacedCalls

namespace Staffed

section CallParts

/-- The link is given up, and no call begins an attempt. -/
theorem dropped (h : s.Staffed) {s' : SharedClient}
    (hattempt : ∀ i a, s'.attempt? i = some a → s.attempt? i = some a)
    (hgeneration : s.generation < s'.generation)
    (hkept : ∀ duty n, s'.station.crew.kept duty = some n → s.station.crew.kept duty = some n)
    (hstatus : s'.station.client.link.status = .disconnected) : s'.Staffed := by
  have holder : ∀ i call a, ¬ s'.Current i call a := by
    intro i call a hcurrent
    have hle := h.generation_le i a (hattempt i a hcurrent.attempt?)
    exact absurd hcurrent.generation (Nat.ne_of_lt (hle.trans_lt hgeneration))
  have hpending : ¬ s'.station.client.link.status.IsPending := by
    simp [LinkStatus.IsPending, hstatus]
  exact
    { generation_le := fun i a ha =>
        (h.generation_le i a (hattempt i a ha)).trans (Nat.le_of_lt hgeneration)
      generation_inj := fun i j a b ha hb =>
        h.generation_inj i j a b (hattempt i a ha) (hattempt j b hb)
      kept_le := fun duty n hn => (h.kept_le duty n (hkept duty n hn)).trans
        (Nat.le_of_lt hgeneration)
      target := fun hstatus => absurd hstatus hpending
      unpublished := fun i call a hcurrent => absurd hcurrent (holder i call a)
      unkept := fun i call a duty hcurrent => absurd hcurrent (holder i call a)
      timed := fun hstatus => absurd hstatus hpending
      read := fun hneeds => by simp [Station.NeedsReading, hstatus] at hneeds }

/-- A part of the newest attempt. -/
theorem currentPart (h : s.Staffed) (hcurrent : s.Current index call attempt)
    (hgeneration : x'.generation = s.generation)
    (hattempt : ∀ next, progress = .paused next → next.attempt? = some attempt)
    (hkept : ∀ duty n, x'.crew.kept duty = some n → n ≤ s.generation)
    (htarget : x'.client.link.status.IsPending → x'.client.link.target ≠ none)
    (hunpublished : ∀ next, progress = .paused next → next.isUnpublished = true →
      x'.client.link.remote = none ∧ x'.client.link.status.IsPending)
    (hunkept : ∀ next duty, progress = .paused next → next.isUnkept duty = true →
      x'.crew.kept duty ≠ some s.generation)
    (htimed : x'.client.link.status.IsPending →
      x'.IsTimed ∨ (∃ next, progress = .paused next ∧ next.isClearing = true) ∨ s.IsDisconnecting)
    (hread : x'.NeedsReading → x'.IsRead ∨ s.IsDisconnecting) :
    (s.put index progress x').Staffed := by
  have hself : (s.put index progress x').calls[index]? = some progress :=
    calls_put_self hcurrent.paused
  have hnot := Call.not_isDisconnecting hcurrent.begun
  have hbefore : ∀ i a, (s.put index progress x').attempt? i = some a → s.attempt? i = some a :=
    fun i a ha => attempt?_put hcurrent.paused
      (fun next hnext => Or.inl ((hattempt next hnext).trans hcurrent.begun.symm)) ha
  -- No other call is of the newest attempt.
  have hunique : ∀ i next a, (s.put index progress x').Current i next a →
      i = index ∧ progress = .paused next := by
    intro i next a hother
    have hi : i = index :=
      h.generation_inj i index a attempt (hbefore i a hother.attempt?) hcurrent.attempt?
        (hother.generation.trans (hgeneration.trans hcurrent.generation.symm))
    subst hi
    exact ⟨rfl, Option.some.inj (hself.symm.trans hother.paused)⟩
  exact
    { generation_le := fun i a ha =>
        (h.generation_le i a (hbefore i a ha)).trans_eq hgeneration.symm
      generation_inj := fun i j a b ha hb =>
        h.generation_inj i j a b (hbefore i a ha) (hbefore j b hb)
      kept_le := fun duty n hn => (hkept duty n hn).trans_eq hgeneration.symm
      target := htarget
      unpublished := fun i next a hother => hunpublished next (hunique i next a hother).2
      unkept := fun i next a duty hother hnext => by
        have hdiffers := hunkept next duty (hunique i next a hother).2 hnext
        rwa [← hgeneration] at hdiffers
      timed := fun hpending => by
        rcases htimed hpending with hown | ⟨next, hnext, hclearing⟩ | hdisconnecting
        · exact Or.inl hown
        · refine Or.inr (Or.inl ⟨index, next, attempt, ⟨hself.trans (congrArg some hnext),
            hattempt next hnext, hcurrent.generation.trans hgeneration.symm⟩, hclearing⟩)
        · exact Or.inr (Or.inr (hdisconnecting.put hcurrent.paused hnot))
      read := fun hneeds =>
        (hread hneeds).imp_right fun hdisconnecting => hdisconnecting.put hcurrent.paused hnot }

/-- A part of an attempt that was overtaken, if it leaves alone what the newer link needs. -/
theorem overtakenPart (h : s.Staffed) (net : Network)
    (hcall : s.calls[index]? = some (.paused call)) (hattempt : call.attempt? = some attempt)
    (hover : attempt.generation < s.generation)
    (hspared : s.station.Spared (call.advance net s.station).2) :
    (s.put index (call.advance net s.station).1 (call.advance net s.station).2).Staffed := by
  have hpart := Call.advance_of_overtaken net hattempt hover
  have hnot := Call.not_isDisconnecting hattempt
  generalize call.advance net s.station = outcome at hspared hpart ⊢
  obtain ⟨progress, x'⟩ := outcome
  obtain ⟨hlink, hreconnects, hopener, -, hkept, hnext⟩ := hpart
  dsimp only at hspared hlink hreconnects hopener hkept hnext ⊢
  have hgeneration : x'.generation = s.generation := congrArg Link.generation hlink
  have hbefore : ∀ i a, (s.put index progress x').attempt? i = some a → s.attempt? i = some a :=
    fun i a ha => attempt?_put hcall
      (fun next heq => Or.inl ((hnext next heq).trans hattempt.symm)) ha
  -- The newest attempt is that of another call, which stays where it is.
  have holder : ∀ own : Call, own.attempt? = some attempt → ∀ a, own.attempt? = some a →
      a.generation ≠ s.generation := by
    rintro own hown a ha
    cases hown.symm.trans ha
    exact Nat.ne_of_lt hover
  have hcurrent : ∀ {i : Nat} {next : Call} {a : Attempt},
      (s.put index progress x').Current i next a ↔ s.Current i next a :=
    current_put_iff hcall hgeneration (holder call hattempt)
      fun next a heq => holder next (hnext next heq) a
  exact
    { generation_le := fun i a ha =>
        (h.generation_le i a (hbefore i a ha)).trans_eq hgeneration.symm
      generation_inj := fun i j a b ha hb =>
        h.generation_inj i j a b (hbefore i a ha) (hbefore j b hb)
      kept_le := fun duty n hn => by
        refine Nat.le_trans ?_ (Nat.le_of_eq hgeneration.symm)
        rcases hkept duty with hsame | hnone | hold
        · exact h.kept_le duty n (hsame.symm.trans hn)
        · cases hnone.symm.trans hn
        · cases hold.symm.trans hn
          exact Nat.le_of_lt hover
      target := fun hpending => by
        have hbefore : x'.client.link.status.IsPending := hpending
        rw [hlink] at hbefore
        have htarget := h.target hbefore
        rwa [← hlink] at htarget
      unpublished := fun i next a hown hunpublished => by
        have hlinked := h.unpublished i next a (hcurrent.mp hown) hunpublished
        rwa [← hlink] at hlinked
      unkept := fun i next a duty hown hunkept hnow => by
        have hdiffers := h.unkept i next a duty (hcurrent.mp hown) hunkept
        have hnewest : x'.crew.kept duty = some s.generation := hgeneration ▸ hnow
        rcases hkept duty with hsame | hnone | hold
        · exact hdiffers (hsame.symm.trans hnewest)
        · cases hnone.symm.trans hnewest
        · exact absurd (Option.some.inj (hold.symm.trans hnewest)) (Nat.ne_of_lt hover)
      timed := fun hpending => by
        have hbefore : x'.client.link.status.IsPending := hpending
        rw [hlink] at hbefore
        rcases h.timed hbefore with htimed | ⟨i, other, a, hown, hclearing⟩ | hdisconnecting
        · exact Or.inl (htimed.of_spared hspared hlink hreconnects)
        · exact Or.inr (Or.inl ⟨i, other, a, hcurrent.mpr hown, hclearing⟩)
        · exact Or.inr (Or.inr (hdisconnecting.put hcall hnot))
      read := fun hneeds => by
        have hbefore : s.station.NeedsReading := by
          simp only [Station.NeedsReading, put, hlink] at hneeds ⊢
          exact hneeds
        exact (h.read hbefore).imp (fun hread => hread.of_spared hspared hlink hopener)
          fun hdisconnecting => hdisconnecting.put hcall hnot }

/-- A part of a call that is of no attempt.  It does nothing, or goes on disconnecting. -/
theorem otherPart (h : s.Staffed) (hcall : s.calls[index]? = some (.paused call))
    (hnone : call.attempt? = none)
    (hnext : ∀ next, progress = .paused next → next.attempt? = none)
    (hgeneration : s.generation ≤ x'.generation)
    (hstatus : x'.client.link.status = s.station.client.link.status)
    (htarget : x'.client.link.target = s.station.client.link.target)
    (hremote : x'.client.link.remote = s.station.client.link.remote)
    (hkept : ∀ duty n, x'.crew.kept duty = some n → s.station.crew.kept duty = some n)
    (hdone : x' = s.station ∧ call.isDisconnecting = false ∨
      ∃ next, progress = .paused next ∧ next.isDisconnecting = true) :
    (s.put index progress x').Staffed := by
  have hself : (s.put index progress x').calls[index]? = some progress := calls_put_self hcall
  have hbefore : ∀ i a, (s.put index progress x').attempt? i = some a → s.attempt? i = some a :=
    fun i a ha => attempt?_put hcall (fun next heq => Or.inr (hnext next heq)) ha
  have hcurrent : x'.generation = s.generation → ∀ {i : Nat} {next : Call} {a : Attempt},
      ((s.put index progress x').Current i next a ↔ s.Current i next a) :=
    fun hsame => current_put_iff hcall hsame (fun a ha => nomatch hnone.symm.trans ha)
      fun next a heq ha => nomatch (hnext next heq).symm.trans ha
  -- An attempt that is still the newest leaves no room for a newer generation.
  have hsame : ∀ i next a, (s.put index progress x').Current i next a →
      x'.generation = s.generation := by
    intro i next a hown
    have hle := h.generation_le i a (hbefore i a hown.attempt?)
    exact Nat.le_antisymm (hown.generation.symm.trans_le hle) hgeneration
  have hserved : (s.put index progress x').IsDisconnecting ∨
      x' = s.station ∧ (s.IsDisconnecting → (s.put index progress x').IsDisconnecting) := by
    rcases hdone with ⟨hsame, hnot⟩ | ⟨next, heq, hdisconnecting⟩
    · exact Or.inr ⟨hsame, fun hother => hother.put hcall hnot⟩
    · exact Or.inl ⟨index, next, hself.trans (congrArg some heq), hdisconnecting⟩
  exact
    { generation_le := fun i a ha => (h.generation_le i a (hbefore i a ha)).trans hgeneration
      generation_inj := fun i j a b ha hb =>
        h.generation_inj i j a b (hbefore i a ha) (hbefore j b hb)
      kept_le := fun duty n hn => (h.kept_le duty n (hkept duty n hn)).trans hgeneration
      target := fun hpending => by
        have hold := h.target (by rwa [put, hstatus] at hpending)
        rwa [← htarget] at hold
      unpublished := fun i next a hown hunpublished => by
        have hbegun := (hcurrent (hsame i next a hown)).mp hown
        have hlinked := h.unpublished i next a hbegun hunpublished
        rwa [← hremote, ← hstatus] at hlinked
      unkept := fun i next a duty hown hunkept hnow => by
        have hbegun := (hcurrent (hsame i next a hown)).mp hown
        refine h.unkept i next a duty hbegun hunkept (hkept duty _ ?_)
        rw [← hsame i next a hown]
        exact hnow
      timed := fun hpending => by
        rcases hserved with hdisconnecting | ⟨hidle, hkeep⟩
        · exact Or.inr (Or.inr hdisconnecting)
        · subst hidle
          rcases h.timed hpending with htimed | ⟨i, other, a, hown, hclearing⟩ | hdisconnecting
          · exact Or.inl htimed
          · exact Or.inr (Or.inl ⟨i, other, a, (hcurrent rfl).mpr hown, hclearing⟩)
          · exact Or.inr (Or.inr (hkeep hdisconnecting))
      read := fun hneeds => by
        rcases hserved with hdisconnecting | ⟨hidle, hkeep⟩
        · exact Or.inr hdisconnecting
        · subst hidle
          exact (h.read hneeds).imp_right hkeep }

/-- An attempt begins. -/
theorem begun (h : s.Staffed) (hcall : s.calls[index]? = some (.paused call)) {next : Call}
    (hnext : next.attempt? = some attempt) (hclearing : next.isClearing = true)
    (hnewest : attempt.generation = x'.generation)
    (hgeneration : s.generation < x'.generation)
    (hstatus : x'.client.link.status = .connecting)
    (htarget : x'.client.link.target ≠ none) (hremote : x'.client.link.remote = none)
    (hkept : x'.crew.kept = s.station.crew.kept) :
    (s.put index (.paused next) x').Staffed := by
  have hself : (s.put index (.paused next) x').calls[index]? = some (.paused next) :=
    calls_put_self hcall
  have hown : (s.put index (.paused next) x').attempt? index = some attempt := by
    simp only [SharedClient.attempt?, hself, hnext]
  have hothers : ∀ i a, i ≠ index → (s.put index (.paused next) x').attempt? i = some a →
      s.attempt? i = some a ∧ a.generation ≤ s.generation := by
    intro i a hi ha
    rw [attempt?_put_of_ne hi] at ha
    exact ⟨ha, h.generation_le i a ha⟩
  have hunkept : ∀ duty, x'.crew.kept duty ≠ some x'.generation := by
    intro duty hnow
    have hle := h.kept_le duty x'.generation (hkept ▸ hnow)
    omega
  exact
    { generation_le := fun i a ha => by
        by_cases hi : i = index
        · subst hi
          cases hown.symm.trans ha
          exact Nat.le_of_eq hnewest
        · exact ((hothers i a hi ha).2.trans_lt hgeneration).le
      generation_inj := fun i j a b ha hb hsame => by
        by_cases hi : i = index
        · by_cases hj : j = index
          · exact hi.trans hj.symm
          · subst hi
            cases hown.symm.trans ha
            have hle := (hothers j b hj hb).2
            omega
        · by_cases hj : j = index
          · subst hj
            cases hown.symm.trans hb
            have hle := (hothers i a hi ha).2
            omega
          · exact h.generation_inj i j a b (hothers i a hi ha).1 (hothers j b hj hb).1 hsame
      kept_le := fun duty n hn => ((h.kept_le duty n (hkept ▸ hn)).trans_lt hgeneration).le
      target := fun _ => htarget
      unpublished := fun _ _ _ _ _ => ⟨hremote, Or.inl hstatus⟩
      unkept := fun _ _ _ duty _ _ => hunkept duty
      timed := fun _ => Or.inr (Or.inl ⟨index, next, attempt, ⟨hself, hnext, hnewest⟩, hclearing⟩)
      read := fun hneeds => by
        rcases hneeds with hconnected | ⟨-, hpublished⟩
        · cases hstatus.symm.trans hconnected
        · exact absurd hremote hpublished }

/-- A turn of a worker, or of something else that is no part of a call. -/
theorem update (h : s.Staffed) (hgeneration : x'.generation = s.generation)
    (hkept : x'.crew.kept = s.station.crew.kept)
    (htarget : x'.client.link.target = s.station.client.link.target)
    (hremote : x'.client.link.remote = s.station.client.link.remote)
    (hpending : x'.client.link.status.IsPending → s.station.client.link.status.IsPending)
    (hunpublished : s.station.client.link.remote = none →
      s.station.client.link.status.IsPending → x'.client.link.status.IsPending)
    (htimed : x'.client.link.status.IsPending → s.station.IsTimed → x'.IsTimed)
    (hneeds : x'.NeedsReading → s.station.NeedsReading)
    (hread : x'.NeedsReading → s.station.IsRead → x'.IsRead) : (s.update x').Staffed := by
  have hcurrent : ∀ i call a, (s.update x').Current i call a ↔ s.Current i call a :=
    fun i call a =>
      ⟨fun h => ⟨h.paused, h.begun, h.generation.trans hgeneration⟩,
        fun h => ⟨h.paused, h.begun, h.generation.trans hgeneration.symm⟩⟩
  exact
    { generation_le := fun i a ha => (h.generation_le i a ha).trans_eq hgeneration.symm
      generation_inj := h.generation_inj
      kept_le := fun duty n hn => (h.kept_le duty n (hkept ▸ hn)).trans_eq hgeneration.symm
      target := fun hafter => by
        have hbefore := h.target (hpending hafter)
        rwa [← htarget] at hbefore
      unpublished := fun i call a hown hcall => by
        obtain ⟨hnone, hbefore⟩ := h.unpublished i call a ((hcurrent i call a).mp hown) hcall
        exact ⟨hremote.trans hnone, hunpublished hnone hbefore⟩
      unkept := fun i call a duty hown hcall hnow => by
        refine h.unkept i call a duty ((hcurrent i call a).mp hown) hcall ?_
        rw [← hkept, ← hgeneration]
        exact hnow
      timed := fun hafter => by
        rcases h.timed (hpending hafter) with hbefore | ⟨i, call, a, hown, hcall⟩ | hdisconnecting
        · exact Or.inl (htimed hafter hbefore)
        · exact Or.inr (Or.inl ⟨i, call, a, (hcurrent i call a).mpr hown, hcall⟩)
        · exact Or.inr (Or.inr hdisconnecting)
      read := fun hafter => (h.read (hneeds hafter)).imp_left (hread hafter) }

/-- What decides which workers are needed stays, and so do the workers. -/
theorem update_same (h : s.Staffed) (hfooting : x'.client.footing = s.station.client.footing)
    (hopener : x'.opener = s.station.opener) (hkept : x'.crew.kept = s.station.crew.kept)
    (hlive : ∀ badge, x'.crew.isLive badge = s.station.crew.isLive badge) :
    (s.update x').Staffed := by
  have hstatus : x'.client.link.status = s.station.client.link.status :=
    congrArg Footing.status hfooting
  have hgeneration : x'.generation = s.generation := congrArg Footing.generation hfooting
  have hremote : x'.client.link.remote = s.station.client.link.remote :=
    congrArg Footing.remote hfooting
  have hreconnects : x'.client.workers.reconnects = s.station.client.workers.reconnects :=
    congrArg Footing.reconnects hfooting
  have hsocket : x'.client.socket.isSome = s.station.client.socket.isSome :=
    congrArg Footing.hasSocket hfooting
  have hsame : x'.generation = s.station.generation := hgeneration
  refine h.update hgeneration hkept (congrArg Footing.target hfooting) hremote ?_ ?_ ?_ ?_ ?_
  · rw [hstatus]
    exact id
  · rw [hstatus]
    exact fun _ => id
  · simp only [Station.IsTimed, hlive, hsame, hstatus, hreconnects]
    exact fun _ => id
  · simp only [Station.NeedsReading, hstatus, hremote]
    exact id
  · simp only [Station.IsRead, hsocket, hopener, hlive, hsame]
    exact fun _ => id

end CallParts

section NewestAttempt

/-- While a call is under way with the newest attempt, no other one is clearing. -/
theorem timed_of_current (h : s.Staffed) (hcurrent : s.Current index call attempt)
    (hnot : call.isClearing = false) (hpending : s.station.client.link.status.IsPending) :
    s.station.IsTimed ∨ s.IsDisconnecting := by
  rcases h.timed hpending with htimed | ⟨i, other, a, hother, hclearing⟩ | hdisconnecting
  · exact Or.inl htimed
  · have hi : i = index := h.generation_inj i index a attempt hother.attempt? hcurrent.attempt?
      (hother.generation.trans hcurrent.generation.symm)
    subst hi
    cases hother.paused.symm.trans hcurrent.paused
    rw [hnot] at hclearing
    cases hclearing
  · exact Or.inr hdisconnecting

/-- Nothing is to be read before the socket is published. -/
theorem not_needsReading {x : Station}
    (h : x.client.link.remote = none ∧ x.client.link.status.IsPending) : ¬ x.NeedsReading := by
  obtain ⟨hremote, hpending⟩ := h
  rintro (hconnected | ⟨-, hpublished⟩)
  · simp [LinkStatus.IsPending, hconnected] at hpending
  · exact hpublished hremote

variable {stopping : Stopping}

theorem stopWorkersPart (h : s.Staffed) (net : Network)
    (hcurrent : s.Current index (.stopWorkers attempt stopping) attempt) :
    (s.resume net index).Staffed := by
  have hlink := h.unpublished index _ attempt hcurrent rfl
  have hunread := not_needsReading hlink
  have hkept := Call.kept_advance s.station.crew stopping
  have hunkept := fun duty => h.unkept index _ attempt duty hcurrent rfl
  have hle : ∀ duty n, (stopping.advance s.station.crew).2.kept duty = some n →
      n ≤ s.generation := by
    intro duty n hn
    rcases hkept duty with hsame | hnone
    · exact h.kept_le duty n (hsame.symm.trans hn)
    · cases hnone.symm.trans hn
  have hstill : ∀ duty, (stopping.advance s.station.crew).2.kept duty ≠ some s.generation := by
    intro duty hnow
    rcases hkept duty with hsame | hnone
    · exact hunkept duty (hsame.symm.trans hnow)
    · cases hnone.symm.trans hnow
  rw [resume_eq_put net hcurrent.paused, Call.advance]
  generalize stopping.advance s.station.crew = outcome at hle hstill ⊢
  obtain ⟨_ | further, crew⟩ := outcome
  · -- The last worker has ended, and the retry worker of the attempt is started.
    refine h.currentPart hcurrent rfl ?_ hle h.target ?_ ?_ ?_ ?_
    · rintro _ ⟨⟩
      rfl
    · rintro _ ⟨⟩ -
      exact hlink
    · rintro _ duty ⟨⟩ -
      exact hstill duty
    · intro _
      refine Or.inl (Or.inl ?_)
      show (crew.start ⟨.retry, attempt.generation⟩).isLive ⟨.retry, s.generation⟩ = true
      simp [hcurrent.generation]
    · exact fun hneeds => absurd hneeds hunread
  · refine h.currentPart hcurrent rfl ?_ hle h.target ?_ ?_ ?_ ?_
    · rintro _ ⟨⟩
      rfl
    · rintro _ ⟨⟩ -
      exact hlink
    · rintro _ duty ⟨⟩ -
      exact hstill duty
    · exact fun _ => Or.inr (Or.inl ⟨_, rfl, rfl⟩)
    · exact fun hneeds => absurd hneeds hunread

/-- The worker of the newest attempt is kept: it stays alive, and one of an older attempt, if there
is one, is cancelled. -/
theorem isLive_keep_of_newest {duty other : Duty}
    (hunkept : s.station.crew.kept duty ≠ some s.generation) :
    (s.station.crew.keep ⟨duty, attempt.generation⟩).isLive ⟨other, s.generation⟩ =
      s.station.crew.isLive ⟨other, s.generation⟩ :=
  Crew.isLive_keep_of_ne (Or.inl hunkept)

theorem kept_keep_le (h : s.Staffed) {duty other : Duty} {n : Nat}
    (hgeneration : attempt.generation = s.generation)
    (hn : (s.station.crew.keep ⟨duty, attempt.generation⟩).kept other = some n) :
    n ≤ s.generation := by
  rw [Crew.kept_keep] at hn
  split at hn
  · cases hn
    exact Nat.le_of_eq hgeneration
  · exact h.kept_le other n hn

theorem keepRetryWorkerPart (h : s.Staffed) (net : Network)
    (hcurrent : s.Current index (.keepRetryWorker attempt) attempt) :
    (s.resume net index).Staffed := by
  have hlink := h.unpublished index _ attempt hcurrent rfl
  have hunkept := fun duty => h.unkept index _ attempt duty hcurrent rfl
  rw [resume_eq_put net hcurrent.paused, Call.advance]
  refine h.currentPart hcurrent rfl ?_ (fun duty n hn => h.kept_keep_le hcurrent.generation hn)
    h.target ?_ ?_ ?_ ?_
  · rintro _ ⟨⟩
    rfl
  · rintro _ ⟨⟩ -
    exact hlink
  · rintro _ duty ⟨⟩ hpoll
    have hduty : duty = .poll := of_decide_eq_true hpoll
    subst hduty
    simpa using hunkept .poll
  · intro hpending
    rcases h.timed_of_current hcurrent rfl hpending with (hlive | hdecided) | hdisconnecting
    · exact Or.inl (Or.inl ((isLive_keep_of_newest (hunkept .retry)).trans hlive))
    · exact Or.inl (Or.inr hdecided)
    · exact Or.inr (Or.inr hdisconnecting)
  · exact fun hneeds => absurd hneeds (not_needsReading hlink)

/-- The newest attempt fails. -/
theorem failedPart (h : s.Staffed) (hcurrent : s.Current index call attempt)
    (hnot : call.isClearing = false) (hunpublished : call.isUnpublished = true) {client : Client}
    {failure : Failure} (hfooting : client.footing = s.station.client.footing) :
    (s.put index (.returned (.error failure))
      { s.station with client := client.failAttempt attempt.generation }).Staffed := by
  have hpending := (h.unpublished index call attempt hcurrent hunpublished).2
  have hgeneration : client.link.generation = attempt.generation :=
    (congrArg Footing.generation hfooting).trans hcurrent.generation.symm
  have hfailed : (client.failAttempt attempt.generation).footing =
      { s.station.client.footing with status := .connectionFailed } := by
    rw [Client.failAttempt, if_pos hgeneration, ← hfooting]
    rfl
  have hstatus : (client.failAttempt attempt.generation).link.status = .connectionFailed :=
    congrArg Footing.status hfailed
  have hsame : (client.failAttempt attempt.generation).link.generation = s.generation :=
    congrArg Footing.generation hfailed
  have hreconnects : (client.failAttempt attempt.generation).workers.reconnects =
      s.station.client.workers.reconnects :=
    congrArg Footing.reconnects hfailed
  have htarget : (client.failAttempt attempt.generation).link.target =
      s.station.client.link.target :=
    congrArg Footing.target hfailed
  refine h.currentPart hcurrent hsame (by rintro _ ⟨⟩) h.kept_le ?_ (by rintro _ ⟨⟩)
    (by rintro _ _ ⟨⟩) ?_ ?_
  · exact fun _ hnone => h.target hpending (htarget.symm.trans hnone)
  · intro _
    rcases h.timed_of_current hcurrent hnot hpending with (hlive | hdecided) | hdisconnecting
    · refine Or.inl (Or.inl ?_)
      rw [Station.generation, hsame]
      exact hlive
    · exact Or.inl (Or.inr ⟨hstatus, hreconnects ▸ hdecided.2⟩)
    · exact Or.inr (Or.inr hdisconnecting)
  · rintro (hconnected | ⟨hconnecting, -⟩)
    · cases hstatus.symm.trans hconnected
    · cases hstatus.symm.trans hconnecting

/-- The newest attempt goes on with the same link, or its call returns. -/
theorem unchangedPart (h : s.Staffed) (hcurrent : s.Current index call attempt)
    (hnot : call.isClearing = false) (hunpublished : call.isUnpublished = true) {client : Client}
    (hlink : client.link = s.station.client.link)
    (hreconnects : client.workers.reconnects = s.station.client.workers.reconnects)
    (hattempt : ∀ next, progress = .paused next → next.attempt? = some attempt)
    (hunkept : ∀ next duty, progress = .paused next → next.isUnkept duty = true →
      call.isUnkept duty = true) :
    (s.put index progress { s.station with client }).Staffed := by
  have hbefore := h.unpublished index call attempt hcurrent hunpublished
  have hafter : client.link.remote = none ∧ client.link.status.IsPending := hlink ▸ hbefore
  refine h.currentPart hcurrent (congrArg Link.generation hlink) hattempt h.kept_le ?_
    (fun _ _ _ => hafter)
    (fun next duty hnext hcall =>
      h.unkept index call attempt duty hcurrent (hunkept next duty hnext hcall)) ?_ ?_
  · intro _
    show client.link.target ≠ none
    rw [hlink]
    exact h.target hbefore.2
  · intro _
    rcases h.timed_of_current hcurrent hnot hbefore.2 with htimed | hdisconnecting
    · refine Or.inl ?_
      simp only [Station.IsTimed, Station.generation, hlink, hreconnects]
      exact htimed
    · exact Or.inr (Or.inr hdisconnecting)
  · exact fun hneeds => absurd hneeds (not_needsReading hafter)

theorem openSocketPart (h : s.Staffed) (net : Network)
    (hcurrent : s.Current index (.openSocket attempt) attempt) :
    (s.resume net index).Staffed := by
  obtain ⟨entropy, hopened⟩ :=
    Client.openSocket_snd net s.station.client attempt.host attempt.port
  rw [resume_eq_put net hcurrent.paused, Call.advance]
  generalize s.station.client.openSocket net attempt.host attempt.port = outcome at hopened ⊢
  obtain ⟨failure | ⟨remote, pair⟩, client⟩ := outcome
  · cases hopened
    exact h.failedPart hcurrent rfl rfl rfl
  · cases hopened
    refine h.unchangedPart hcurrent rfl rfl rfl rfl ?_ ?_
    · rintro _ ⟨⟩
      rfl
    · rintro _ duty ⟨⟩ hcall
      exact hcall

/-- The newest attempt publishes its socket and starts the worker that reads it. -/
theorem publishedPart (h : s.Staffed) {remote : Address} {pair : Option KeyPair}
    (hcurrent : s.Current index (.sendRequest attempt remote pair) attempt) {sent client : Client}
    (hpublish : sent.publish attempt.generation remote pair = some client)
    (hsent : sent.footing = s.station.client.footing) :
    (s.put index (.paused (.keepPollWorker attempt))
      { client
        crew := s.station.crew.start ⟨.poll, attempt.generation⟩
        opener := attempt.generation }).Staffed := by
  have hpending := (h.unpublished index _ attempt hcurrent rfl).2
  have hpublished : client.footing =
      { s.station.client.footing with remote := some remote, hasSocket := true } := by
    simp only [Client.publish] at hpublish
    split at hpublish
    · cases hpublish
      rw [← hsent]
      rfl
    · cases hpublish
  have hstatus : client.link.status = s.station.client.link.status :=
    congrArg Footing.status hpublished
  have hgeneration : client.link.generation = s.generation :=
    congrArg Footing.generation hpublished
  have hreconnects : client.workers.reconnects = s.station.client.workers.reconnects :=
    congrArg Footing.reconnects hpublished
  have htarget : client.link.target = s.station.client.link.target :=
    congrArg Footing.target hpublished
  refine h.currentPart hcurrent hgeneration ?_ h.kept_le ?_ ?_ ?_ ?_ ?_
  · rintro _ ⟨⟩
    rfl
  · exact fun _ hnone => h.target hpending (htarget.symm.trans hnone)
  · rintro _ ⟨⟩ ⟨⟩
  · rintro _ duty ⟨⟩ hpoll
    have hduty : duty = .poll := of_decide_eq_true hpoll
    subst hduty
    exact h.unkept index _ attempt .poll hcurrent rfl
  · intro _
    rcases h.timed_of_current hcurrent rfl hpending with (hlive | hdecided) | hdisconnecting
    · refine Or.inl (Or.inl ?_)
      simp only [Station.generation, hgeneration, Crew.isLive_start, Bool.or_eq_true]
      exact Or.inl hlive
    · refine Or.inl (Or.inr ?_)
      show client.link.status = _ ∧ 0 < client.workers.reconnects
      rw [hstatus, hreconnects]
      exact hdecided
    · exact Or.inr (Or.inr hdisconnecting)
  · intro _
    refine Or.inl ⟨congrArg Footing.hasSocket hpublished, ?_, ?_⟩
    · exact hcurrent.generation.trans hgeneration.symm
    · simp [Station.generation, hgeneration, hcurrent.generation]

theorem sendRequestPart (h : s.Staffed) (net : Network) {remote : Address}
    {pair : Option KeyPair}
    (hcurrent : s.Current index (.sendRequest attempt remote pair) attempt) :
    (s.resume net index).Staffed := by
  rw [resume_eq_put net hcurrent.paused]
  simp only [Call.advance, Client.sendRequest]
  split
  · rename_i failure client heq
    split at heq
    · cases heq
    · cases heq
      exact h.failedPart hcurrent rfl rfl rfl
  · rename_i client heq
    split at heq
    · cases heq
      split
      · rename_i published hpublish
        exact h.publishedPart hcurrent hpublish rfl
      · exact h.unchangedPart hcurrent rfl rfl rfl rfl (by rintro _ ⟨⟩) (by rintro _ _ ⟨⟩)
    · cases heq

theorem keepPollWorkerPart (h : s.Staffed) (net : Network)
    (hcurrent : s.Current index (.keepPollWorker attempt) attempt) :
    (s.resume net index).Staffed := by
  have hunkept := h.unkept index _ attempt .poll hcurrent rfl
  rw [resume_eq_put net hcurrent.paused, Call.advance]
  refine h.currentPart hcurrent rfl (by rintro _ ⟨⟩)
    (fun duty n hn => h.kept_keep_le hcurrent.generation hn) h.target (by rintro _ ⟨⟩)
    (by rintro _ _ ⟨⟩) ?_ ?_
  · intro hpending
    rcases h.timed_of_current hcurrent rfl hpending with (hlive | hdecided) | hdisconnecting
    · exact Or.inl (Or.inl ((isLive_keep_of_newest hunkept).trans hlive))
    · exact Or.inl (Or.inr hdecided)
    · exact Or.inr (Or.inr hdisconnecting)
  · intro hneeds
    refine (h.read hneeds).imp_left ?_
    rintro ⟨hsocket, hopener, hlive⟩
    exact ⟨hsocket, hopener, (isLive_keep_of_newest hunkept).trans hlive⟩

end NewestAttempt

section OtherCalls

theorem beginPart (h : s.Staffed) (net : Network) {host : String} {port : UInt16} {isRetry : Bool}
    (hcall : s.calls[index]? = some (.paused (.begin host port isRetry))) :
    (s.resume net index).Staffed := by
  rw [resume_eq_put net hcall]
  simp only [Call.advance]
  split
  · exact h.begun hcall rfl rfl rfl (Nat.lt_succ_self _) rfl (Option.some_ne_none _) rfl rfl
  · exact h.otherPart hcall rfl (by rintro _ ⟨⟩) (Nat.le_refl _) rfl rfl rfl (fun _ _ => id)
      (Or.inl ⟨rfl, rfl⟩)

theorem overtakePart (h : s.Staffed) (net : Network)
    (hcall : s.calls[index]? = some (.paused .overtake)) : (s.resume net index).Staffed := by
  rw [resume_eq_put net hcall, Call.advance]
  refine h.otherPart hcall rfl ?_ (Nat.le_succ _) rfl rfl rfl (fun _ _ => id)
    (Or.inr ⟨_, rfl, rfl⟩)
  rintro _ ⟨⟩
  rfl

theorem stopBothWorkersPart (h : s.Staffed) (net : Network)
    (hcall : s.calls[index]? = some (.paused (.stopBothWorkers stopping))) :
    (s.resume net index).Staffed := by
  have hkept : ∀ duty n, (stopping.advance s.station.crew).2.kept duty = some n →
      s.station.crew.kept duty = some n := by
    intro duty n hn
    rcases Call.kept_advance s.station.crew stopping duty with hsame | hnone
    · exact hsame.symm.trans hn
    · cases hnone.symm.trans hn
  rw [resume_eq_put net hcall, Call.advance]
  generalize stopping.advance s.station.crew = outcome at hkept ⊢
  obtain ⟨_ | further, crew⟩ := outcome
  · exact h.dropped (fun i a ha => attempt?_put hcall (by rintro _ ⟨⟩) ha) (Nat.lt_succ_self _)
      hkept rfl
  · refine h.otherPart hcall rfl ?_ (Nat.le_refl _) rfl rfl rfl hkept (Or.inr ⟨_, rfl, rfl⟩)
    rintro _ ⟨⟩
    rfl

/-- The next part of a call, if the call is not of an overtaken attempt that interferes. -/
theorem resume (h : s.Staffed) (net : Network) (index : Nat)
    (hspared : ∀ call attempt, s.calls[index]? = some (.paused call) →
      call.attempt? = some attempt → attempt.generation < s.generation →
        call.touchesWorkers = true → s.station.Spared (call.advance net s.station).2) :
    (s.resume net index).Staffed := by
  cases hcall : s.calls[index]? with
  | none =>
      simp only [SharedClient.resume, hcall]
      exact h
  | some progress =>
    cases progress with
    | returned result =>
        rw [resume_of_returned hcall]
        exact h
    | paused call =>
      cases hattempt : call.attempt? with
      | none =>
          cases call with
          | begin host port isRetry => exact h.beginPart net hcall
          | overtake => exact h.overtakePart net hcall
          | stopBothWorkers stopping => exact h.stopBothWorkersPart net hcall
          | _ => cases hattempt
      | some attempt =>
          have hbegun : s.attempt? index = some attempt := by
            simp only [SharedClient.attempt?, hcall, hattempt]
          rcases Nat.lt_or_eq_of_le (h.generation_le index attempt hbegun) with hover | hnewest
          · rw [resume_eq_put net hcall]
            refine h.overtakenPart net hcall hattempt hover ?_
            cases htouches : call.touchesWorkers with
            | true => exact hspared call attempt hcall hattempt hover htouches
            | false => exact Call.spared_of_not_touchesWorkers net hattempt hover htouches
          · have hcurrent : s.Current index call attempt := ⟨hcall, hattempt, hnewest⟩
            cases call with
            | stopWorkers own stopping =>
                cases hattempt
                exact h.stopWorkersPart net hcurrent
            | keepRetryWorker own =>
                cases hattempt
                exact h.keepRetryWorkerPart net hcurrent
            | openSocket own =>
                cases hattempt
                exact h.openSocketPart net hcurrent
            | sendRequest own remote pair =>
                cases hattempt
                exact h.sendRequestPart net hcurrent
            | keepPollWorker own =>
                cases hattempt
                exact h.keepPollWorkerPart net hcurrent
            | begin host port isRetry => cases hattempt
            | overtake => cases hattempt
            | stopBothWorkers stopping => cases hattempt

end OtherCalls

end Staffed
end SharedClient
end GameLink
