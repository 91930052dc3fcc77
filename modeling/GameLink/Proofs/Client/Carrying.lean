import GameLink.Proofs.Client.Episodes

/-!
# What pauses carry along

A call that is paused in an attempt, and a poll worker that is paused in an acceptance, carry the
generation of the link along, and compare nothing else when they go on.

**Lateness.** An outcome is timely if the link was waiting for it, else it is late.

**Results.**
* `carries_take`: what is carried along after a stage was before, or it is of an attempt that
  waits.
* `uniform_take`: the buffers stay alike.
* `Tracked.take_beginning`, `Tracked.take_later`: while anything carries the link's own generation
  along, the link waits or the attempt has been told an outcome.
* `Tracked.told_of_late`: so what is late comes behind an outcome.
-/

namespace GameLink

namespace Episode

/-- The outcomes that the link was waiting for. -/
def timely (e : Episode) : List Outcome :=
  if e.before.link.status = .connecting then e.outcomes else []

/-- The outcomes that are told although the link was not waiting any more. -/
def late (e : Episode) : List Outcome :=
  if e.before.link.status = .connecting then [] else e.outcomes

variable {e : Episode}

theorem outcomes_eq (e : Episode) : e.outcomes = e.timely ++ e.late := by
  unfold timely late
  split
  · exact (List.append_nil _).symm
  · rfl

namespace Lawful

/-- A late outcome comes from what carried the link's own generation along. -/
theorem of_late (h : e.Lawful) (hlate : e.late ≠ []) :
    e.before.link.status ≠ .connecting ∧ e.carried = some e.before.link.generation := by
  unfold late at hlate
  split at hlate
  · exact absurd rfl hlate
  · rename_i hidle
    refine ⟨hidle, ?_⟩
    have hbegins : e.occasion.begins = false := by
      rw [Bool.eq_false_iff]
      exact fun hbegins => hlate (h.begins hbegins).1
    have hlater := h.later hbegins
    generalize e.outcomes = outcomes at hlate hlater
    cases hlater with
    | leaves => exact absurd rfl hlate
    | overtakes => exact absurd rfl hlate
    | tells o hstatus hgeneration hfound => exact hfound.resolve_left hidle

theorem status_of_mem_outcomes (h : e.Lawful) (hbegins : e.occasion.begins = false) {o : Outcome}
    (ho : o ∈ e.outcomes) : e.after.link.status = o.status := by
  have hlater := h.later hbegins
  generalize e.outcomes = outcomes at ho hlater
  cases hlater with
  | leaves => cases ho
  | overtakes => cases ho
  | tells o' hstatus hgeneration hfound =>
      rw [List.mem_singleton.mp ho]
      exact hstatus

theorem status_ne_of_outcomes (h : e.Lawful) (hbegins : e.occasion.begins = false)
    (hsome : e.outcomes ≠ []) : e.after.link.status ≠ .connecting := by
  obtain ⟨o, ho⟩ := List.exists_mem_of_ne_nil _ hsome
  rw [h.status_of_mem_outcomes hbegins ho]
  cases o <;> nofun

/-- A link that does not wait does not come to wait unless an attempt begins. -/
theorem idle (h : e.Lawful) (hbegins : e.occasion.begins = false)
    (hidle : e.before.link.status ≠ .connecting) : e.after.link.status ≠ .connecting := by
  have hlater := h.later hbegins
  generalize e.outcomes = outcomes at hlater
  cases hlater with
  | leaves hstatus hgeneration => rwa [hstatus]
  | overtakes hgeneration hstatus => exact fun hback => hidle (hstatus hback)
  | tells o hstatus hgeneration hfound =>
      rw [hstatus]
      cases o <;> nofun

theorem length_outcomes_le_one (h : e.Lawful) (hbegins : e.occasion.begins = false) :
    e.outcomes.length ≤ 1 := by
  have hlater := h.later hbegins
  generalize e.outcomes = outcomes at hlater
  cases hlater with
  | leaves => exact Nat.zero_le _
  | overtakes => exact Nat.zero_le _
  | tells => exact Nat.le_refl _

end Lawful
end Episode

namespace Client

section Pools

variable {c c' : Client}

theorem uniform_look (h : c.pool.Uniform) : c.look.2.pool.Uniform := by
  simp only [look]
  split
  · split
    · exact h
    · exact h
  · exact h
  · exact h
  · exact h

theorem uniform_loadedBuffer (bytes : Bytes) (h : c.pool.Uniform) :
    (c.loadedBuffer bytes).2.pool.Uniform := by
  simp only [loadedBuffer]
  split
  · exact h.acquire thread
  · exact h

theorem uniform_beginAnswer {bytes : Bytes} {answer : Answer} (hpool : c.pool.Uniform)
    (h : c.beginAnswer? bytes = some (answer, c')) : c'.pool.Uniform := by
  have hloaded := uniform_loadedBuffer bytes hpool
  simp only [beginAnswer?] at h
  split at h
  · generalize c.loadedBuffer bytes = loaded at h hloaded
    split at h
    · cases h
    · split at h
      · cases h
        exact hloaded
      · cases h
  · cases h

theorem uniform_readAnswer {remote : Address} {arrival : Arrival} {answer : Answer}
    (hpool : c.pool.Uniform) (h : c.readAnswer? remote arrival = some (answer, c')) :
    c'.pool.Uniform := by
  simp only [readAnswer?] at h
  split at h
  · exact uniform_beginAnswer (c := c.count (.received arrival.datagram.length)) hpool h
  · cases h

theorem uniform_read (net : Network) (remote : Address) (arrival : Arrival)
    (h : c.pool.Uniform) : (c.read net remote arrival).2.pool.Uniform := by
  have hcounted : (c.count (.received arrival.datagram.length)).pool.Uniform := h
  simp only [read]
  split
  · split
    · exact h
    · exact (delivers_handleDatagram net _ remote arrival.datagram hcounted).uniform hcounted
  · exact h

theorem pool_failAttempt (c : Client) (generation : Nat) :
    (c.failAttempt generation).pool = c.pool := by
  unfold failAttempt
  split
  · rfl
  · rfl

theorem pool_agree (c : Client) (answer : Answer) : (c.agree answer).2.pool = c.pool := by
  simp only [agree]
  split
  · rfl
  · split
    · exact pool_failAttempt ..
    · rfl

theorem pool_settle (c : Client) (answer : Answer) : (c.settle answer).pool = c.pool := by
  simp only [settle]
  split
  · rfl
  · rfl

end Pools

end Client

namespace Call

/-- A call carries along what it carried before, or it has just begun an attempt. -/
theorem carried_advance (net : Network) (x : Station) {call next : Call} {x' : Station}
    (h : call.advance net x = (.paused next, x')) {generation : Nat}
    (hcarried : next.carried? = some generation) :
    call.carried? = some generation ∨
      generation = x'.client.link.generation ∧ x'.client.link.status = .connecting := by
  cases call with
  | begin host port isRetry =>
      simp only [advance] at h
      split at h
      · cases h
        exact Or.inr ⟨(Option.some.inj hcarried).symm, rfl⟩
      · cases h
  | stopWorkers attempt stopping =>
      simp only [advance] at h
      split at h
      · cases h
        exact Or.inl hcarried
      · cases h
        exact Or.inl hcarried
  | keepRetryWorker attempt =>
      cases h
      exact Or.inl hcarried
  | openSocket attempt =>
      simp only [advance] at h
      split at h
      · cases h
      · cases h
        exact Or.inl hcarried
  | sendRequest attempt remote pair =>
      simp only [advance] at h
      split at h
      · cases h
      · split at h
        · cases h
          exact Or.inl hcarried
        · cases h
  | keepPollWorker attempt => cases h
  | overtake =>
      cases h
      cases hcarried
  | stopBothWorkers stopping =>
      simp only [advance] at h
      split at h
      · cases h
        cases hcarried
      · cases h

end Call

namespace SharedClient

variable {s : SharedClient} {net : Network} {next : Call} {generation : Nat}

/-- A paused call was paused before, or it has just taken a part. -/
theorem carried_resume {index : Nat} (h : .paused next ∈ (s.resume net index).calls)
    (hcarried : next.carried? = some generation) :
    (∃ call, .paused call ∈ s.calls ∧ call.carried? = some generation) ∨
      generation = (s.resume net index).station.client.link.generation ∧
        (s.resume net index).station.client.link.status = .connecting := by
  simp only [resume] at h ⊢
  split at h
  · rename_i call hcall
    have hmem : Progress.paused call ∈ s.calls := List.mem_of_getElem? hcall
    rcases hadvance : call.advance net s.station with ⟨progress, x⟩
    simp only [hadvance] at h
    rcases List.mem_or_eq_of_mem_set h with hold | rfl
    · exact Or.inl ⟨next, hold, hcarried⟩
    · rcases call.carried_advance net s.station hadvance hcarried with hbefore | hbegun
      · exact Or.inl ⟨call, hmem, hbefore⟩
      · exact Or.inr hbegun
  · exact Or.inl ⟨next, h, hcarried⟩

theorem carried_call {call : Call} (hnone : call.carried? = none)
    (h : .paused next ∈ (s.call net call).calls) (hcarried : next.carried? = some generation) :
    (∃ call, .paused call ∈ s.calls ∧ call.carried? = some generation) ∨
      generation = (s.call net call).station.client.link.generation ∧
        (s.call net call).station.client.link.status = .connecting := by
  rcases carried_resume h hcarried with ⟨before, hmade, hbefore⟩ | hbegun
  · refine Or.inl ⟨before, ?_, hbefore⟩
    rcases List.mem_append.mp hmade with hold | hnew
    · exact hold
    · cases List.mem_singleton.mp hnew
      cases hnone.symm.trans hbefore
  · exact Or.inr hbegun

theorem carried_take {turn : Turn} (h : .paused next ∈ (s.take net turn).calls)
    (hcarried : next.carried? = some generation) :
    (∃ call, .paused call ∈ s.calls ∧ call.carried? = some generation) ∨
      generation = (s.take net turn).station.client.link.generation ∧
        (s.take net turn).station.client.link.status = .connecting := by
  cases turn with
  | connect host port => exact carried_call rfl h hcarried
  | disconnect => exact carried_call rfl h hcarried
  | reconnect =>
      simp only [take, reconnect] at h ⊢
      generalize s.station.client.takeRetry = taken at h ⊢
      obtain ⟨_ | ⟨host, port⟩, client⟩ := taken
      · exact Or.inl ⟨next, h, hcarried⟩
      · exact carried_call rfl h hcarried
  | resume index => exact carried_resume h hcarried
  | _ => exact Or.inl ⟨next, h, hcarried⟩

theorem uniform_take (net : Network) (turn : Turn) (h : s.station.client.pool.Uniform) :
    (s.take net turn).station.client.pool.Uniform := by
  have hsound : ThreadedClient.Sound ⟨s, []⟩ := ⟨h, by simp⟩
  exact (hsound.of_conducts (ThreadedClient.conducts_act hsound net (.turn turn))).uniform

end SharedClient

namespace StagedClient

variable {s : StagedClient} {net : Network} {generation : Nat}

/-- A generation is carried along by a paused call, or by an acceptance that is acted on. -/
def Carries (s : StagedClient) (generation : Nat) : Prop :=
  (∃ call, .paused call ∈ s.shared.calls ∧ call.carried? = some generation) ∨
    ∃ worker answer,
      (s.readings worker).bind Reading.answer? = some answer ∧ answer.generation = generation

theorem carries_of_carried {stage : Stage} (h : s.carried stage = some generation) :
    s.Carries generation := by
  cases stage with
  | turn turn =>
      cases turn with
      | resume index =>
          simp only [carried] at h
          split at h
          · rename_i call hcall
            exact Or.inl ⟨call, List.mem_of_getElem? hcall, h⟩
          · cases h
      | _ => cases h
  | goOn worker =>
      obtain ⟨answer, hanswer, hgeneration⟩ := Option.map_eq_some_iff.mp h
      exact Or.inr ⟨worker, answer, hanswer, hgeneration⟩

/-- Where a poll worker comes to in its turn is all that an update adds. -/
theorem carries_update {x : Station} {worker : Nat} {reading : Option Reading}
    (h : (s.update x worker reading).Carries generation) :
    s.Carries generation ∨
      ∃ answer, reading.bind Reading.answer? = some answer ∧ answer.generation = generation := by
  rcases h with hcall | ⟨other, answer, hanswer, hgeneration⟩
  · exact Or.inl (Or.inl hcall)
  · simp only [update] at hanswer
    split at hanswer
    · exact Or.inr ⟨answer, hanswer, hgeneration⟩
    · exact Or.inl (Or.inr ⟨other, answer, hanswer, hgeneration⟩)

theorem carries_shared (turn : Turn)
    (h : StagedClient.Carries { s with shared := s.shared.take net turn } generation) :
    s.Carries generation ∨
      generation = (s.shared.take net turn).station.client.link.generation ∧
        (s.shared.take net turn).station.client.link.status = .connecting := by
  rcases h with ⟨call, hcall, hcarried⟩ | hreading
  · exact (SharedClient.carried_take hcall hcarried).imp_left Or.inl
  · exact Or.inl (Or.inr hreading)

theorem carries_look {worker : Nat} (h : (s.look worker).Carries generation) :
    s.Carries generation := by
  simp only [look] at h
  split at h
  · split at h
    · exact (carries_update h).resolve_right (by simp [Reading.answer?])
    · exact (carries_update h).resolve_right (by simp)
    · exact (carries_update h).resolve_right (by simp)
  · exact h

theorem carries_readNext {worker : Nat} {remote : Address}
    (h : (s.readNext net worker remote).Carries generation) :
    s.Carries generation ∨
      generation = (s.readNext net worker remote).client.link.generation ∧
        (s.readNext net worker remote).client.link.status = .connecting := by
  simp only [readNext] at h ⊢
  cases hnext : s.next? worker with
  | none =>
      simp only [hnext] at h
      exact Or.inl ((carries_update h).resolve_right (by simp))
  | some next =>
      obtain ⟨seen, arrival⟩ := next
      simp only [hnext] at h ⊢
      cases hanswer : seen.readAnswer? remote arrival with
      | some answered =>
          obtain ⟨answer, after⟩ := answered
          simp only [hanswer] at h ⊢
          refine (carries_update h).imp_right fun hnew => ?_
          obtain ⟨_, hsame, rfl⟩ := hnew
          cases hsame
          exact (Client.lawful_readAnswer hanswer none).2
      | none =>
          simp only [hanswer] at h
          generalize seen.read net remote arrival = outcome at h
          obtain ⟨_ | _, after⟩ := outcome
          · exact Or.inl ((carries_update h).resolve_right (by simp [Reading.answer?]))
          · exact Or.inl ((carries_update h).resolve_right (by simp))

theorem carries_goOn {worker : Nat} (h : (s.goOn net worker).Carries generation) :
    s.Carries generation ∨
      generation = (s.goOn net worker).client.link.generation ∧
        (s.goOn net worker).client.link.status = .connecting := by
  simp only [goOn] at h ⊢
  cases hreading : s.readings worker with
  | none =>
      simp only [hreading] at h
      exact Or.inl h
  | some reading =>
      cases reading with
      | reading remote =>
          simp only [hreading] at h ⊢
          exact carries_readNext h
      | agreeing remote answer =>
          simp only [hreading] at h
          refine Or.inl ?_
          split at h
          · rcases carries_update h with hold | ⟨other, hother, hgeneration⟩
            · exact hold
            · exact Or.inr ⟨worker, other, by rw [hreading]; exact hother, hgeneration⟩
          · exact (carries_update h).resolve_right (by simp [Reading.answer?])
      | settling remote answer =>
          simp only [hreading] at h
          exact Or.inl ((carries_update h).resolve_right (by simp [Reading.answer?]))

/-- What is carried along after a stage was before, or it is of an attempt that waits. -/
theorem carries_take {stage : Stage} (h : (s.take net stage).Carries generation) :
    s.Carries generation ∨
      generation = (s.take net stage).client.link.generation ∧
        (s.take net stage).client.link.status = .connecting := by
  cases stage with
  | turn turn =>
      cases turn with
      | pollTurn worker => exact Or.inl (carries_look h)
      | leave badge =>
          obtain ⟨_ | _, worker⟩ := badge
          · exact carries_shared _ h
          · simp only [take, takeTurn] at h ⊢
            split at h
            · exact Or.inl h
            · rename_i hrest
              rw [if_neg hrest]
              exact carries_shared _ h
      | _ => exact carries_shared _ h
  | goOn worker => exact carries_goOn h

section Pools

theorem uniform_lookTurn (worker : Nat) (h : s.client.pool.Uniform) :
    (s.look worker).client.pool.Uniform := by
  simp only [look]
  split
  · rename_i seeing _ _
    have hlook := Client.uniform_look (c := s.station.seenBy seeing) h
    generalize (s.station.seenBy seeing).look = outcome at hlook ⊢
    obtain ⟨_ | _ | _, seen⟩ := outcome
    · exact hlook
    · exact hlook
    · exact hlook
  · exact h

theorem uniform_readNext (net : Network) (worker : Nat) (remote : Address)
    (h : s.client.pool.Uniform) : (s.readNext net worker remote).client.pool.Uniform := by
  simp only [readNext]
  cases hnext : s.next? worker with
  | none => exact h.merge Client.thread
  | some next =>
      obtain ⟨seen, arrival⟩ := next
      obtain ⟨socket, rfl⟩ := eq_of_next hnext
      dsimp only
      cases hanswer : Client.readAnswer? remote { s.client with socket } arrival with
      | some answered =>
          obtain ⟨answer, after⟩ := answered
          have hread := Client.uniform_readAnswer (c := { s.client with socket }) h hanswer
          exact hread
      | none =>
          have hread := Client.uniform_read (c := { s.client with socket }) net remote arrival h
          dsimp only
          generalize Client.read net remote { s.client with socket } arrival = outcome
            at hread ⊢
          obtain ⟨_ | _, after⟩ := outcome
          · exact hread
          · exact hread.merge Client.thread

theorem uniform_goOn (net : Network) (worker : Nat) (h : s.client.pool.Uniform) :
    (s.goOn net worker).client.pool.Uniform := by
  simp only [goOn]
  split
  · exact h
  · exact uniform_readNext net worker _ h
  · rename_i remote answer _
    have hagree := Client.pool_agree s.client answer
    generalize s.client.agree answer = outcome at hagree ⊢
    obtain ⟨_ | _, after⟩ := outcome
    · exact Pool.Uniform.release (by rw [hagree]; exact h) Client.thread _
    · exact hagree ▸ h
  · exact Pool.Uniform.release (by rw [Client.pool_settle]; exact h) Client.thread _

theorem uniform_take (net : Network) (stage : Stage) (h : s.client.pool.Uniform) :
    (s.take net stage).client.pool.Uniform := by
  cases stage with
  | turn turn =>
      cases turn with
      | pollTurn worker => exact uniform_lookTurn worker h
      | leave badge =>
          obtain ⟨_ | _, worker⟩ := badge
          · exact SharedClient.uniform_take net _ h
          · simp only [take, takeTurn]
            split
            · exact h
            · exact SharedClient.uniform_take net _ h
      | _ => exact SharedClient.uniform_take net _ h
  | goOn worker => exact uniform_goOn net worker h

end Pools

/-- The buffers are alike; and whatever carries the link's own generation along, the link waits or
the attempt has been told an outcome. -/
structure Tracked (s : StagedClient) (told : Prop) : Prop where
  uniform : s.client.pool.Uniform
  carries : ∀ generation, s.Carries generation →
    generation ≤ s.client.link.generation ∧
      (generation = s.client.link.generation → s.client.link.status = .connecting ∨ told)

namespace Tracked

variable {told : Prop} {stage : Stage}

theorem create (setup : Setup) (entropy : Entropy) (now : Moment) :
    (ofClient (.create setup entropy now)).Tracked False where
  uniform := (Pool.Uniform.empty _).preallocate _ _
  carries := by
    rintro generation (⟨call, hcall, -⟩ | ⟨worker, answer, hanswer, -⟩)
    · cases hcall
    · cases hanswer

/-- A beginning leaves what was carried along behind. -/
theorem take_beginning (h : s.Tracked told) (net : Network)
    (hbegins : (s.occasion stage).begins = true) : (s.take net stage).Tracked False where
  uniform := uniform_take net stage h.uniform
  carries generation hcarries := by
    obtain ⟨-, hwaiting, hnewer⟩ := (lawful_episode net h.uniform stage).begins hbegins
    refine ⟨?_, fun _ => Or.inl hwaiting⟩
    rcases carries_take hcarries with hold | ⟨hnew, -⟩
    · exact Nat.le_of_lt (Nat.lt_of_le_of_lt (h.carries generation hold).1 hnewer)
    · exact Nat.le_of_eq hnew

/-- In any other stage the attempt is told an outcome, or things stay as they are. -/
theorem take_later (h : s.Tracked told) (net : Network)
    (hbegins : (s.occasion stage).begins = false) :
    (s.take net stage).Tracked (told ∨ (s.episode net stage).outcomes ≠ []) where
  uniform := uniform_take net stage h.uniform
  carries generation hcarries := by
    rcases carries_take hcarries with hold | ⟨hnew, hwaiting⟩
    · obtain ⟨hle, hown⟩ := h.carries generation hold
      have hlater := (lawful_episode net h.uniform stage).later hbegins
      generalize (s.episode net stage).outcomes = outcomes at hlater ⊢
      cases hlater with
      | leaves hstatus hgeneration =>
          refine ⟨hle.trans (Nat.le_of_eq hgeneration.symm), fun hsame => ?_⟩
          exact (hown (hsame.trans hgeneration)).imp (fun hback => hstatus.trans hback) Or.inl
      | overtakes hnewer hstatus =>
          exact ⟨Nat.le_of_lt (Nat.lt_of_le_of_lt hle hnewer), fun hsame =>
            absurd (hsame ▸ hle) (Nat.not_le_of_lt hnewer)⟩
      | tells o hstatus hgeneration hfound =>
          exact ⟨hle.trans (Nat.le_of_eq hgeneration.symm), fun _ => Or.inr (Or.inr nofun)⟩
    · exact ⟨Nat.le_of_eq hnew, fun _ => Or.inl hwaiting⟩

theorem take (h : s.Tracked told) (net : Network) (stage : Stage) :
    ∃ told, (s.take net stage).Tracked told := by
  cases hbegins : (s.occasion stage).begins with
  | true => exact ⟨_, h.take_beginning net hbegins⟩
  | false => exact ⟨_, h.take_later net hbegins⟩

/-- What is late finds that the attempt has been told an outcome. -/
theorem told_of_late (h : s.Tracked told) (hlate : (s.episode net stage).late ≠ []) : told := by
  obtain ⟨hidle, hcarried⟩ := (lawful_episode net h.uniform stage).of_late hlate
  exact ((h.carries _ (carries_of_carried hcarried)).2 rfl).resolve_left hidle

end Tracked
end StagedClient
end GameLink
