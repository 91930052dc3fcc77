import GameLink.Proofs.Client.Deliveries
import GameLink.Proofs.Client.Overtaking

/-!
# Interleaved calls

Calls to connect and to disconnect take their parts in any order, and the workers their turns in
between.

**Results.**
* `generation_le_take`: the generation of a link never goes back.
* `IsOvertaken.take`: so an attempt that was overtaken stays so.
* `overtaken_attempt_exact`: what its parts do to the newer link from then on.
-/

namespace GameLink

section Generations

namespace Client

theorem generation_failAttempt (c : Client) (generation : Nat) :
    (c.failAttempt generation).link.generation = c.link.generation := by
  simp only [failAttempt]
  split
  · rfl
  · rfl

theorem generation_of_publish {c published : Client} {generation : Nat} {remote : Address}
    {pair : Option KeyPair} (h : c.publish generation remote pair = some published) :
    published.link.generation = c.link.generation := by
  simp only [publish] at h
  split at h
  · cases h
    rfl
  · cases h

end Client

namespace Call

theorem generation_le_advance (net : Network) (x : Station) (call : Call) :
    x.generation ≤ (call.advance net x).2.generation := by
  cases call with
  | begin host port isRetry =>
      simp only [advance]
      split
      · exact Nat.le_succ _
      · exact Nat.le_refl _
  | stopWorkers attempt stopping =>
      simp only [advance]
      split
      · exact Nat.le_refl _
      · exact Nat.le_refl _
  | keepRetryWorker attempt => exact Nat.le_refl _
  | openSocket attempt =>
      obtain ⟨entropy, hopened⟩ := Client.openSocket_snd net x.client attempt.host attempt.port
      simp only [advance]
      generalize x.client.openSocket net attempt.host attempt.port = outcome at hopened ⊢
      obtain ⟨failure | ⟨remote, pair⟩, client⟩ := outcome
      · cases hopened
        exact Nat.le_of_eq (Client.generation_failAttempt { x.client with entropy } _).symm
      · cases hopened
        exact Nat.le_refl _
  | sendRequest attempt remote pair =>
      simp only [advance, Client.sendRequest]
      split
      · rename_i heq
        split at heq
        · cases heq
        · cases heq
          exact Nat.le_of_eq (Client.generation_failAttempt x.client _).symm
      · rename_i heq
        split at heq
        · cases heq
          split
          · rename_i hpublish
            exact Nat.le_of_eq (Client.generation_of_publish hpublish).symm
          · exact Nat.le_refl _
        · cases heq
  | keepPollWorker attempt => exact Nat.le_refl _
  | overtake => exact Nat.le_succ _
  | stopBothWorkers stopping =>
      simp only [advance]
      split
      · exact Nat.le_refl _
      · exact Nat.le_succ _

end Call

namespace Station

theorem generation_le_retryTurn (x : Station) (generation : Nat) :
    x.generation ≤ (x.retryTurn generation).generation := by
  have hturn := x.retryTurned generation
  generalize x.retryTurn generation = x' at hturn ⊢
  cases hturn with
  | waited hfooting => exact Nat.le_of_eq (congrArg Footing.generation hfooting).symm
  | timedOut hstatus hfooting => exact Nat.le_of_eq (congrArg Footing.generation hfooting).symm
  | decided hstatus hfooting => exact Nat.le_of_eq (congrArg Footing.generation hfooting).symm
  | ended hstatus => exact Nat.le_refl _

theorem generation_le_pollTurn (net : Network) (x : Station) (generation : Nat) :
    x.generation ≤ (x.pollTurn net generation).generation := by
  have hturn := pollTurned net x generation
  generalize x.pollTurn net generation = x' at hturn ⊢
  cases hturn with
  | kept status hstatus hremote hfooting hkept hretry hlive =>
      exact Nat.le_of_eq (congrArg Footing.generation hfooting).symm
  | dropped h hkept => exact Nat.le_of_lt h.generation

end Station

end Generations

namespace SharedClient

variable {s : SharedClient} {index : Nat}

def generation (s : SharedClient) : Nat :=
  s.station.generation

theorem generation_le_resume (net : Network) (s : SharedClient) (index : Nat) :
    s.generation ≤ (s.resume net index).generation := by
  simp only [resume]
  split
  · exact Call.generation_le_advance net s.station _
  · exact Nat.le_refl _

/-- The client with so many retries left that were decided on. -/
def withReconnects (s : SharedClient) (n : Nat) : SharedClient :=
  s.update
    { s.station with
      client :=
        { s.station.client with
          workers := { s.station.client.workers with reconnects := n } } }

/-- A retry was decided on, and it begins where the last attempt went; or nothing begins. -/
theorem reconnect_cases (net : Network) (s : SharedClient) :
    (s.station.client.workers.reconnects = 0 ∧ s.reconnect net = s) ∨
    (s.station.client.link.target = none ∧ ∃ n, s.reconnect net = s.withReconnects n) ∨
    ∃ n host port, s.station.client.workers.reconnects = n + 1 ∧
      s.reconnect net = (s.withReconnects n).call net (.begin host port true) := by
  cases hreconnects : s.station.client.workers.reconnects with
  | zero =>
      have hsame : s.reconnect net = s := by
        simp only [reconnect, Client.takeRetry, hreconnects]
        rfl
      exact Or.inl ⟨rfl, hsame⟩
  | succ n =>
      right
      cases htarget : s.station.client.link.target with
      | none =>
          have hless : s.reconnect net = s.withReconnects n := by
            simp only [reconnect, Client.takeRetry, hreconnects, htarget]
            rfl
          exact Or.inl ⟨rfl, n, hless⟩
      | some target =>
          have hcall : s.reconnect net =
              (s.withReconnects n).call net (.begin target.1 target.2 true) := by
            simp only [reconnect, Client.takeRetry, hreconnects, htarget]
            rfl
          exact Or.inr ⟨n, target.1, target.2, rfl, hcall⟩

/-- The generation of a link never goes back. -/
theorem generation_le_take (net : Network) (s : SharedClient) (turn : Turn) :
    s.generation ≤ (s.take net turn).generation := by
  cases turn with
  | connect host port => exact generation_le_resume net (s.make _) _
  | disconnect => exact generation_le_resume net (s.make _) _
  | reconnect =>
      rcases reconnect_cases net s with ⟨-, hsame⟩ | ⟨-, n, hless⟩ | ⟨n, host, port, -, hcall⟩
      · rw [take, hsame]
      · rw [take, hless]
        exact Nat.le_refl _
      · rw [take, hcall]
        exact generation_le_resume net ((s.withReconnects n).make _) _
  | resume index => exact generation_le_resume net s index
  | errand errand =>
      exact Nat.le_of_eq
        (congrArg Footing.generation (Client.footing_errand net s.station.client errand)).symm
  | deliver generation arrival => exact Nat.le_refl _
  | retryTurn generation => exact s.station.generation_le_retryTurn generation
  | pollTurn generation => exact Station.generation_le_pollTurn net s.station generation
  | leave badge => exact Nat.le_refl _

section Runs

/-- There is a call whose attempt was overtaken, as far as it has not returned. -/
def IsOvertaken (s : SharedClient) (index : Nat) : Prop :=
  index < s.calls.length ∧
    ∀ call, s.calls[index]? = some (.paused call) →
      ∃ attempt, call.attempt? = some attempt ∧ attempt.generation < s.generation

end Runs

end SharedClient

/-- A part that a call takes in a run. -/
structure Part where
  net : Network
  before : SharedClient
  index : Nat
  call : Call

namespace Part

def after (p : Part) : SharedClient :=
  p.before.resume p.net p.index

/-- Whether the part belongs to an attempt that is not the newest. -/
def isOvertaken (p : Part) : Bool :=
  p.call.attempt?.any fun attempt => attempt.generation < p.before.generation

end Part

namespace SharedClient

variable {s : SharedClient} {index : Nat}

/-- The part that is taken in a turn, if a call goes on in it. -/
def partOf? (net : Network) (s : SharedClient) : Turn → Option Part
  | .resume index =>
      match s.calls[index]? with
      | some (.paused call) => some ⟨net, s, index, call⟩
      | _ => none
  | _ => none

/-- The parts that are taken in a run, the first first. -/
def parts (s : SharedClient) : List (Network × Turn) → List Part
  | [] => []
  | (net, turn) :: rest => (s.partOf? net turn).toList ++ (s.take net turn).parts rest

theorem getElem?_calls_call {net : Network} {call : Call} (h : index < s.calls.length) :
    (s.call net call).calls[index]? = s.calls[index]? := by
  rw [SharedClient.call, getElem?_calls_resume (Nat.ne_of_lt h)]
  exact List.getElem?_append_left h

theorem length_calls_resume (net : Network) (s : SharedClient) (index : Nat) :
    (s.resume net index).calls.length = s.calls.length := by
  simp only [resume]
  split
  · exact List.length_set
  · rfl

theorem length_calls_call (net : Network) (s : SharedClient) (call : Call) :
    (s.call net call).calls.length = s.calls.length + 1 := by
  rw [SharedClient.call, length_calls_resume]
  simp [make]

/-- A turn changes no call but the one that goes on in it. -/
theorem getElem?_calls_take {net : Network} {turn : Turn} (h : index < s.calls.length)
    (hother : ∀ other, turn = .resume other → other ≠ index) :
    (s.take net turn).calls[index]? = s.calls[index]? := by
  cases turn with
  | connect host port => exact getElem?_calls_call h
  | disconnect => exact getElem?_calls_call h
  | reconnect =>
      rcases reconnect_cases net s with ⟨-, hsame⟩ | ⟨-, n, hless⟩ | ⟨n, host, port, -, hcall⟩
      · rw [take, hsame]
      · rw [take, hless]
        rfl
      · rw [take, hcall]
        exact getElem?_calls_call (s := s.withReconnects n) h
  | resume other => exact getElem?_calls_resume (hother other rfl).symm
  | errand errand => rfl
  | deliver generation arrival => rfl
  | retryTurn generation => rfl
  | pollTurn generation => rfl
  | leave badge => rfl

theorem length_calls_take (net : Network) (s : SharedClient) (turn : Turn) :
    s.calls.length ≤ (s.take net turn).calls.length := by
  cases turn with
  | connect host port => exact Nat.le_of_lt (by simp [take, length_calls_call])
  | disconnect => exact Nat.le_of_lt (by simp [take, length_calls_call])
  | reconnect =>
      rcases reconnect_cases net s with ⟨-, hsame⟩ | ⟨-, n, hless⟩ | ⟨n, host, port, -, hcall⟩
      · rw [take, hsame]
      · rw [take, hless]
        exact Nat.le_refl _
      · rw [take, hcall, length_calls_call]
        exact Nat.le_succ _
  | resume other => exact Nat.le_of_eq (length_calls_resume net s other).symm
  | errand errand => exact Nat.le_refl _
  | deliver generation arrival => exact Nat.le_refl _
  | retryTurn generation => exact Nat.le_refl _
  | pollTurn generation => exact Nat.le_refl _
  | leave badge => exact Nat.le_refl _

/-- An attempt that was overtaken stays so. -/
theorem IsOvertaken.take (h : s.IsOvertaken index) (net : Network) (turn : Turn) :
    (s.take net turn).IsOvertaken index := by
  obtain ⟨hindex, hattempt⟩ := h
  have hgeneration := generation_le_take net s turn
  refine ⟨hindex.trans_le (length_calls_take net s turn), fun next hnext => ?_⟩
  by_cases hturn : turn = .resume index
  · subst hturn
    simp only [SharedClient.take, resume] at hnext
    split at hnext
    · rename_i call hcall
      obtain ⟨attempt, hcallAttempt, hover⟩ := hattempt call hcall
      have hpart := Call.advance_of_overtaken net hcallAttempt hover
      dsimp only at hnext
      rw [List.getElem?_set_self hindex, Option.some.injEq] at hnext
      exact ⟨attempt, hpart.attempt next hnext, hover.trans_le hgeneration⟩
    · rename_i hnone
      exact absurd hnext (hnone next)
  · rw [getElem?_calls_take hindex fun other hother heq => hturn (heq ▸ hother)] at hnext
    obtain ⟨attempt, hcallAttempt, hover⟩ := hattempt next hnext
    exact ⟨attempt, hcallAttempt, hover.trans_le hgeneration⟩

theorem partOf?_eq_some {net : Network} {turn : Turn} {p : Part}
    (h : s.partOf? net turn = some p) :
    turn = .resume p.index ∧ p.net = net ∧ p.before = s ∧
      s.calls[p.index]? = some (.paused p.call) := by
  cases turn with
  | resume index =>
      simp only [partOf?] at h
      split at h
      · rename_i call hcall
        cases h
        exact ⟨rfl, rfl, rfl, hcall⟩
      · cases h
  | _ => cases h

theorem station_after {p : Part} (h : p.before.calls[p.index]? = some (.paused p.call)) :
    p.after.station = (p.call.advance p.net p.before.station).2 := by
  simp only [Part.after, resume, h]

/-- The parts of an attempt that was overtaken do nothing to the link, and raise nothing.  They do
nothing at all to the newer link, its socket, session and workers, and send nothing, exactly if they
are harmless.  The attempt stays overtaken. -/
theorem overtaken_attempt_exact (s : SharedClient) (index : Nat) (h : s.IsOvertaken index)
    (turns : List (Network × Turn)) :
    (s.run turns).IsOvertaken index ∧
      ∀ p ∈ s.parts turns, p.index = index →
        p.isOvertaken = true ∧
        p.after.station.client.link = p.before.station.client.link ∧
        p.after.station.client.events = p.before.station.client.events ∧
        (p.before.station.Inert p.after.station ↔ p.call.IsHarmless p.net p.before.station) := by
  induction turns generalizing s with
  | nil => exact ⟨h, by simp [parts]⟩
  | cons turn rest ih =>
      obtain ⟨net, turn⟩ := turn
      obtain ⟨hend, hparts⟩ := ih (s.take net turn) (h.take net turn)
      refine ⟨hend, fun p hp hindex => ?_⟩
      rcases List.mem_append.mp hp with hnow | hlater
      · obtain ⟨-, -, rfl, hcall⟩ := partOf?_eq_some (Option.mem_toList.mp hnow)
        obtain ⟨attempt, hattempt, hover⟩ := h.2 p.call (hindex ▸ hcall)
        have hpart := Call.advance_of_overtaken p.net hattempt hover
        rw [station_after hcall]
        refine ⟨?_, hpart.link, hpart.events, Call.inert_iff p.net hattempt hover⟩
        simp [Part.isOvertaken, hattempt, hover]
      · exact hparts p hlater hindex

/-- A setup whose links are not encrypted. -/
def plainSetup : Setup :=
  { Client.sampleSetup with
    settings :=
      { Client.sampleSetup.settings with
        security := { encryptionEnabled := false } } }

def plainClient : SharedClient :=
  .ofClient (.create plainSetup (.cyclic []) .zero)

/-- A call to connect finds the server and pauses; meanwhile a call to disconnect is made, stops the
retry worker and returns. -/
def lateTurns : List (Network × Turn) :=
  [.connect "server" 3565, .resume 0, .resume 0, .resume 0, .disconnect, .resume 1,
    .leave ⟨.retry, 1⟩, .resume 1].map fun turn => (.single 1, turn)

/-- The call to connect goes on and sends its request after all. -/
theorem late_request_sent :
    (plainClient.run lateTurns).calls.map Progress.isOver = [false, true] ∧
      (plainClient.run lateTurns).station.client.link.status = .disconnected ∧
      (plainClient.run lateTurns).station.client.datagrams = [] ∧
      (plainClient.run (lateTurns ++ [(.single 1, .resume 0)])).station.client.datagrams = [[0]] ∧
      (plainClient.run lateTurns).IsOvertaken 0 ∧
      ∃ p ∈ (plainClient.run lateTurns).parts [(.single 1, .resume 0)],
        ¬ p.before.station.Inert p.after.station := by
  have hcall : (plainClient.run lateTurns).calls[0]? =
      some (.paused (.sendRequest ⟨"server", 3565, 1⟩ ⟨1, 3565⟩ none)) := by
    rfl
  have hover : (plainClient.run lateTurns).IsOvertaken 0 := by
    refine ⟨by decide +kernel, fun call h => ?_⟩
    cases hcall.symm.trans h
    exact ⟨_, rfl, by decide +kernel⟩
  obtain ⟨-, hparts⟩ :=
    overtaken_attempt_exact (plainClient.run lateTurns) 0 hover [(.single 1, .resume 0)]
  have hmem : (⟨.single 1, plainClient.run lateTurns, 0,
      .sendRequest ⟨"server", 3565, 1⟩ ⟨1, 3565⟩ none⟩ : Part) ∈
        (plainClient.run lateTurns).parts [(.single 1, .resume 0)] := by
    simp only [parts, partOf?, hcall, Option.toList_some]
    exact List.mem_cons_self
  obtain ⟨-, -, -, hinert⟩ := hparts _ hmem rfl
  refine ⟨by decide +kernel, by decide +kernel, by decide +kernel, by decide +kernel, hover, _,
    hmem, fun h => ?_⟩
  have hcarried := hinert.mp h
  simp only [Call.IsHarmless] at hcarried
  exact absurd hcarried (by decide +kernel)

end SharedClient
end GameLink
