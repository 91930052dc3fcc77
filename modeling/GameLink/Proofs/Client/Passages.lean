import GameLink.Proofs.Client.Reachable

/-!
# The passages of a run

A step of the history together with the whole client before and after it.

**Results.**
* `history_eq`: the history of a run is that of its passages.
* `genuine_passages`: the passage of a datagram is its handling, by a client that is ready
  for it.
-/

namespace GameLink

/-- A step with the clients before and after it. -/
structure Passage where
  before : Client
  occasion : Occasion
  after : Client

namespace Passage

/-- What the application can see of a passage. -/
def step (p : Passage) : Step :=
  p.before.step p.occasion p.after

end Passage

namespace Client

variable {c : Client}

/-- A datagram is handled. -/
def Handling.passage (net : Network) (remote : Address) (h : Handling) : Passage where
  before := h.client
  occasion := .datagram h.kind?
  after := (h.client.handleDatagram net remote h.datagram).2

end Client

/-- If the passage is that of a datagram, a client that is ready for it has handled it. -/
def Passage.Genuine (p : Passage) : Prop :=
  ∀ kind, p.occasion = .datagram kind →
    p.before.Ready ∧
      ∃ (net : Network) (remote : Address) (bytes : Bytes),
        p = Client.Handling.passage net remote ⟨p.before, bytes⟩

namespace Client

variable {c : Client}

def attemptPassages (net : Network) (c : Client) (host : String) (port : UInt16)
    (isRetry : Bool) : List Passage :=
  if c.link.mayBegin isRetry then
    let started := c.beginAttempt host port isRetry
    [⟨c, .beginning isRetry, started⟩, ⟨started, .asking, (c.attempt net host port isRetry).2⟩]
  else
    []

def readPassages (net : Network) (c : Client) : List Passage :=
  match c.link.remote with
  | none => []
  | some remote => (c.readHandlings net).map (Handling.passage net remote)

/-- The passages of a look at the link and the socket. -/
def lookPassages (net : Network) (c : Client) : List Passage :=
  match c.link.status with
  | .connected =>
      let silence := c.link.lastActivity.since c.now
      if c.setup.settings.client.keepaliveTimeout < silence then
        [⟨c, .silence, (c.poll net).2⟩]
      else
        c.readPassages net
  | .connecting => c.readPassages net
  | .connectionFailed | .disconnected => []

def pollPassages (net : Network) (c : Client) : List Passage :=
  match c.workers.poll with
  | none => []
  | some _ => c.lookPassages net

def reconnectPassages (net : Network) (c : Client) : List Passage :=
  match c.takeRetry with
  | (none, _) => []
  | (some (host, port), c) => attemptPassages net c host port true

def actPassages (net : Network) (c : Client) : Action → List Passage
  | .connect host port => c.attemptPassages net host port false
  | .connectConfigured =>
      c.attemptPassages net c.setup.settings.client.serverAddress
        c.setup.settings.client.serverPort false
  | .disconnect => [⟨c, .ending, c.disconnect⟩]
  | .retryTurn => [⟨c, .timer, c.retryTurn⟩]
  | .reconnect => c.reconnectPassages net
  | .pollTurn => c.pollPassages net
  | action => [⟨c, .other, (c.act net action).2⟩]

/-- The passages of a run. -/
def passages (c : Client) : List (Network × Action) → List Passage
  | [] => []
  | (net, action) :: rest =>
      c.actPassages net action ++ (c.act net action).2.passages rest

section History

theorem attemptSteps_eq
    (net : Network) (c : Client) (host : String) (port : UInt16) (isRetry : Bool) :
    c.attemptSteps net host port isRetry =
      (c.attemptPassages net host port isRetry).map Passage.step := by
  simp only [attemptSteps, attemptPassages]
  split
  · rfl
  · rfl

theorem burstSteps_eq
    (net : Network) (remote : Address) (arrivals : List Arrival) (c : Client) :
    burstSteps net remote arrivals c =
      ((burst net remote arrivals c).map (Handling.passage net remote)).map Passage.step := by
  induction arrivals generalizing c with
  | nil => rfl
  | cons arrival rest ih =>
      simp only [burstSteps, burst]
      split
      · split
        · exact ih _
        · rw [List.map_cons, List.map_cons]
          refine congrArg₂ List.cons rfl ?_
          generalize handleDatagram net _ remote arrival.datagram = outcome
          obtain ⟨_ | _, after⟩ := outcome
          · exact ih after
          · rfl
      · exact ih _

theorem readSteps_eq (net : Network) (c : Client) :
    c.readSteps net = (c.readPassages net).map Passage.step := by
  simp only [readSteps, readPassages, readHandlings]
  cases c.link.remote with
  | none => rfl
  | some remote =>
      cases c.socket with
      | none => rfl
      | some socket => exact burstSteps_eq net remote socket.inbox c

theorem lookSteps_eq (net : Network) (c : Client) :
    c.lookSteps net = (c.lookPassages net).map Passage.step := by
  simp only [lookSteps, lookPassages]
  cases c.link.status with
  | connected =>
      dsimp only
      split
      · rfl
      · exact readSteps_eq net c
  | connecting => exact readSteps_eq net c
  | connectionFailed => rfl
  | disconnected => rfl

theorem actSteps_eq (net : Network) (c : Client) (action : Action) :
    c.actSteps net action = (c.actPassages net action).map Passage.step := by
  cases action with
  | connect host port => exact attemptSteps_eq net c host port false
  | connectConfigured => exact attemptSteps_eq net c _ _ false
  | reconnect =>
      simp only [actSteps, actPassages, reconnectSteps, reconnectPassages]
      rcases c.takeRetry with ⟨_ | ⟨host, port⟩, after⟩
      · rfl
      · exact attemptSteps_eq net after host port true
  | pollTurn =>
      simp only [actSteps, actPassages, pollSteps, pollPassages]
      cases c.workers.poll with
      | none => rfl
      | some next => exact lookSteps_eq net c
  | _ => rfl

/-- The history of a run is that of its passages. -/
theorem history_eq (c : Client) (actions : List (Network × Action)) :
    c.history actions = (c.passages actions).map Passage.step := by
  induction actions generalizing c with
  | nil => rfl
  | cons taken rest ih =>
      obtain ⟨net, action⟩ := taken
      rw [history, passages, List.map_append, actSteps_eq, ih]

end History

section Datagrams

theorem genuine_of_other
    {before after : Client} {occasion : Occasion} (h : ∀ kind, occasion ≠ .datagram kind) :
    Passage.Genuine ⟨before, occasion, after⟩ :=
  fun kind hkind => absurd hkind (h kind)

theorem genuine_attemptPassages
    (net : Network) (c : Client) (host : String) (port : UInt16) (isRetry : Bool) :
    ∀ p ∈ c.attemptPassages net host port isRetry, p.Genuine := by
  unfold attemptPassages
  split
  · simp only [List.forall_mem_cons]
    exact ⟨genuine_of_other nofun, genuine_of_other nofun, by simp⟩
  · simp

theorem genuine_lookPassages (net : Network) (hc : c.Ready) :
    ∀ p ∈ c.lookPassages net, p.Genuine := by
  have hread : ∀ p ∈ c.readPassages net, p.Genuine := by
    unfold readPassages
    split
    · simp
    · rename_i remote _
      intro p hp
      obtain ⟨h, hmem, rfl⟩ := List.mem_map.mp hp
      exact fun _ _ => ⟨ready_readHandlings net hc h hmem, net, remote, h.datagram, rfl⟩
  unfold lookPassages
  split
  · dsimp only
    split
    · simp only [List.forall_mem_cons]
      exact ⟨genuine_of_other nofun, by simp⟩
    · exact hread
  · exact hread
  · simp
  · simp

theorem genuine_actPassages (net : Network) (hc : c.Ready) (action : Action) :
    ∀ p ∈ c.actPassages net action, p.Genuine := by
  have hone {occasion : Occasion} {after : Client} (h : ∀ kind, occasion ≠ .datagram kind) :
      ∀ p ∈ [(⟨c, occasion, after⟩ : Passage)], p.Genuine := by
    simp only [List.forall_mem_cons]
    exact ⟨genuine_of_other h, by simp⟩
  cases action with
  | connect host port => exact genuine_attemptPassages net c host port false
  | connectConfigured => exact genuine_attemptPassages net c _ _ false
  | reconnect =>
      simp only [actPassages, reconnectPassages]
      split
      · simp
      · exact genuine_attemptPassages net _ _ _ true
  | pollTurn =>
      simp only [actPassages, pollPassages]
      split
      · simp
      · exact genuine_lookPassages net hc
  | _ => exact hone nofun

/-- The passage of a datagram in a run is its handling. -/
theorem genuine_passages (hc : c.Ready) (actions : List (Network × Action)) :
    ∀ p ∈ c.passages actions, p.Genuine := by
  induction actions generalizing c with
  | nil => simp [passages]
  | cons taken rest ih =>
      obtain ⟨net, action⟩ := taken
      rw [passages, List.forall_mem_append]
      exact ⟨genuine_actPassages net hc action, ih (hc.act net action)⟩

end Datagrams

end Client
end GameLink
