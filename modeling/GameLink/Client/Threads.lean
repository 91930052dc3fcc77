import GameLink.Client.Posting
import GameLink.Client.Shared

/-!
# Clients used on several threads

A client shared by several calls and used on several threads.  Calls to send are made in parts as
well; each part, and each turn of anything else, takes place on some thread.

**Threads.** A client uses its pool on a thread of its own.  What happens on another thread
happens to the client while the two threads have exchanged their stacks.

**Results.** An exchange is undone by itself (`exchange_exchange`), and what is done on one thread
while it is exchanged for another is done on the other (`acquire_exchange`, `release_exchange`,
`merge_exchange`).
-/

namespace GameLink

namespace Thread

/-- The thread in whose place a thread is while `s` and `t` are exchanged. -/
def exchange (u s t : Thread) : Thread :=
  if u = s then t else if u = t then s else u

variable (u v s t : Thread)

@[simp] theorem exchange_left : exchange s s t = t := by
  simp [exchange]

@[simp] theorem exchange_right : exchange t s t = s := by
  simp [exchange]

@[simp] theorem exchange_exchange : (u.exchange s t).exchange s t = u := by
  unfold exchange
  by_cases hs : u = s
  · subst hs
    by_cases ht : t = u
    · simp [ht]
    · simp [ht]
  · by_cases ht : u = t
    · subst ht
      simp [hs]
    · simp [hs, ht]

theorem exchange_beq : (u.exchange s t == v) = (u == v.exchange s t) := by
  rw [Bool.eq_iff_iff, beq_iff_eq, beq_iff_eq]
  constructor
  · rintro rfl
    rw [exchange_exchange]
  · rintro rfl
    rw [exchange_exchange]

end Thread

namespace Pool

/-- The pool after two threads have exchanged their stacks. -/
def exchange (p : Pool) (s t : Thread) : Pool :=
  { p with byThread := p.byThread.map fun entry => (entry.1.exchange s t, entry.2) }

variable (p : Pool) (s t u : Thread)

@[simp] theorem exchange_exchange : (p.exchange s t).exchange s t = p := by
  have hback : ((fun entry : Thread × List Buffer => (entry.1.exchange s t, entry.2)) ∘
      fun entry => (entry.1.exchange s t, entry.2)) = id := by
    funext entry
    simp
  simp only [exchange, List.map_map, hback, List.map_id]

/-- Each of the two threads has the stack of the other. -/
@[simp] theorem stack_exchange : (p.exchange s t).stack u = p.stack (u.exchange s t) := by
  simp only [stack, exchange]
  congr 1
  induction p.byThread with
  | nil => rfl
  | cons entry rest ih =>
      obtain ⟨owner, buffers⟩ := entry
      simp only [List.map_cons, List.lookup_cons, Thread.exchange_beq, ih]

theorem setStack_exchange (buffers : List Buffer) :
    (p.exchange s t).setStack u buffers = (p.setStack (u.exchange s t) buffers).exchange s t := by
  have hkept : (fun entry : Thread × List Buffer => entry.1 != u) ∘
      (fun entry : Thread × List Buffer => (entry.1.exchange s t, entry.2)) =
        fun entry => entry.1 != u.exchange s t := by
    funext entry
    simp only [Function.comp, bne, Thread.exchange_beq]
  simp only [setStack, exchange, List.map_cons, Thread.exchange_exchange, List.filter_map, hkept]

/-- A buffer that is taken on one thread is taken on the other. -/
theorem acquire_exchange :
    (p.exchange s t).acquire s = ((p.acquire t).1, (p.acquire t).2.exchange s t) := by
  have hstack : (p.exchange s t).stack s = p.stack t := by simp
  simp only [acquire, hstack]
  cases p.stack t with
  | cons b rest =>
      simp only [setStack_exchange, Thread.exchange_left]
      rfl
  | nil =>
      cases hshared : p.shared with
      | cons b rest => simp [exchange, hshared]
      | nil => simp [exchange, hshared]

/-- A buffer that is given back on one thread is given back on the other. -/
theorem release_exchange (b : Buffer) :
    (p.exchange s t).release s b = (p.release t b).exchange s t := by
  have hstack : (p.exchange s t).stack s = p.stack t := by simp
  simp only [release, hstack]
  by_cases hcapacity : b.capacity = p.bufferCapacity
  · rw [if_pos hcapacity, if_pos (show b.capacity = (p.exchange s t).bufferCapacity from hcapacity),
      setStack_exchange, Thread.exchange_left]
    rfl
  · rw [if_neg hcapacity, if_neg (show b.capacity ≠ (p.exchange s t).bufferCapacity from hcapacity)]

theorem merge_exchange : (p.exchange s t).merge s = (p.merge t).exchange s t := by
  have hstack : (p.exchange s t).stack s = p.stack t := by simp
  simp only [merge, hstack, setStack_exchange, Thread.exchange_left]
  rfl

end Pool

/-- A client, the calls made on it, and the calls to send, the first first. -/
structure ThreadedClient where
  shared : SharedClient
  sendings : List SendingProgress := []

/-- What happens on a thread. -/
inductive Move
  /-- A turn of anything but a call to send that is made in parts. -/
  | turn (turn : Turn)
  /-- A call to send takes its first part. -/
  | begin (message : OutgoingMessage)
  /-- A call to send takes its next part. -/
  | goOn (index : Nat)

namespace ThreadedClient

/-- A client that nothing was called on. -/
def ofClient (client : Client) : ThreadedClient where
  shared := .ofClient client

def client (s : ThreadedClient) : Client :=
  s.shared.station.client

def withClient (s : ThreadedClient) (client : Client) : ThreadedClient :=
  { s with shared := s.shared.update { s.shared.station with client } }

/-- The client while its own thread and another one have exchanged their stacks. -/
def exchange (s : ThreadedClient) (t : Thread) : ThreadedClient :=
  s.withClient { s.client with pool := s.client.pool.exchange Client.thread t }

/-- What happens on the thread of the client. -/
def act (net : Network) (s : ThreadedClient) : Move → ThreadedClient
  | .turn turn => { s with shared := s.shared.take net turn }
  | .begin message => { s with sendings := s.sendings ++ [s.client.beginSending message] }
  | .goOn index =>
      match s.sendings[index]? with
      | some sending =>
          let (sending, client) := s.client.advanceSending net sending
          { s.withClient client with sendings := s.sendings.set index sending }
      | none => s

/-- What happens on a thread. -/
def actOn (net : Network) (t : Thread) (s : ThreadedClient) (move : Move) : ThreadedClient :=
  ((s.exchange t).act net move).exchange t

def run (s : ThreadedClient) (moves : List (Network × Thread × Move)) : ThreadedClient :=
  moves.foldl (fun s move => s.actOn move.1 move.2.1 move.2.2) s

@[simp] theorem run_nil (s : ThreadedClient) : s.run [] = s := by
  rfl

@[simp] theorem run_cons (s : ThreadedClient) (net : Network) (t : Thread) (move : Move)
    (rest : List (Network × Thread × Move)) :
    s.run ((net, t, move) :: rest) = (s.actOn net t move).run rest := by
  rfl

theorem run_append (s : ThreadedClient) (first second : List (Network × Thread × Move)) :
    s.run (first ++ second) = (s.run first).run second := by
  simp [run]

end ThreadedClient
end GameLink
