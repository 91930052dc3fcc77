import GameLink.Proofs.Client.Chronicle

/-!
# What a move leaves on the stack of its thread

A thread that uses the pool gives its buffers back and shares them at once, but for one case: a
buffer that is found too small is given back and not shared.

**Results.**
* `leaves_poll`: a burst of datagrams ends with all buffers of the thread shared.
* `leaves_prepare`, `leaves_carryOut`: what a call to send leaves.
* `leaves_actOn`: what each move leaves on the stack of its thread.
-/

namespace GameLink

/-- How a thread uses a pool. -/
inductive PoolUse
  | untouched
  /-- Buffers are taken, or given back and shared. -/
  | settled
  /-- A buffer is taken, found too small, and given back without being shared. -/
  | refused
deriving DecidableEq

/-- What a use leaves on the stack of a thread that had at most one buffer there. -/
def PoolUse.Leaves (t : Thread) (p p' : Pool) : PoolUse → Prop
  | .untouched => p' = p
  | .settled => (p.stack t).length ≤ 1 → p'.stack t = []
  | .refused => (p.stack t).length ≤ 1 → (p'.stack t).length = 1

namespace PoolUse

variable {use : PoolUse} {s t : Thread} {p p' p'' : Pool}

/-- A pool that is used in one way, and then in the same way again. -/
theorem Leaves.trans (h : use.Leaves t p p') (h' : use.Leaves t p' p'') : use.Leaves t p p'' := by
  cases use with
  | untouched => exact Eq.trans h' h
  | settled => exact fun hone => h' (by rw [h hone]; exact Nat.zero_le 1)
  | refused => exact fun hone => h' (Nat.le_of_eq (h hone))

theorem Leaves.exchange (h : use.Leaves s (p.exchange s t) p') :
    use.Leaves t p (p'.exchange s t) := by
  have hbefore : (p.exchange s t).stack s = p.stack t := by simp
  have hafter : (p'.exchange s t).stack t = p'.stack s := by simp
  cases use with
  | untouched =>
      have hsame : p' = p.exchange s t := h
      rw [hsame]
      exact p.exchange_exchange s t
  | settled =>
      simp only [Leaves, hbefore, hafter] at h ⊢
      exact h
  | refused =>
      simp only [Leaves, hbefore, hafter] at h ⊢
      exact h

/-- How a look uses the pool that goes on to read a socket, or not. -/
def ofReading : Option (Address × List Arrival) → PoolUse
  | some _ => .settled
  | none => .untouched

end PoolUse

namespace Client

theorem leaves_readSocket (net : Network) (c : Client) :
    (PoolUse.ofReading c.inbound?).Leaves thread c.pool (c.readSocket net).2.pool := by
  simp only [inbound?, readSocket]
  cases c.link.remote with
  | none => rfl
  | some remote =>
      cases c.socket with
      | none => rfl
      | some socket => exact fun _ => Pool.stack_merge _ thread

/-- A burst of datagrams ends with all buffers of the thread shared. -/
theorem leaves_poll (net : Network) (c : Client) :
    (PoolUse.ofReading c.looks?).Leaves thread c.pool (c.poll net).2.pool := by
  simp only [looks?, poll]
  cases c.link.status with
  | connected =>
      dsimp only
      split
      · rfl
      · exact leaves_readSocket net c
  | connecting => exact leaves_readSocket net c
  | connectionFailed | disconnected => rfl

end Client

section SendCalls

def Parcel.use : Parcel → PoolUse
  | .sealed _ => .untouched
  | .pooled _ => .settled

/-- How the making of a datagram used the pool. -/
def PoolUse.ofPrepared : Except Failure Posting → PoolUse
  | .ok posting => posting.parcel.use
  | .error (.malformed (.overCapacity _)) => .refused
  | .error _ => .untouched

theorem PoolUse.ofPrepared_of_failed {failure : Failure}
    (h : ∀ size, failure ≠ .malformed (.overCapacity size)) :
    PoolUse.ofPrepared (.error failure) = .untouched := by
  unfold PoolUse.ofPrepared
  split
  · rename_i hmade
    cases hmade
  · rename_i size hfailed
    cases hfailed
    exact absurd rfl (h size)
  · rfl

namespace Client

variable {net : Network} {c : Client}

/-- What the making of a datagram leaves on the stack of the thread. -/
theorem leaves_prepare (hpool : c.pool.Uniform) (remote : Address) (message : OutgoingMessage) :
    (PoolUse.ofPrepared (c.prepare remote message).1).Leaves thread c.pool
      (c.prepare remote message).2.pool := by
  have hprepares := prepares hpool remote message
  generalize c.prepare remote message = outcome at hprepares ⊢
  cases hprepares with
  | failed hfailure hpacks =>
      rw [PoolUse.ofPrepared_of_failed hfailure]
      exact hpacks.pool
  | refused hlimit hcapacity =>
      refine fun hone => Pool.length_stack_release ?_ (Pool.stack_acquire hone)
      rw [hpool.capacity_acquire, Pool.bufferCapacity_acquire]
  | sealed hf hpacks => exact hpacks.pool
  | signed hroom hcapacity hcontents => exact Pool.stack_acquire
  | ack sequence hcapacity hcontents => exact Pool.stack_acquire

/-- What the last part of a call leaves on the stack of the thread. -/
theorem leaves_finishSending (net : Network) (c : Client) (posting : Posting) :
    posting.parcel.use.Leaves thread c.pool (c.finishSending net posting).2.pool := by
  obtain ⟨message, remote, datagram | b⟩ := posting
  · exact (notes_transmit net c remote (Posting.post ⟨message, remote, .sealed datagram⟩)).pool
  · exact fun _ => Pool.stack_merge _ thread

/-- How a whole call uses the pool. -/
def useOf (c : Client) (message : OutgoingMessage) : PoolUse :=
  match c.way? message with
  | none => .untouched
  | some remote => .ofPrepared (c.prepare remote message).1

/-- What a whole call leaves on the stack of the thread. -/
theorem leaves_carryOut (hpool : c.pool.Uniform) (message : OutgoingMessage) :
    (c.useOf message).Leaves thread c.pool (c.carryOut net message).2.pool := by
  simp only [useOf, carryOut]
  cases c.way? message with
  | none => rfl
  | some remote =>
      have hprepared := leaves_prepare hpool remote message
      dsimp only
      generalize c.prepare remote message = outcome at hprepared ⊢
      obtain ⟨failure | posting, after⟩ := outcome
      · exact hprepared
      · exact hprepared.trans (leaves_finishSending net after posting)

end Client

end SendCalls

section Doings

/-- How a doing uses the pool. -/
def Doing.use (c : Client) : Doing → PoolUse
  | .look inbox => .ofReading (c.facing inbox).looks?
  | .prepare message remote => .ofPrepared (c.prepare remote message).1
  | .carryOut message => c.useOf message
  | .finish posting => posting.parcel.use
  | .nothing | .enter | .clear | .openSocket _ | .request .. | .tick => .untouched

namespace Client

/-- What a doing leaves on the stack of the thread. -/
theorem leaves_apply (net : Network) (hpool : c.pool.Uniform) (doing : Doing) :
    (doing.use c).Leaves thread c.pool (doing.apply net c).pool := by
  cases doing with
  | nothing | enter | clear => rfl
  | openSocket attempt => exact (notes_applyOpenSocket net c attempt).pool
  | request attempt remote pair => exact (notes_applyRequest net c attempt remote pair).pool
  | tick => exact (notes_retryTick c).pool
  | look inbox => exact leaves_poll net (c.facing inbox)
  | prepare message remote => exact leaves_prepare hpool remote message
  | finish posting => exact leaves_finishSending net c posting
  | carryOut message => exact leaves_carryOut hpool message

end Client

end Doings

section Moves

/-- What a move leaves on the stack of its thread. -/
theorem ThreadedClient.leaves_actOn {s : ThreadedClient} (h : s.Sound) (net : Network)
    (t : Thread) (move : Move) :
    let scene := s.scene net t move
    (scene.doing.use scene.client).Leaves t s.client.pool (s.actOn net t move).client.pool := by
  intro scene
  have hleaves := Client.leaves_apply net (h.exchange t).uniform ((s.exchange t).doing move)
  have hpool : ((s.exchange t).act net move).client.pool =
      (((s.exchange t).doing move).apply net (s.exchange t).client).pool :=
    congrArg Ledger.pool ((s.exchange t).ledger_act net move)
  rw [← hpool] at hleaves
  exact hleaves.exchange

end Moves

end GameLink
