import GameLink.Proofs.Client.AtRest
import GameLink.Proofs.Client.PoolUse

/-!
# The pool when no call sends

A call to send that is refused because the buffers are too small leaves a buffer on the stack of
its thread.  Every other use of the pool ends with the buffers of its thread shared.

**Algorithm.** The threads whose last use of the pool was refused are known from the scenes of a
run (`refusers`).  They have one buffer each on their stacks, and the other threads none
(`Stranded`).

**Results.**
* `Stranded.actOn`: what a move does to the stacks.
* `refusers_eq_nil`: no buffer is too small if all of them hold the largest datagram.
* `pool_at_rest_exact`: where the buffers are when no call waits.
-/

namespace GameLink

/-- The threads whose last use of the pool was refused, after one more use. -/
def PoolUse.refusers (left : List Thread) (t : Thread) : PoolUse → List Thread
  | .untouched => left
  | .settled => left.erase t
  | .refused => left.insert t

namespace Scene

def use (scene : Scene) : PoolUse :=
  scene.doing.use scene.client

/-- The threads whose last use of the pool was refused. -/
def refusers (scenes : List Scene) (left : List Thread) : List Thread :=
  scenes.foldl (fun left scene => scene.use.refusers left scene.thread) left

end Scene

/-- Whether a call to send has returned. -/
def SendingProgress.isOver : SendingProgress → Bool
  | .returned _ => true
  | .connected _ | .addressed .. | .routed .. | .waiting _ => false

namespace Pool

/-- The threads that are left with a buffer have one each, the others none. -/
structure Stacked (p : Pool) (left : List Thread) : Prop where
  nodup : left.Nodup
  length : ∀ t, (p.stack t).length = if t ∈ left then 1 else 0

namespace Stacked

variable {p p' : Pool} {left : List Thread}

theorem length_le_one (h : p.Stacked left) (t : Thread) : (p.stack t).length ≤ 1 := by
  rw [h.length]
  split
  · exact Nat.le_refl 1
  · exact Nat.zero_le 1

/-- What a use of the pool leaves on the stacks of all threads. -/
theorem of_leaves (h : p.Stacked left) {t : Thread} {use : PoolUse}
    (hleaves : use.Leaves t p p') (hothers : ∀ other ≠ t, p'.stack other = p.stack other) :
    p'.Stacked (use.refusers left t) := by
  cases use with
  | untouched =>
      have hsame : p' = p := hleaves
      rw [hsame]
      exact h
  | settled =>
      refine ⟨h.nodup.erase t, fun other => ?_⟩
      simp only [PoolUse.refusers, h.nodup.mem_erase_iff]
      by_cases hother : other = t
      · subst hother
        rw [hleaves (h.length_le_one other)]
        simp
      · rw [hothers other hother, h.length other]
        simp [hother]
  | refused =>
      refine ⟨h.nodup.insert, fun other => ?_⟩
      simp only [PoolUse.refusers, List.mem_insert_iff]
      by_cases hother : other = t
      · subst hother
        rw [hleaves (h.length_le_one other)]
        simp
      · rw [hothers other hother, h.length other]
        simp [hother]

end Stacked
end Pool

namespace ThreadedClient

variable {s : ThreadedClient} {setup : Setup} {left : List Thread}

/-- What is known of the pool of a client, and of the threads that are left with a buffer. -/
structure Stranded (setup : Setup) (s : ThreadedClient) (left : List Thread) : Prop where
  sound : s.Sound
  tally : s.client.pool.Tally s.lent
  stacked : s.client.pool.Stacked left
  setup_eq : s.client.setup = setup
  bufferCapacity :
    s.client.pool.bufferCapacity = setup.settings.performance.bufferCapacity.toNat

namespace Stranded

theorem create (setup : Setup) (entropy : Entropy) (now : Moment) :
    Stranded setup (ofClient (.create setup entropy now)) [] where
  sound := sound_ofClient setup entropy now
  tally := (Pool.Tally.empty _).preallocate _ _
  stacked := ⟨List.nodup_nil, fun t => congrArg List.length
    (Pool.stack_preallocate_empty _ _ Client.thread t)⟩
  setup_eq := rfl
  bufferCapacity := rfl

/-- What a move does to the stacks. -/
theorem actOn (h : s.Stranded setup left) (net : Network) (t : Thread) (move : Move) :
    Stranded setup (s.actOn net t move) ((s.scene net t move).use.refusers left t) := by
  have hconducts := conducts_actOn h.sound net t move
  refine ⟨h.sound.actOn net t move, ?_, ?_, hconducts.setup.trans h.setup_eq,
    hconducts.traffic.bufferCapacity.trans h.bufferCapacity⟩
  · have htally := hconducts.traffic.tally 0
    rw [Nat.zero_add, Nat.zero_add] at htally
    exact htally h.tally
  · exact h.stacked.of_leaves (leaves_actOn h.sound net t move) hconducts.traffic.others

theorem run (h : s.Stranded setup left) (moves : List (Network × Thread × Move)) :
    Stranded setup (s.run moves) (Scene.refusers (s.scenes moves) left) := by
  induction moves generalizing s left with
  | nil => exact h
  | cons move rest ih =>
      obtain ⟨net, t, move⟩ := move
      exact ih (h.actOn net t move)

end Stranded

section LargestDatagram

theorem ofReading_ne_refused (inbound : Option (Address × List Arrival)) :
    PoolUse.ofReading inbound ≠ .refused := by
  cases inbound with
  | none => nofun
  | some inbound => nofun

theorem ofPrepared_ne_refused {c : Client} (hpool : c.pool.Uniform)
    (hroom : c.sizeLimit ≤ c.pool.bufferCapacity) (remote : Address)
    (message : OutgoingMessage) : PoolUse.ofPrepared (c.prepare remote message).1 ≠ .refused := by
  have hprepares := Client.prepares hpool remote message
  generalize c.prepare remote message = outcome at hprepares ⊢
  cases hprepares with
  | failed hfailure hpacks =>
      rw [PoolUse.ofPrepared_of_failed hfailure]
      nofun
  | refused hlimit hcapacity =>
      exact absurd (Nat.le_trans hlimit hroom) (Nat.not_le.mpr hcapacity)
  | sealed hf hpacks => nofun
  | signed hroom hcapacity hcontents => nofun
  | ack sequence hcapacity hcontents => nofun

theorem useOf_ne_refused {c : Client} (hpool : c.pool.Uniform)
    (hroom : c.sizeLimit ≤ c.pool.bufferCapacity) (message : OutgoingMessage) :
    c.useOf message ≠ .refused := by
  unfold Client.useOf
  split
  · nofun
  · exact ofPrepared_ne_refused hpool hroom _ message

/-- Pooled buffers hold all datagrams that may be sent. -/
def Holds (setup : Setup) : Prop :=
  min setup.settings.performance.maxPacketSize.toNat maxDatagramSize ≤
    setup.settings.performance.bufferCapacity.toNat

theorem Stranded.use_ne_refused (h : s.Stranded setup left) (hholds : Holds setup) (net : Network)
    (t : Thread) (move : Move) : (s.scene net t move).use ≠ .refused := by
  have hpool := (h.sound.exchange t).uniform
  have hroom : (s.exchange t).client.sizeLimit ≤ (s.exchange t).client.pool.bufferCapacity := by
    have hsetup : (s.exchange t).client.setup = setup := h.setup_eq
    have hcapacity : (s.exchange t).client.pool.bufferCapacity =
        setup.settings.performance.bufferCapacity.toNat := h.bufferCapacity
    rw [Client.sizeLimit, hsetup, hcapacity]
    exact hholds
  have hparcel (parcel : Parcel) : parcel.use ≠ .refused := by
    cases parcel with
    | sealed datagram => nofun
    | pooled b => nofun
  show ((s.exchange t).doing move).use (s.exchange t).client ≠ .refused
  cases (s.exchange t).doing move with
  | look inbox => exact ofReading_ne_refused _
  | prepare message remote => exact ofPrepared_ne_refused hpool hroom remote message
  | carryOut message => exact useOf_ne_refused hpool hroom message
  | finish posting => exact hparcel posting.parcel
  | _ => nofun

/-- Then no thread is left with a buffer. -/
theorem Stranded.refusers_eq_nil (h : s.Stranded setup []) (hholds : Holds setup)
    (moves : List (Network × Thread × Move)) : Scene.refusers (s.scenes moves) [] = [] := by
  induction moves generalizing s with
  | nil => rfl
  | cons move rest ih =>
      obtain ⟨net, t, move⟩ := move
      have hnone : (s.scene net t move).use.refusers [] t = [] := by
        have hnot := h.use_ne_refused hholds net t move
        cases huse : (s.scene net t move).use with
        | untouched => rfl
        | settled => rfl
        | refused => exact absurd huse hnot
      have hnext := h.actOn net t move
      rw [hnone] at hnext
      have hlist : Scene.refusers (s.scenes ((net, t, move) :: rest)) [] =
          Scene.refusers ((s.actOn net t move).scenes rest)
            ((s.scene net t move).use.refusers [] t) := rfl
      rw [hlist, hnone]
      exact ih hnext

end LargestDatagram

section AtRest

theorem lent_eq_zero {sendings : List SendingProgress}
    (h : ∀ sending ∈ sendings, sending.isOver = true) :
    (sendings.map SendingProgress.lent).sum = 0 := by
  refine List.sum_eq_zero_iff_forall_eq_nat.mpr fun n hn => ?_
  obtain ⟨sending, hmem, rfl⟩ := List.mem_map.mp hn
  have hover := h sending hmem
  cases sending with
  | returned result => rfl
  | connected _ | addressed _ _ | routed _ _ | waiting _ => cases hover

/-- When no call to send waits, as many buffers are pooled as were made.  They are shared, but for
one on the stack of each thread whose last use of the pool was a call refused because the buffers
are too small.  So all of them are shared exactly if there is no such thread, and there is none if
the buffers hold all datagrams that may be sent. -/
theorem pool_at_rest_exact (setup : Setup) (entropy : Entropy) (now : Moment)
    (moves : List (Network × Thread × Move))
    (hrest : ∀ sending ∈ ((ofClient (.create setup entropy now)).run moves).sendings,
      sending.isOver = true) :
    let start := ofClient (.create setup entropy now)
    let pool := (start.run moves).client.pool
    let left := Scene.refusers (start.scenes moves) []
    pool.created = pool.pooled ∧
      pool.pooled = UInt64.ofNat (pool.shared.length + left.length) ∧
      (∀ t, (pool.stack t).length = if t ∈ left then 1 else 0) ∧
      ((pool.created = UInt64.ofNat pool.shared.length ∧
          pool.pooled = UInt64.ofNat pool.shared.length ∧ ∀ t, pool.stack t = []) ↔
        left = []) ∧
      (Holds setup → left = []) := by
  intro start pool left
  have hstart := Stranded.create setup entropy now
  have hend : Stranded setup (start.run moves) left := hstart.run moves
  have hstored : pool.stored = pool.shared.length + left.length :=
    Pool.stored_of_stacks hend.tally.threads hend.stacked.nodup hend.stacked.length
  have hpooled : pool.pooled = UInt64.ofNat (pool.shared.length + left.length) := by
    rw [← hstored]
    exact hend.tally.pooled
  have hlent : (start.run moves).lent = 0 := lent_eq_zero hrest
  have hcreated : pool.created = pool.pooled := by
    rw [hend.tally.created, hend.tally.pooled, hlent, Nat.add_zero]
  refine ⟨hcreated, hpooled, hend.stacked.length, ⟨?_, ?_⟩,
    fun hholds => hstart.refusers_eq_nil hholds moves⟩
  · rintro ⟨-, -, hempty⟩
    refine List.eq_nil_iff_forall_not_mem.mpr fun t ht => ?_
    have hone := hend.stacked.length t
    rw [if_pos ht, show (start.run moves).client.pool.stack t = [] from hempty t] at hone
    cases hone
  · intro hnone
    have hall : pool.pooled = UInt64.ofNat pool.shared.length := by
      rw [hpooled, hnone]
      rfl
    refine ⟨hcreated.trans hall, hall, fun t => ?_⟩
    have hlength := hend.stacked.length t
    rw [hnone, if_neg List.not_mem_nil] at hlength
    exact List.eq_nil_of_length_eq_zero hlength

/-- A client whose links are not encrypted, with small buffers. -/
def plainThreaded : ThreadedClient :=
  .ofClient (.create SharedClient.plainSetup (.cyclic []) .zero)

/-- Turns on one thread; the network is the same all the time. -/
def onThread (t : Thread) (turns : List Turn) : List (Network × Thread × Move) :=
  turns.map fun turn => (.single 1, t, .turn turn)

/-- On one thread the client connects and the acceptance is read. -/
def linked : List (Network × Thread × Move) :=
  onThread 1
    (.connect "server" 3565 :: List.replicate 5 (.resume 0) ++ SharedClient.acceptanceRead 1)

/-- On another thread a message is to be sent that is no datagram too long, but for the buffers. -/
def strandingMoves : List (Network × Thread × Move) :=
  linked ++ (.single 1, 5, .begin (.data (List.replicate 100 PacketKind.reliable.tag))) ::
    List.replicate 3 (.single 1, 5, .goOn 0)

/-- The only buffer there is lies on the stack of that thread, and none is shared. -/
theorem refused_send_strands_buffer :
    (∀ sending ∈ (plainThreaded.run strandingMoves).sendings, sending.isOver = true) ∧
      Scene.refusers (plainThreaded.scenes strandingMoves) [] = [5] ∧
      (plainThreaded.run strandingMoves).client.pool.created = 1 ∧
      (plainThreaded.run strandingMoves).client.pool.shared = [] ∧
      ((plainThreaded.run strandingMoves).client.pool.stack 5).length = 1 := by
  have hrest : ∀ sending ∈ (plainThreaded.run strandingMoves).sendings,
      sending.isOver = true := by
    decide +kernel
  have hleft : Scene.refusers (plainThreaded.scenes strandingMoves) [] = [5] := by
    decide +kernel
  obtain ⟨-, -, hstacks, -⟩ :=
    pool_at_rest_exact SharedClient.plainSetup (.cyclic []) .zero strandingMoves hrest
  refine ⟨hrest, hleft, by decide +kernel, by decide +kernel, ?_⟩
  have hone := hstacks 5
  rw [show Scene.refusers ((ofClient (.create SharedClient.plainSetup (.cyclic []) .zero)).scenes
    strandingMoves) [] = [5] from hleft] at hone
  exact hone

end AtRest

end ThreadedClient
end GameLink
