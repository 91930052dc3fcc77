import GameLink.Proofs.Client.Lifecycle

/-!
# Clients that can be met

What may happen to a client finds it between two actions, or, in a burst of datagrams, between
two of them.

**Results.**
* `Reachable.ready`: the parts of a client that can be met agree, and its buffers are of one
  capacity.
* `ready_readHandlings`: the same of a client when it handles a datagram.
-/

namespace GameLink
namespace Client

variable {c : Client}

/-- A client that can be met. -/
inductive Reachable : Client → Prop
  | create (setup : Setup) (entropy : Entropy) (now : Moment) :
      Reachable (create setup entropy now)
  | act {c : Client} (h : Reachable c) (net : Network) (action : Action) :
      Reachable (c.act net action).2
  /-- The first datagram that waits in the socket is read, the others still wait. -/
  | read {c : Client} (h : Reachable c) (net : Network)
      {remote : Address} (hremote : c.link.remote = some remote)
      {arrival : Arrival} {rest : List Arrival}
      (hsocket : c.socket = some ⟨arrival :: rest⟩) :
      Reachable ((c.withInbox rest).read net remote arrival).2

namespace Ready

theorem create (setup : Setup) (entropy : Entropy) (now : Moment) :
    (create setup entropy now).Ready where
  sound := by constructor <;> simp [Client.create, standing, Link.idle]
  uniform := (Pool.Uniform.empty _).preallocate _ _

/-- A client with a server has not given up its link. -/
theorem isOpen (hc : c.Ready) {remote : Address} (hremote : c.link.remote = some remote) :
    c.standing.status ≠ .disconnected := by
  intro hstatus
  have hnone : c.link.remote = none := (hc.sound.disconnected hstatus).1
  rw [hremote] at hnone
  cases hnone

theorem counted (hc : c.Ready) (rest : List Arrival) (tally : Tally) :
    ((c.withInbox rest).count tally).Ready :=
  hc.of_same (by rw [standing_count, standing_withInbox]) rfl

theorem read
    (hc : c.Ready) (hopen : c.standing.status ≠ .disconnected)
    (net : Network) (remote : Address) (arrival : Arrival) (rest : List Arrival) :
    ((c.withInbox rest).read net remote arrival).2.Ready := by
  have hcounted := hc.counted rest (.received arrival.datagram.length)
  simp only [Client.read]
  split
  · split
    · exact hcounted
    · refine hcounted.handleDatagram net remote arrival.datagram ?_
      rw [standing_count, standing_withInbox]
      exact hopen
  · exact hc.of_same (standing_withInbox c rest) rfl

end Ready

theorem Reachable.ready (hc : Reachable c) : c.Ready := by
  induction hc with
  | create setup entropy now => exact .create setup entropy now
  | act _ net action ih => exact ih.act net action
  | read _ net hremote _ ih => exact ih.read (ih.isOpen hremote) net _ _ _

theorem reachable_run (hc : Reachable c) (actions : List (Network × Action)) :
    Reachable (c.run actions) := by
  induction actions generalizing c with
  | nil => exact hc
  | cons taken rest ih => exact ih (hc.act taken.1 taken.2)

section Handlings

theorem ready_burst
    (net : Network) (remote : Address) (arrivals : List Arrival)
    (hc : c.Ready) (hopen : c.standing.status ≠ .disconnected) :
    ∀ h ∈ burst net remote arrivals c, h.client.Ready := by
  induction arrivals generalizing c with
  | nil => simp [burst]
  | cons arrival rest ih =>
      have hcounted := hc.counted rest (.received arrival.datagram.length)
      have hstillOpen :
          ((c.withInbox rest).count (.received arrival.datagram.length)).standing.status ≠
            .disconnected := by
        rw [standing_count, standing_withInbox]
        exact hopen
      simp only [burst]
      split
      · generalize (c.withInbox rest).count (.received arrival.datagram.length) = counted
          at hcounted hstillOpen ⊢
        split
        · exact ih hcounted hstillOpen
        · have hleads := leads_handleDatagram net remote arrival.datagram hstillOpen
          have hnext := hcounted.handleDatagram net remote arrival.datagram hstillOpen
          generalize counted.handleDatagram net remote arrival.datagram = outcome
            at hleads hnext ⊢
          obtain ⟨_ | _, after⟩ := outcome
          · exact List.forall_mem_cons.mpr ⟨hcounted, ih hnext (hleads.2 rfl)⟩
          · exact List.forall_mem_cons.mpr ⟨hcounted, by simp⟩
      · exact ih (hc.of_same (standing_withInbox c rest) rfl) (by
          rw [standing_withInbox]
          exact hopen)

theorem ready_readHandlings (net : Network) (hc : c.Ready) :
    ∀ h ∈ c.readHandlings net, h.client.Ready := by
  unfold readHandlings
  split
  · rename_i remote socket hremote _
    exact ready_burst net remote socket.inbox hc (hc.isOpen hremote)
  · simp

end Handlings

end Client
end GameLink
