import GameLink.Proofs.Client.Reachable
import GameLink.Proofs.Packet

/-!
# Garbage

Datagrams that a client drops: they come from a stranger, belong to the secure channel and
cannot be opened, or do not and are neither a cookie nor a signed packet.

**Results.**
* `handleDatagram_of_refused`: what a dropped datagram of the server leaves behind.
* `drain_of_garbage`: garbage in front of other datagrams is read as if it were not there, but
  for counters and free buffers.
* `garbage_inert`: the same of every client that can be met.
-/

namespace GameLink
namespace Client

variable {c c' c'' : Client} {bytes : Bytes} {remote : Address}

/-- A datagram of the server that a client drops. -/
inductive Refused (c : Client) (bytes : Bytes) : Prop
  /-- What is packed cannot be unpacked. -/
  | broken {s : Session} {header : Header} {failure : Failure}
      (hheader : c.secureHeader? bytes = some (s, header))
      (hunpack :
        Packing.unpack ⟨bytes.drop Header.size, header.flags.compressed⟩ = .error failure)
  /-- The number was received before, or is too old. -/
  | replayed {s : Session} {header : Header} {sealed : Bytes}
      (hheader : c.secureHeader? bytes = some (s, header))
      (hunpack : Packing.unpack ⟨bytes.drop Header.size, header.flags.compressed⟩ = .ok sealed)
      (hseen : s.received.isFresh header.sequence = false)
  /-- The number is fresh, but the payload is not authentic. -/
  | forged {s : Session} {header : Header} {sealed : Bytes}
      (hheader : c.secureHeader? bytes = some (s, header))
      (hunpack : Packing.unpack ⟨bytes.drop Header.size, header.flags.compressed⟩ = .ok sealed)
      (hfresh : s.received.isFresh header.sequence = true)
      (hopen :
        c.setup.suite.open? s.receiveKey (s.nonce header.sequence) header.associatedData sealed =
          none)
  | unsigned
      (hheader : c.secureHeader? bytes = none) (hcookie : bareCookie? bytes = none)
      (hsigned : signedBody? bytes = none)
  /-- What is signed is no packet. -/
  | undecodable {body : Bytes}
      (hheader : c.secureHeader? bytes = none) (hcookie : bareCookie? bytes = none)
      (hsigned : signedBody? bytes = some body) (hbody : Packet.Undecodable body)

/-- A datagram that a client drops. -/
inductive Garbage (c : Client) (remote : Address) (arrival : Arrival) : Prop
  | stranger (h : arrival.sender ≠ remote)
  | refused (h : c.Refused arrival.datagram)

/-- From one client to the next nothing changes but counters and the free buffers of the pool:
the link, the socket, the session and all else are the same, nothing is sent or raised. -/
structure Undisturbed (c c' : Client) : Prop where
  same : c' = { c with pool := c'.pool, journal := c'.journal }
  counted : ∃ tallies : List Tally, c'.journal = c.journal ++ tallies.map .counted
  pool : Pool.Settled c.pool c'.pool

namespace Undisturbed

theorem refl (h : c.pool.Uniform) : Undisturbed c c where
  same := rfl
  counted := ⟨[], (List.append_nil _).symm⟩
  pool := .refl h

theorem trans (h : Undisturbed c c') (h' : Undisturbed c' c'') : Undisturbed c c'' where
  same := by
    rw [h'.same, h.same]
  counted := by
    obtain ⟨first, hfirst⟩ := h.counted
    obtain ⟨second, hsecond⟩ := h'.counted
    exact ⟨first ++ second, by rw [hsecond, hfirst, List.append_assoc, List.map_append]⟩
  pool := h.pool.trans h'.pool

theorem count (h : Undisturbed c c') (tally : Tally) : Undisturbed c (c'.count tally) where
  same := by
    rw [h.same]
    rfl
  counted := by
    obtain ⟨tallies, htallies⟩ := h.counted
    refine ⟨tallies ++ [tally], ?_⟩
    rw [List.map_append, ← List.append_assoc, ← htallies]
    rfl
  pool := h.pool

theorem countAll (h : Undisturbed c c') (tallies : List Tally) :
    Undisturbed c (c'.countAll tallies) := by
  induction tallies generalizing c' with
  | nil => exact h
  | cons tally rest ih => exact ih (h.count tally)

theorem withPool {pool : Pool} (h : Undisturbed c c') (hpool : Pool.Settled c.pool pool) :
    Undisturbed c { c' with pool } where
  same := by rw [h.same]
  counted := h.counted
  pool := hpool

/-- Garbage is still garbage. -/
theorem refused (h : Undisturbed c c') (hbytes : c.Refused bytes) : c'.Refused bytes := by
  rw [h.same]
  cases hbytes with
  | broken hheader hunpack => exact .broken hheader hunpack
  | replayed hheader hunpack hseen => exact .replayed hheader hunpack hseen
  | forged hheader hunpack hfresh hopen => exact .forged hheader hunpack hfresh hopen
  | unsigned hheader hcookie hsigned => exact .unsigned hheader hcookie hsigned
  | undecodable hheader hcookie hsigned hbody =>
      exact .undecodable hheader hcookie hsigned hbody

theorem garbage (h : Undisturbed c c') {arrival : Arrival} (hgarbage : c.Garbage remote arrival) :
    c'.Garbage remote arrival := by
  cases hgarbage with
  | stranger hsender => exact .stranger hsender
  | refused hbytes => exact .refused (h.refused hbytes)

end Undisturbed

/-- A datagram of the secure channel that is not opened is dropped. -/
theorem refused_of_not_opened
    (hsecure : (c.secureHeader? bytes).isSome) (hopened : Handling.opened? ⟨c, bytes⟩ = none) :
    c.Refused bytes := by
  obtain ⟨⟨s, header⟩, hheader⟩ := Option.isSome_iff_exists.mp hsecure
  simp only [Handling.opened?, hheader] at hopened
  cases hunpack : Packing.unpack ⟨bytes.drop Header.size, header.flags.compressed⟩ with
  | error failure => exact .broken hheader hunpack
  | ok sealed =>
      simp only [Session.openPacked, hunpack, bind, Except.bind, Session.openAt] at hopened
      cases hfresh : s.received.isFresh header.sequence with
      | false => exact .replayed hheader hunpack hfresh
      | true =>
          simp only [hfresh, if_true] at hopened
          cases hopen : c.setup.suite.open? s.receiveKey (s.nonce header.sequence)
              header.associatedData sealed with
          | none => exact .forged hheader hunpack hfresh hopen
          | some message =>
              simp only [hopen] at hopened
              cases hopened

section OneDatagram

/-- A payload that is not opened is only counted. -/
theorem openSecure_of_error
    {s : Session} {header : Header} {failure : Failure}
    (h : s.openPacked c.setup.suite ⟨bytes.drop Header.size, header.flags.compressed⟩
      header.associatedData header.sequence = .error failure) :
    c.openSecure s header bytes = c.countAll (Session.openingTallies failure) := by
  simp only [openSecure, h]

/-- A buffer with octets that are no packet is dropped, before the peer counts as heard. -/
theorem handlePlain_of_undecodable
    (net : Network) (remote : Address) {b : Buffer} {body : Bytes}
    (hloaded : b.Loaded bytes) (hsigned : signedBody? bytes = some body)
    (hbody : Packet.Undecodable body) :
    c.handlePlain net remote b = (.goOn, c) := by
  obtain ⟨b', hverify, hbody'⟩ := hloaded.verify_of_signed hsigned
  have hunread : b'.unread = body := by
    rw [Buffer.unread, hbody'.contents, hbody'.position, List.drop_zero]
  have hroom : b'.length ≤ b'.capacity := by
    have hlength := congrArg List.length hbody'.contents
    rw [Buffer.contents, List.length_take, ← hbody'.length] at hlength
    rw [Buffer.capacity]
    omega
  rcases Packet.decode_cases hroom with ⟨-, failure, hfailure⟩ | ⟨_, _, _, hgood, _⟩
  · simp only [handlePlain, hverify]
    generalize Packet.decode b' = outcome at hfailure ⊢
    obtain ⟨_ | _, _⟩ := outcome
    · rfl
    · cases hfailure
  · rw [hunread] at hgood
    exact absurd hbody hgood

theorem countAll_withInbox (c : Client) (inbox : List Arrival) (tallies : List Tally) :
    (c.withInbox inbox).countAll tallies = (c.countAll tallies).withInbox inbox := by
  induction tallies generalizing c with
  | nil => rfl
  | cons tally rest ih => exact ih (c.count tally)

theorem loadedBuffer_withInbox (c : Client) (inbox : List Arrival) (bytes : Bytes) :
    (c.withInbox inbox).loadedBuffer bytes =
      ((c.loadedBuffer bytes).1, (c.loadedBuffer bytes).2.withInbox inbox) := by
  have hpool : (c.withInbox inbox).pool = c.pool := rfl
  simp only [loadedBuffer, hpool]
  split
  · rfl
  · rfl

/-- What a dropped datagram of the server leaves behind, whatever waits in the socket. -/
theorem handleDatagram_of_refused
    (hpool : c.pool.Uniform) (hbytes : c.Refused bytes) (net : Network) (remote : Address) :
    ∃ c', Undisturbed c c' ∧ ∀ inbox,
      (c.withInbox inbox).handleDatagram net remote bytes = (.goOn, c'.withInbox inbox) := by
  have hsealed {s : Session} {header : Header} (failure : Failure)
      (hheader : c.secureHeader? bytes = some (s, header))
      (hopen : s.openPacked c.setup.suite ⟨bytes.drop Header.size, header.flags.compressed⟩
        header.associatedData header.sequence = .error failure) :
      ∃ c', Undisturbed c c' ∧ ∀ inbox,
        (c.withInbox inbox).handleDatagram net remote bytes = (.goOn, c'.withInbox inbox) := by
    refine ⟨_, (Undisturbed.refl hpool).countAll (Session.openingTallies failure), ?_⟩
    intro inbox
    have hheader' : (c.withInbox inbox).secureHeader? bytes = some (s, header) := hheader
    simp only [handleDatagram, hheader', openSecure_of_error (c := c.withInbox inbox) hopen,
      countAll_withInbox]
  obtain ⟨pool, hrest, hsettled⟩ := settled_loadedBuffer hpool bytes
  have hloaded := loaded_loadedBuffer bytes hpool
  have hreturned := (Undisturbed.refl hpool).withPool hsettled
  cases hbytes with
  | broken hheader hunpack =>
      exact hsealed _ hheader (by rw [Session.openPacked, hunpack]; rfl)
  | @replayed s header sealed hheader hunpack hseen =>
      refine hsealed (.replayed header.sequence) hheader ?_
      simp only [Session.openPacked, hunpack, bind, Except.bind, Session.openAt, hseen]
      rfl
  | forged hheader hunpack hfresh hopen =>
      refine hsealed .decryption hheader ?_
      simp only [Session.openPacked, hunpack, bind, Except.bind, Session.openAt, hfresh, hopen,
        if_true]
  | unsigned hheader hcookie hsigned =>
      obtain ⟨failure, hverify⟩ := hloaded.verify_of_unsigned hsigned
      refine ⟨_, hreturned.count .checksumFailure, fun inbox => ?_⟩
      have hheader' : (c.withInbox inbox).secureHeader? bytes = none := hheader
      simp only [handleDatagram, hheader', hcookie, loadedBuffer_withInbox, handlePlain, hverify,
        hrest]
      rfl
  | undecodable hheader hcookie hsigned hbody =>
      refine ⟨_, hreturned, fun inbox => ?_⟩
      have hheader' : (c.withInbox inbox).secureHeader? bytes = none := hheader
      simp only [handleDatagram, hheader', hcookie, loadedBuffer_withInbox,
        handlePlain_of_undecodable net remote hloaded hsigned hbody, hrest]
      rfl

end OneDatagram

section Bursts

/-- Garbage is read and the reading goes on. -/
theorem read_of_garbage
    (hpool : c.pool.Uniform) {arrival : Arrival} (hgarbage : c.Garbage remote arrival)
    (net : Network) :
    ∃ c', Undisturbed c c' ∧ ∀ inbox,
      (c.withInbox inbox).read net remote arrival = (.goOn, c'.withInbox inbox) := by
  simp only [read]
  split
  · rename_i hsender
    cases hgarbage with
    | stranger hother => exact absurd hsender hother
    | refused hbytes =>
        have hcounted := (Undisturbed.refl hpool).count (.received arrival.datagram.length)
        generalize hc : c.count (.received arrival.datagram.length) = counted at hcounted
        have hinbox (inbox : List Arrival) :
            (c.withInbox inbox).count (.received arrival.datagram.length) =
              counted.withInbox inbox := by
          rw [← hc]
          rfl
        simp only [hinbox]
        split
        · exact ⟨counted, hcounted, fun _ => rfl⟩
        · obtain ⟨c', hafter, hhandled⟩ := handleDatagram_of_refused hcounted.pool.uniform
            (hcounted.refused hbytes) net remote
          exact ⟨c', hcounted.trans hafter, hhandled⟩
  · exact ⟨c, .refl hpool, fun _ => rfl⟩

/-- Garbage in front of other datagrams is read as if it were not there, but for counters and
free buffers. -/
theorem drain_of_garbage
    (hpool : c.pool.Uniform) (net : Network) {garbage : List Arrival}
    (hgarbage : ∀ arrival ∈ garbage, c.Garbage remote arrival) :
    ∃ c', Undisturbed c c' ∧ ∀ rest,
      drain net remote (garbage ++ rest) (c.withInbox (garbage ++ rest)) =
        drain net remote rest (c'.withInbox rest) := by
  -- what is garbage for a client is garbage for it after it has read other garbage
  induction garbage generalizing c with
  | nil => exact ⟨c, .refl hpool, fun _ => rfl⟩
  | cons arrival others ih =>
      obtain ⟨hfirst, hothers⟩ := List.forall_mem_cons.mp hgarbage
      obtain ⟨c', hafter, hread⟩ := read_of_garbage hpool hfirst net
      obtain ⟨c'', hlast, hdrain⟩ :=
        ih hafter.pool.uniform fun other hmem => hafter.garbage (hothers other hmem)
      refine ⟨c'', hafter.trans hlast, fun rest => ?_⟩
      have hinbox : (c.withInbox (arrival :: others ++ rest)).withInbox (others ++ rest) =
          c.withInbox (others ++ rest) := by
        simp [withInbox, Function.comp_def]
      rw [List.cons_append, drain_cons, ← List.cons_append, hinbox, hread]
      exact hdrain rest

/-- Whatever happened to a client, garbage does nothing to it: its link with all clocks, its
socket and its session stay the same, so that no sequence number is used up and the silence of
the server goes on; nothing is sent or raised, and the datagrams behind are read.  Only counters
move, and free buffers in the pool. -/
theorem garbage_inert
    (hc : Reachable c) (net : Network) {garbage : List Arrival}
    (hgarbage : ∀ arrival ∈ garbage, c.Garbage remote arrival) :
    ∃ c', Undisturbed c c' ∧ ∀ rest,
      drain net remote (garbage ++ rest) (c.withInbox (garbage ++ rest)) =
        drain net remote rest (c'.withInbox rest) :=
  drain_of_garbage hc.ready.uniform net hgarbage

/-- A client that is connected with a session. -/
def sampleConnected : Client :=
  (create sampleSetup (.cyclic []) .zero).run
    [(.single 1, .connectConfigured),
      (.single 1, .deliver ⟨⟨1, 3565⟩, sampleAcceptance⟩),
      (.single 1, .pollTurn)]

/-- A header of the session with the highest number of all; its payload unpacks to fifteen
zeros, too short to be authentic. -/
def forgedDatagram : Bytes :=
  Header.toBytes
      { connectionId := 7
        channel := .reliableOrdered
        flags := { encrypted := true, chaCha20Poly1305 := true, compressed := true }
        sequence := Session.lastNumber }
    ++ 0xf0 :: 0 :: List.replicate 15 0

/-- A disconnect of a stranger, a forged datagram, an unsigned one, and a signed one that is no
packet. -/
def sampleGarbage : List Arrival :=
  [⟨⟨2, 3565⟩, signedDatagram [6]⟩, ⟨⟨1, 3565⟩, forgedDatagram⟩, ⟨⟨1, 3565⟩, [6, 0, 0, 0, 0]⟩,
    ⟨⟨1, 3565⟩, signedDatagram [255]⟩]

/-- A connected client passes over a burst of garbage. -/
theorem forged_header_inert :
    sampleConnected.isSecure = true ∧
      (∀ arrival ∈ sampleGarbage, sampleConnected.Garbage ⟨1, 3565⟩ arrival) ∧
      ∃ c', Undisturbed sampleConnected c' ∧ ∀ rest,
        drain (.single 1) ⟨1, 3565⟩ (sampleGarbage ++ rest)
            (sampleConnected.withInbox (sampleGarbage ++ rest)) =
          drain (.single 1) ⟨1, 3565⟩ rest (c'.withInbox rest) := by
  have hsession : sampleConnected.isSecure = true ∧
      (sampleConnected.secureHeader? forgedDatagram).isSome = true ∧
      Handling.opened? ⟨sampleConnected, forgedDatagram⟩ = none := by
    decide +kernel
  obtain ⟨hsecure, hheader, hopened⟩ := hsession
  have hunassigned : signedBody? (signedDatagram [255]) = some [255] := by
    decide +kernel
  have hgarbage : ∀ arrival ∈ sampleGarbage, sampleConnected.Garbage ⟨1, 3565⟩ arrival := by
    simp only [sampleGarbage, List.forall_mem_cons]
    refine ⟨.stranger (by decide), .refused (refused_of_not_opened hheader hopened),
      .refused (.unsigned rfl rfl (by decide +kernel)),
      .refused (.undecodable rfl rfl hunassigned (.unassigned 255 [] ?_)),
      by simp⟩
    intro kind
    cases kind <;> decide
  exact ⟨hsecure, hgarbage,
    garbage_inert (reachable_run (.create sampleSetup (.cyclic []) .zero) _) (.single 1) hgarbage⟩

end Bursts

end Client
end GameLink
