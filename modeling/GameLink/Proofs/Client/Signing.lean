import GameLink.Proofs.Client.Chronicle
import GameLink.Proofs.Client.PoolAtRest

/-!
# Signatures on the wire

Requests to connect go out bare and data of a session goes out sealed.  All else is signed, if
there is room.

**Room.** A message of the application is refused if a pooled buffer cannot hold it and its
signature.  An acknowledgment or a reply is sent all the same, and what does not fit is missing.

**Results.**
* `signs_iff`: what it takes for a datagram to be received as signed.
* `letter_of_sound`: what each datagram of a run is to its receiver.
* `plain_datagrams_signed_exact`: all datagrams of a run, and which of them are signed.
-/

namespace GameLink

/-- A datagram is octets followed by their signature, and who receives it verifies it and is left
with the octets. -/
structure Signs (datagram octets : Bytes) : Prop where
  datagram_eq : datagram = octets ++ Bytes.ofNat 4 (Checksum.crc32c octets).toNat
  verified : ∀ b : Buffer, b.Loaded datagram → ∃ rest, b.verify = .ok rest ∧ rest.Loaded octets

/-- What it takes for a datagram to be received as signed. -/
theorem signs_iff {datagram octets : Bytes} :
    Signs datagram octets ↔ signedBody? datagram = some octets := by
  constructor
  · intro h
    exact signedBody?_eq_some_iff.mpr h.datagram_eq
  · intro h
    exact ⟨signedBody?_eq_some_iff.mp h, fun b hb => hb.verify_of_signed h⟩

/-- What a datagram is to its receiver. -/
def Letter.Says (setup : Setup) (datagram : Bytes) : Letter → Prop
  | .request publicKey cookie => datagram = Client.request publicKey cookie
  | .sealed contents =>
      ∃ (s : Session) (f : Frame), f.Carries setup.suite s contents ∧ datagram = f.datagram
  | .signed contents => Signs datagram contents
  | .packet p =>
      if 7 ≤ setup.settings.performance.bufferCapacity.toNat then
        Signs datagram p.octets ∧ Packet.ReadsAs datagram p
      else
        (∀ octets, ¬ Signs datagram octets) ∧ ¬ Packet.ReadsAs datagram p

/-- With room for a packet and its signature the receiver verifies and reads it, else not. -/
theorem says_packet (setup : Setup) {p : Packet} (hnumber : p.number?.isSome) :
    (Letter.packet p).Says setup
      (p.signedIn setup.settings.performance.bufferCapacity.toNat) := by
  have hbody := Packet.signedBody?_signedIn
    setup.settings.performance.bufferCapacity.toNat hnumber
  simp only [Letter.Says]
  by_cases hroom : 7 ≤ setup.settings.performance.bufferCapacity.toNat
  · rw [if_neg (Nat.not_lt.mpr hroom)] at hbody
    rw [if_pos hroom]
    exact ⟨signs_iff.mpr hbody, Packet.readsAs_of_signed (Packet.proper_of_number hnumber) hbody⟩
  · rw [if_pos (Nat.lt_of_not_le hroom)] at hbody
    rw [if_neg hroom]
    refine ⟨fun octets hsigns => ?_, Packet.not_readsAs_of_unsigned hbody⟩
    rw [signs_iff.mp hsigns] at hbody
    cases hbody

/-- What each datagram of a run is to its receiver. -/
theorem letter_of_sound {setup : Setup} {post : Post}
    (h : post.Sound setup setup.settings.performance.bufferCapacity.toNat) :
    post.letter.Says setup post.datagram := by
  cases h with
  | request publicKey cookie => exact rfl
  | sealed hf => exact ⟨_, _, hf, rfl⟩
  | signed contents => exact signs_iff.mpr (signedBody?_eq_some_iff.mpr rfl)
  | packet hnumber => exact says_packet setup hnumber

namespace ThreadedClient

/-- The datagrams of a run are requests, sealed messages, signed messages, and packets in answer
or acknowledgment.  A signed message is always complete and verified by its receiver.  A packet is
complete, verified and read exactly if a pooled buffer has room for seven octets; with less room it
goes out unsigned or cut off. -/
theorem plain_datagrams_signed_exact (setup : Setup) (entropy : Entropy) (now : Moment)
    (moves : List (Network × Thread × Move)) :
    let start := ofClient (.create setup entropy now)
    let posts := (start.scenes moves).flatMap Scene.posts
    (start.run moves).client.datagrams = posts.map Post.datagram ∧
      ∀ post ∈ posts, post.letter.Says setup post.datagram := by
  intro start posts
  have hsound := sound_ofClient setup entropy now
  obtain ⟨added, hjournal, hrecords⟩ := hsound.records_run moves
  constructor
  · have hnone : start.client.journal = [] := rfl
    rw [hnone, List.nil_append] at hjournal
    rw [Client.datagrams, hjournal]
    exact hrecords.datagrams
  · intro post hpost
    exact letter_of_sound (hsound.posts_run moves post hpost)

/-- A setup whose buffers hold four octets. -/
def cutOffSetup : Setup :=
  { SharedClient.plainSetup with
    settings :=
      { SharedClient.plainSetup.settings with
        performance := { poolPrealloc := 0, bufferCapacity := 4 } } }

/-- The client connects, the acceptance is read, and an acknowledgment is sent. -/
def ackMoves : List (Network × Thread × Move) :=
  linked ++ onThread 1 [.errand (.sendAck 5)]

/-- The acknowledgment goes out without a signature, and its receiver does not read it. -/
theorem acknowledgment_sent_unsigned :
    ((ofClient (.create cutOffSetup (.cyclic []) .zero)).run ackMoves).client.datagrams =
        [[PacketKind.connect.tag], [PacketKind.ack.tag, 5, 0]] ∧
      (∀ octets, ¬ Signs [PacketKind.ack.tag, 5, 0] octets) ∧
      ¬ Packet.ReadsAs [PacketKind.ack.tag, 5, 0] (.ack 5) := by
  obtain ⟨-, hletters⟩ :=
    plain_datagrams_signed_exact cutOffSetup (.cyclic []) .zero ackMoves
  have hack : ⟨.packet (.ack 5), [PacketKind.ack.tag, 5, 0]⟩ ∈
      ((ofClient (.create cutOffSetup (.cyclic []) .zero)).scenes ackMoves).flatMap
        Scene.posts := by
    decide +kernel
  obtain ⟨hunsigned, hunread⟩ := hletters _ hack
  exact ⟨by decide +kernel, hunsigned, hunread⟩

end ThreadedClient
end GameLink
