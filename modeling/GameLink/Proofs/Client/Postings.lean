import GameLink.Client.Posting
import GameLink.Proofs.Client.Sending
import GameLink.Proofs.SignedPacket

/-!
# What making a datagram comes to

A call to send fails, or its datagram waits: a frame, or a pooled buffer with contents or an
acknowledgment and their signature.

**Results.**
* `packs_sealOutbound`: sealing counts nothing but packing.
* `prepares`: all that making a datagram can come to.
* `Prepares.sound`: what a posting holds.
-/

namespace GameLink

/-- Whether a tally is about the packing of payloads. -/
def Tally.isPacking : Tally → Bool
  | .packingAttempt | .packingSuccess => true
  | _ => false

/-- Only packing is counted when a payload is packed. -/
theorem isPacking_of_pack {packs : Bool} {threshold : Nat} {sealed : Bytes} {packed : Packed}
    {tallies : List Tally}
    (h : (packed, tallies) =
      if packs then Packing.pack threshold sealed else (⟨sealed, false⟩, [])) :
    ∀ tally ∈ tallies, tally.isPacking = true := by
  split at h
  · simp only [Packing.pack] at h
    split at h
    · cases h
      simp
    · split at h
      · cases h
        simp [Tally.isPacking]
      · cases h
        simp [Tally.isPacking]
  · cases h
    simp

namespace Client

variable {c : Client}

@[simp] theorem journal_countAll (c : Client) (tallies : List Tally) :
    (c.countAll tallies).journal = c.journal ++ tallies.map Effect.counted := by
  induction tallies generalizing c with
  | nil => exact (List.append_nil _).symm
  | cons tally rest ih =>
      refine (ih (c.count tally)).trans ?_
      simp [count, note]

theorem pool_countAll (c : Client) (tallies : List Tally) :
    (c.countAll tallies).pool = c.pool := by
  induction tallies generalizing c with
  | nil => rfl
  | cons tally rest ih => exact ih (c.count tally)

theorem setup_countAll (c : Client) (tallies : List Tally) :
    (c.countAll tallies).setup = c.setup := by
  induction tallies generalizing c with
  | nil => rfl
  | cons tally rest ih => exact ih (c.count tally)

/-- Nothing but packing is counted from one client to the next, and no buffer is used. -/
structure Packs (c c' : Client) : Prop where
  setup : c'.setup = c.setup
  pool : c'.pool = c.pool
  journal : ∃ tallies : List Tally,
    (∀ tally ∈ tallies, tally.isPacking = true) ∧
      c'.journal = c.journal ++ tallies.map Effect.counted

theorem Packs.refl (c : Client) : Packs c c :=
  ⟨rfl, rfl, [], by simp, (List.append_nil _).symm⟩

/-- Sealing counts nothing but packing. -/
theorem packs_sealOutbound (c : Client) (contents : Bytes) :
    Packs c (c.sealOutbound contents).2 := by
  unfold sealOutbound
  split
  · rename_i channel s _ _
    dsimp only
    split
    · exact .refl c
    · rename_i packed tallies s' hsealed
      obtain ⟨sealed, -, hpack⟩ := sealPayload_eq_ok_iff.mp hsealed
      exact ⟨setup_countAll _ _, pool_countAll _ _, tallies, isPacking_of_pack hpack,
        journal_countAll _ _⟩
  · exact .refl c

/-- The pool of a client whose buffer was taken. -/
def taken (c : Client) : Client :=
  { c with pool := (c.pool.acquire thread).2 }

/-- The pool of a client whose buffer was taken and given back, and not shared. -/
def keptBack (c : Client) : Client :=
  { c with pool := (c.pool.acquire thread).2.release thread (c.pool.acquire thread).1 }

/-- All that making the datagram of a call to send can come to. -/
inductive Prepares (c : Client) (remote : Address) :
    OutgoingMessage → Except Failure Posting × Client → Prop
  /-- No datagram is made, or one that is too long for all. -/
  | failed {message : OutgoingMessage} {failure : Failure}
      (hfailure : ∀ size, failure ≠ .malformed (.overCapacity size))
      {c' : Client} (hpacks : Packs c c') : Prepares c remote message (.error failure, c')
  /-- A buffer is too small for what datagrams may be. -/
  | refused {contents : Bytes}
      (hlimit : contents.length + Buffer.signatureSize ≤ c.sizeLimit)
      (hcapacity : c.pool.bufferCapacity < contents.length + Buffer.signatureSize) :
      Prepares c remote (.data contents)
        (.error (.malformed (.overCapacity (contents.length + Buffer.signatureSize))), c.keptBack)
  | sealed {contents : Bytes} {s : Session} {f : Frame}
      (hf : f.Carries c.setup.suite s contents) {c' : Client} (hpacks : Packs c c') :
      Prepares c remote (.data contents) (.ok ⟨.data contents, remote, .sealed f.datagram⟩, c')
  | signed {contents : Bytes} {b : Buffer}
      (hroom : contents.length + Buffer.signatureSize ≤ c.pool.bufferCapacity)
      (hcapacity : b.capacity = c.pool.bufferCapacity)
      (hcontents : b.contents =
        contents ++ Bytes.ofNat 4 (Checksum.crc32c contents).toNat) :
      Prepares c remote (.data contents) (.ok ⟨.data contents, remote, .pooled b⟩, c.taken)
  | ack (sequence : UInt16) {b : Buffer}
      (hcapacity : b.capacity = c.pool.bufferCapacity)
      (hcontents : b.contents = (Packet.ack sequence).signedIn c.pool.bufferCapacity) :
      Prepares c remote (.ack sequence) (.ok ⟨.ack sequence, remote, .pooled b⟩, c.taken)

/-- A buffer is signed, too small, or the datagram is too long for any. -/
theorem prepares_signed (hpool : c.pool.Uniform) (contents : Bytes) (remote : Address) :
    Prepares c remote (.data contents)
      (match c.signed contents with
        | (.error failure, c) => (.error failure, c)
        | (.ok b, c) => (.ok ⟨.data contents, remote, .pooled b⟩, c)) := by
  have hspare := hpool.spare_acquire thread
  simp only [Client.signed, checkSize]
  by_cases hlarge : c.sizeLimit < contents.length + Buffer.signatureSize
  · rw [if_pos hlarge]
    exact .failed (by simp) (.refl c)
  · rw [if_neg hlarge]
    dsimp only
    rw [hspare.capacity]
    by_cases hcapacity : c.pool.bufferCapacity < contents.length + Buffer.signatureSize
    · rw [if_pos hcapacity]
      exact .refused (Nat.le_of_not_lt hlarge) hcapacity
    · rw [if_neg hcapacity]
      have hposition : (c.pool.acquire thread).1.position = 0 := by
        rw [← hspare.reset]
        rfl
      have hlength : (c.pool.acquire thread).1.length = 0 := by
        rw [← hspare.reset]
        rfl
      have hroom := Nat.le_of_not_lt hcapacity
      refine .signed hroom ?_ (Buffer.contents_sign_write hposition hlength ?_).2
      · rw [Buffer.capacity_sign, Buffer.capacity_write, hspare.capacity]
      · rw [hspare.capacity]
        exact hroom

/-- All that making a datagram can come to. -/
theorem prepares (hpool : c.pool.Uniform) (remote : Address) (message : OutgoingMessage) :
    Prepares c remote message (c.prepare remote message) := by
  cases message with
  | ack sequence =>
      have hspare := hpool.spare_acquire thread
      simp only [prepare]
      refine .ack sequence ?_ (Packet.contents_sign_encode hspare rfl)
      rw [Buffer.capacity_sign, Packet.capacity_encode, hspare.capacity]
  | data contents =>
      have hpacks := packs_sealOutbound c contents
      have hseals := seals_sealOutbound c contents
      simp only [prepare]
      generalize c.sealOutbound contents = outcome at hpacks hseals ⊢
      cases hseals with
      | notSealed hplain hmade => exact prepares_signed hpool contents remote
      | refused s hs hmade failure hfailure =>
          refine .failed (fun size => ?_) hpacks
          rcases hfailure with rfl | rfl
          · simp
          · simp
      | framed s hs f hf hlast hmade tallies =>
          by_cases hlarge : c.sizeLimit < f.datagram.length
          · simp only [checkSize, if_pos hlarge]
            exact .failed (by simp) hpacks
          · simp only [checkSize, if_neg hlarge]
            exact .sealed hf hpacks

end Client

/-- What a posting holds: the datagram is what was asked for, as a frame or in a buffer of the
pool's capacity. -/
inductive Posting.Sound (setup : Setup) (capacity : Nat) : Posting → Prop
  | sealed {contents : Bytes} (remote : Address) {s : Session} {f : Frame}
      (hf : f.Carries setup.suite s contents) :
      Sound setup capacity ⟨.data contents, remote, .sealed f.datagram⟩
  | signed {contents : Bytes} (remote : Address) {b : Buffer}
      (hroom : contents.length + Buffer.signatureSize ≤ capacity)
      (hcapacity : b.capacity = capacity)
      (hcontents : b.contents = contents ++ Bytes.ofNat 4 (Checksum.crc32c contents).toNat) :
      Sound setup capacity ⟨.data contents, remote, .pooled b⟩
  | ack (sequence : UInt16) (remote : Address) {b : Buffer} (hcapacity : b.capacity = capacity)
      (hcontents : b.contents = (Packet.ack sequence).signedIn capacity) :
      Sound setup capacity ⟨.ack sequence, remote, .pooled b⟩

theorem Client.Prepares.sound {c c' : Client} {remote : Address} {message : OutgoingMessage}
    {posting : Posting} (h : c.Prepares remote message (.ok posting, c')) :
    posting.Sound c.setup c.pool.bufferCapacity := by
  cases h with
  | sealed hf hpacks => exact .sealed remote hf
  | signed hroom hcapacity hcontents => exact .signed remote hroom hcapacity hcontents
  | ack sequence hcapacity hcontents => exact .ack sequence remote hcapacity hcontents

end GameLink
