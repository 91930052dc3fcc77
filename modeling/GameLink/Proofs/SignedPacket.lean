import GameLink.Proofs.Packet
import GameLink.Proofs.Pool

/-!
# Signed packets

A packet is written into a pooled buffer and signed there.  What does not fit is left out: first
the signature, then the fields, then the tag.

**Results.**
* `contents_sign_encode`: what a packet with a number comes to in a buffer of any capacity.
* `signedBody?_signedIn`: it is signed if the buffer has seven octets, and otherwise not.
* `decode_congr`: what is decoded depends on the octets that are left.
* `readsAs_of_signed`: who receives a signed packet verifies it and reads it.
-/

namespace GameLink

namespace Buffer

variable {b : Buffer}

@[simp] theorem capacity_sign (b : Buffer) : b.sign.capacity = b.capacity :=
  capacity_write _ _

theorem Loaded.left {bytes : Bytes} (h : b.Loaded bytes) : b.Left bytes where
  position_le := by
    rw [h.position]
    exact Nat.zero_le _
  unread := by rw [unread, h.contents, h.position, List.drop_zero]
  length_le := by
    rw [h.length, ← h.contents]
    exact List.length_take_le' _ _

/-- A signature that does not fit is left out. -/
theorem contents_sign_of_not_fits (h : b.capacity < b.length + signatureSize) :
    b.sign.contents = b.contents := by
  have hnot : ({ b with position := b.length } : Buffer).fits
      (Scalar.u32 (Checksum.crc32c b.contents)).toBytes.length = false :=
    decide_eq_false (Nat.not_le.mpr h)
  rw [sign, writeU32, writeScalar, write_of_not_fits hnot]
  rfl

end Buffer

namespace Packet

open Buffer

variable {b : Buffer} {p : Packet} {capacity : Nat}

@[simp] theorem capacity_encode (p : Packet) (b : Buffer) :
    (p.encode b).capacity = b.capacity := by
  have hcapacity (b : Buffer) : (writeFields b p).capacity = b.capacity := by
    cases p with
    | connect key token =>
        rcases key with _ | key
        · rfl
        · rcases token with _ | token
          · exact capacity_write _ _
          · simp only [writeFields, capacity_write]
    | connectionAccepted a =>
        obtain ⟨_ | id, _ | keys⟩ := a
        · rfl
        · simp only [writeFields, writeAcceptance, Option.elim_some, Option.elim_none,
            capacity_write]
        · exact capacity_write _ _
        · simp only [writeFields, writeAcceptance, Option.elim_some, capacity_write]
          exact capacity_write _ _
    | ping _ | pong _ | ack _ | checkIntegrity _ | cookie _ => exact capacity_write _ _
    | reliable | unreliable | disconnect | error | connectionDenied => rfl
  rw [encode, hcapacity]
  exact capacity_write _ _

theorem length_octets_of_number (h : p.number?.isSome) : p.octets.length = 3 := by
  rw [octets, List.length_cons, length_fieldOctets_of_number h]

section Writing

/-- What is sent of a packet with a number that is signed in a buffer of a capacity. -/
def signedIn (p : Packet) (capacity : Nat) : Bytes :=
  if capacity < 1 then []
  else if capacity < 3 then [p.kind.tag]
  else if capacity < 7 then p.octets
  else p.octets ++ Bytes.ofNat 4 (Checksum.crc32c p.octets).toNat

/-- What is sent of a packet begins with its tag, if there is anything of it. -/
theorem tag_of_signedIn {capacity : Nat} {tag : UInt8} (h : (p.signedIn capacity).head? = some tag) :
    tag = p.kind.tag := by
  unfold signedIn at h
  split at h
  · cases h
  · split at h
    · exact (Option.some.inj h).symm
    · split at h
      · exact (Option.some.inj h).symm
      · exact (Option.some.inj h).symm

theorem contents_of_empty {b : Buffer} (h : b.length = 0) : b.contents = [] := by
  rw [contents, h, List.take_zero]

/-- A number that does not fit is left out. -/
theorem encode_of_short (hnumber : p.number?.isSome)
    (h : (b.writeU8 p.kind.tag).fits 2 = false) : p.encode b = b.writeU8 p.kind.tag := by
  have hskip (v : UInt16) : (b.writeU8 p.kind.tag).writeU16 v = b.writeU8 p.kind.tag :=
    write_of_not_fits h
  cases p with
  | ping v | pong v | ack v | checkIntegrity v => exact hskip v
  | _ => cases hnumber

/-- What is in a spare buffer after a packet with a number was written and signed. -/
theorem contents_sign_encode (hspare : Pool.Spare capacity b) (hnumber : p.number?.isSome) :
    (p.encode b).sign.contents = p.signedIn capacity := by
  have hposition : b.position = 0 := by
    rw [← hspare.reset]
    rfl
  have hlength : b.length = 0 := by
    rw [← hspare.reset]
    rfl
  have hcapacity := hspare.capacity
  have hthree := length_octets_of_number hnumber
  unfold signedIn
  by_cases htag : capacity < 1
  · have hnot : b.fits 1 = false := by
      refine decide_eq_false ?_
      omega
    have hsame : b.writeU8 p.kind.tag = b := write_of_not_fits hnot
    have hfields : (b.writeU8 p.kind.tag).fits 2 = false := by
      rw [hsame]
      refine decide_eq_false ?_
      omega
    rw [if_pos htag, encode_of_short hnumber hfields, hsame,
      contents_sign_of_not_fits (by rw [hlength, hcapacity, signatureSize]; omega),
      contents_of_empty hlength]
  · rw [if_neg htag]
    by_cases hshort : capacity < 3
    · have hfits : b.fits [p.kind.tag].length = true := by
        rw [fits_iff, hposition, hcapacity]
        exact Nat.le_of_not_lt htag
      obtain ⟨hcontents, hlast, -⟩ := Before.of_write hposition hlength hfits
      have hfields : (b.writeU8 p.kind.tag).fits 2 = false := by
        rw [writeU8_eq]
        refine decide_eq_false ?_
        rw [position_write hfits, capacity_write, hposition, hcapacity, List.length_singleton]
        omega
      rw [if_pos hshort, encode_of_short hnumber hfields, writeU8_eq,
        contents_sign_of_not_fits ?_, hcontents]
      rw [capacity_write, hlast, hcapacity, List.length_singleton, signatureSize]
      omega
    · rw [if_neg hshort]
      have hfits : b.fits p.octets.length = true := by
        rw [fits_iff, hposition, hcapacity, hthree]
        omega
      rw [encode_eq_write p hfits]
      by_cases hcut : capacity < 7
      · obtain ⟨hcontents, hlast, -⟩ := Before.of_write hposition hlength hfits
        rw [if_pos hcut, contents_sign_of_not_fits ?_, hcontents]
        rw [capacity_write, hlast, hcapacity, hthree, signatureSize]
        omega
      · rw [if_neg hcut]
        refine (contents_sign_write hposition hlength ?_).2
        rw [hcapacity, hthree, signatureSize]
        omega

end Writing

section Receiving

/-- What is read of a packet depends on the octets that are left. -/
theorem readFields_congr {b b' : Buffer} {bs : Bytes} (h : b.Left bs) (h' : b'.Left bs)
    (kind : PacketKind) : (readFields b kind).1 = (readFields b' kind).1 := by
  rcases begins_or_short kind bs with
    ⟨p, tail, rfl, hproper, rfl, hends⟩ | ⟨rfl, hshort⟩ | ⟨hshort, p, rfl, hzero⟩
  · rw [readFields_of_left hproper h hends, readFields_of_left hproper h' hends]
  · have hlack : b.remaining < cookieSize := h.remaining_eq ▸ hshort
    have hlack' : b'.remaining < cookieSize := h'.remaining_eq ▸ hshort
    rw [readFields, if_pos hlack, readFields, if_pos hlack', h.remaining_eq, h'.remaining_eq]
  · rw [readFields_of_cut_number h hshort hzero, readFields_of_cut_number h' hshort hzero]

/-- What is decoded depends on the octets that are left. -/
theorem decode_congr {b b' : Buffer} {bs : Bytes} (h : b.Left bs) (h' : b'.Left bs) :
    (decode b).1 = (decode b').1 := by
  cases bs with
  | nil =>
      have hnone : b.remaining = 0 := h.remaining_eq
      have hnone' : b'.remaining = 0 := h'.remaining_eq
      rw [decode, if_pos hnone, decode, if_pos hnone']
  | cons tag rest =>
      have hfields : (b.advance 1).Left rest := (show b.Left ([tag] ++ rest) from h).advance
      have hfields' : (b'.advance 1).Left rest := (show b'.Left ([tag] ++ rest) from h').advance
      cases hkind : PacketKind.ofTag? tag with
      | none => rw [decode_of_unknown h.unread hkind, decode_of_unknown h'.unread hkind]
      | some kind =>
          rw [decode_of_known h.unread hkind, decode_of_known h'.unread hkind]
          exact readFields_congr hfields hfields' kind

/-- With room for a packet and its signature it is signed, with less room it is not. -/
theorem signedBody?_signedIn (capacity : Nat) (hnumber : p.number?.isSome) :
    signedBody? (p.signedIn capacity) = if capacity < 7 then none else some p.octets := by
  have hshort {bytes : Bytes} (h : bytes.length < signatureSize) : signedBody? bytes = none :=
    if_neg fun hsigned => absurd hsigned.1 (Nat.not_le.mpr h)
  have hthree := length_octets_of_number hnumber
  unfold signedIn
  by_cases hcut : capacity < 7
  · rw [if_pos hcut]
    split
    · exact hshort (by decide)
    · split
      · exact hshort (by decide : 1 < signatureSize)
      · exact hshort (by rw [hthree]; decide)
  · rw [if_neg hcut, if_neg (by omega), if_neg (by omega), if_neg hcut]
    exact signedBody?_eq_some_iff.mpr rfl

/-- Who receives a datagram verifies it and reads a packet from it. -/
def ReadsAs (datagram : Bytes) (p : Packet) : Prop :=
  ∀ b : Buffer, b.Loaded datagram →
    ∃ rest last, b.verify = .ok rest ∧ decode rest = (.ok p, last)

theorem decode_of_loaded (hproper : p.Proper) (h : b.Loaded p.octets) :
    decode b = (.ok p, b.advance p.octets.length) := by
  have hleft : b.Left ([p.kind.tag] ++ (p.fieldOctets ++ [])) := by
    rw [List.append_nil]
    exact h.left
  have hfields : (b.advance 1).Left (p.fieldOctets ++ []) := hleft.advance
  rw [decode_of_known h.left.unread (PacketKind.ofTag?_tag p.kind),
    readFields_of_left hproper hfields (endsBefore_nil p), advance_advance, Nat.add_comm]
  rfl

theorem proper_of_number (h : p.number?.isSome) : p.Proper := by
  obtain ⟨v, hv⟩ := Option.isSome_iff_exists.mp h
  exact (fields_of_number hv).1

/-- Who receives a signed packet verifies it and reads it. -/
theorem readsAs_of_signed {datagram : Bytes} (hproper : p.Proper)
    (h : signedBody? datagram = some p.octets) : ReadsAs datagram p := by
  intro b hb
  obtain ⟨rest, hverify, hrest⟩ := hb.verify_of_signed h
  exact ⟨rest, _, hverify, decode_of_loaded hproper hrest⟩

/-- A datagram that is not signed is not read. -/
theorem not_readsAs_of_unsigned {datagram : Bytes} (h : signedBody? datagram = none) :
    ¬ ReadsAs datagram p := by
  intro hreads
  have hloaded := loaded_ofBytes datagram
  obtain ⟨failure, herror⟩ := hloaded.verify_of_unsigned h
  obtain ⟨rest, last, hverify, -⟩ := hreads _ hloaded
  rw [herror] at hverify
  cases hverify

end Receiving

end Packet
end GameLink
