import GameLink.Buffer.Signature
import GameLink.Packet
import GameLink.Proofs.Buffer.Cursor
import Mathlib.Logic.Basic

/-!
# Signed datagrams with application data

A datagram that is not sealed is data for the application if it ends in the checksum of
what is in front of it and that begins with one of the two data tags.

**Results.**
* `signedBody?_eq_some_iff`: the signed datagrams.
* `plainBody?_eq_some_iff`: the datagrams with application data.
* `contents_sign_write`: signing what is written into an unused buffer.
* `dataOf?_of_loaded`: what verifying and decoding a buffer finds depends on the octets that
  were loaded into it.
-/

namespace GameLink

/-- The body of a signed datagram. -/
def signedBody? (bytes : Bytes) : Option Bytes :=
  let body := bytes.take (bytes.length - Buffer.signatureSize)
  let signature := bytes.drop (bytes.length - Buffer.signatureSize)
  if Buffer.signatureSize ≤ bytes.length ∧
      UInt32.ofNat (Bytes.toNat signature) = Checksum.crc32c body then
    some body
  else
    none

/-- A datagram is signed exactly if it is a body and its checksum. -/
theorem signedBody?_eq_some_iff {bytes body : Bytes} :
    signedBody? bytes = some body ↔
      bytes = body ++ Bytes.ofNat 4 (Checksum.crc32c body).toNat := by
  unfold signedBody?
  constructor
  · intro h
    dsimp only at h
    split at h
    · rename_i hsigned
      cases h
      obtain ⟨hsize, hsignature⟩ := hsigned
      have hlength : (bytes.drop (bytes.length - Buffer.signatureSize)).length = 4 := by
        rw [List.length_drop]
        simp only [Buffer.signatureSize] at hsize ⊢
        omega
      have hback := Bytes.ofNat_toNat (bytes.drop (bytes.length - Buffer.signatureSize))
      have hlt := Bytes.toNat_lt (bytes.drop (bytes.length - Buffer.signatureSize))
      rw [hlength] at hback hlt
      have hpow : Nat.pow 256 4 = 4294967296 := rfl
      rw [hpow] at hlt
      have hnumber :
          (Checksum.crc32c (bytes.take (bytes.length - Buffer.signatureSize))).toNat =
            Bytes.toNat (bytes.drop (bytes.length - Buffer.signatureSize)) := by
        rw [← hsignature, UInt32.toNat_ofNat_of_lt' hlt]
      rw [hnumber, hback, List.take_append_drop]
    · cases h
  · rintro rfl
    have hlength : (Bytes.ofNat 4 (Checksum.crc32c body).toNat).length = 4 :=
      Bytes.length_ofNat ..
    have hsub :
        (body ++ Bytes.ofNat 4 (Checksum.crc32c body).toNat).length - Buffer.signatureSize =
          body.length := by
      rw [List.length_append, hlength]
      rfl
    have hnumber : Bytes.toNat (Bytes.ofNat 4 (Checksum.crc32c body).toNat) =
        (Checksum.crc32c body).toNat := by
      have hpow : Nat.pow 256 4 = 4294967296 := rfl
      rw [Bytes.toNat_ofNat, hpow]
      exact Nat.mod_eq_of_lt (Checksum.crc32c body).toNat_lt
    dsimp only
    rw [hsub, List.take_left, List.drop_left, hnumber, UInt32.ofNat_toNat]
    refine if_pos ⟨?_, rfl⟩
    rw [List.length_append, hlength]
    exact Nat.le_add_left _ _

/-- The body of a signed datagram with application data. -/
def plainBody? (bytes : Bytes) : Option Bytes :=
  let body := bytes.take (bytes.length - Buffer.signatureSize)
  let signature := bytes.drop (bytes.length - Buffer.signatureSize)
  if Buffer.signatureSize ≤ bytes.length ∧
      UInt32.ofNat (Bytes.toNat signature) = Checksum.crc32c body ∧
      (body.head? = some PacketKind.reliable.tag ∨
        body.head? = some PacketKind.unreliable.tag) then
    some body
  else
    none

/-- A datagram has application data exactly if it is a tagged body and its checksum. -/
theorem plainBody?_eq_some_iff {bytes body : Bytes} :
    plainBody? bytes = some body ↔
      bytes = body ++ Bytes.ofNat 4 (Checksum.crc32c body).toNat ∧
        (body.head? = some PacketKind.reliable.tag ∨
          body.head? = some PacketKind.unreliable.tag) := by
  rw [← signedBody?_eq_some_iff]
  simp only [plainBody?, signedBody?, Option.ite_none_right_eq_some, Option.some.injEq]
  constructor
  · rintro ⟨⟨hsize, hsignature, htag⟩, rfl⟩
    exact ⟨⟨⟨hsize, hsignature⟩, rfl⟩, htag⟩
  · rintro ⟨⟨⟨hsize, hsignature⟩, rfl⟩, htag⟩
    exact ⟨⟨hsize, hsignature, htag⟩, rfl⟩

namespace Buffer

variable {b : Buffer}

/-- A buffer holds exactly some octets, the cursor at their start. -/
structure Loaded (b : Buffer) (bytes : Bytes) : Prop where
  contents : b.contents = bytes
  length : b.length = bytes.length
  position : b.position = 0

/-- Octets that are written into an unused buffer and signed are followed by their checksum. -/
theorem contents_sign_write {bytes : Bytes}
    (hposition : b.position = 0) (hlength : b.length = 0)
    (hroom : bytes.length + signatureSize ≤ b.capacity) :
    (b.write bytes).contents = bytes ∧
      (b.write bytes).sign.contents =
        bytes ++ Bytes.ofNat 4 (Checksum.crc32c bytes).toNat := by
  generalize hchecksum : Bytes.ofNat 4 (Checksum.crc32c bytes).toNat = checksum
  have hwidth : checksum.length = signatureSize := by
    rw [← hchecksum]
    exact Bytes.length_ofNat ..
  have hfits : b.fits (bytes ++ checksum).length = true := by
    rw [fits_iff, hposition, Nat.zero_add, List.length_append, hwidth]
    exact hroom
  have hbytes := fits_left hfits
  obtain ⟨hcontents, hlast, _⟩ := Before.of_write hposition hlength hbytes
  have hend : (b.write bytes).position = (b.write bytes).length := by
    rw [position_write hbytes, hposition, Nat.zero_add, hlast]
  have hsign : (b.write bytes).sign = b.write (bytes ++ checksum) := by
    have hcursor : { b.write bytes with position := (b.write bytes).length } =
        b.write bytes := by
      rw [← hend]
    rw [sign, hcursor, hcontents, ← write_write hfits, ← hchecksum]
    rfl
  rw [hsign]
  exact ⟨hcontents, (Before.of_write hposition hlength hfits).1⟩

theorem loaded_ofBytes (bytes : Bytes) : (ofBytes bytes).Loaded bytes where
  contents := by simp [ofBytes, Buffer.contents]
  length := rfl
  position := rfl

theorem loaded_load {bytes : Bytes} (h : bytes.length ≤ b.capacity) :
    (b.load bytes).Loaded bytes where
  contents := by simp [load, Buffer.contents, List.take_of_length_le h]
  length := by simp [load, List.take_of_length_le h]
  position := rfl

/-- What verifying gives depends on the octets loaded. -/
theorem Loaded.verify {bytes : Bytes} (h : b.Loaded bytes) :
    (∃ failure, b.verify = .error failure ∧
      ¬ (signatureSize ≤ bytes.length ∧
        UInt32.ofNat (Bytes.toNat (bytes.drop (bytes.length - signatureSize))) =
          Checksum.crc32c (bytes.take (bytes.length - signatureSize)))) ∨
    (∃ b', b.verify = .ok b' ∧ b'.Loaded (bytes.take (bytes.length - signatureSize)) ∧
      signatureSize ≤ bytes.length ∧
        UInt32.ofNat (Bytes.toNat (bytes.drop (bytes.length - signatureSize))) =
          Checksum.crc32c (bytes.take (bytes.length - signatureSize))) := by
  simp only [Buffer.verify]
  by_cases hshort : b.length < signatureSize
  · rw [if_pos hshort]
    rw [h.length] at hshort
    exact Or.inl ⟨_, rfl, fun hlong => by omega⟩
  · rw [if_neg hshort]
    have hsignature : b.signature =
        UInt32.ofNat (Bytes.toNat (bytes.drop (bytes.length - signatureSize))) := by
      rw [signature, if_neg hshort, h.contents, h.length]
    have hpart : b.signedPart = bytes.take (bytes.length - signatureSize) := by
      rw [signedPart, h.contents, h.length]
    rw [hsignature, hpart]
    rw [h.length] at hshort
    split
    · rename_i hdiffer
      exact Or.inl ⟨_, rfl, fun hsame => hdiffer hsame.2⟩
    · rename_i hsame
      refine Or.inr ⟨_, rfl, ⟨?_, ?_, ?_⟩, Nat.le_of_not_lt hshort, not_not.mp hsame⟩
      · have hshorter : min (b.length - signatureSize) b.length = b.length - signatureSize := by
          omega
        have htake :
            b.storage.take (b.length - signatureSize) =
              b.contents.take (b.length - signatureSize) := by
          rw [Buffer.contents, List.take_take, hshorter]
        rw [h.contents, h.length] at htake
        simp only [Buffer.contents, h.length]
        exact htake
      · simp only [h.length, List.length_take]
        omega
      · simp only [h.position, Nat.zero_min]

/-- A signed buffer is left with its body. -/
theorem Loaded.verify_of_signed {bytes body : Bytes}
    (h : b.Loaded bytes) (hbody : signedBody? bytes = some body) :
    ∃ b', b.verify = .ok b' ∧ b'.Loaded body := by
  simp only [signedBody?, Option.ite_none_right_eq_some, Option.some.injEq] at hbody
  obtain ⟨hsigned, rfl⟩ := hbody
  rcases h.verify with ⟨failure, _, hunsigned⟩ | ⟨b', hverify, hloaded, _⟩
  · exact absurd hsigned hunsigned
  · exact ⟨b', hverify, hloaded⟩

/-- A buffer that is not signed is left as it is. -/
theorem Loaded.verify_of_unsigned {bytes : Bytes}
    (h : b.Loaded bytes) (hnone : signedBody? bytes = none) :
    ∃ failure, b.verify = .error failure := by
  rcases h.verify with ⟨failure, hverify, _⟩ | ⟨_, _, _, hsigned⟩
  · exact ⟨failure, hverify⟩
  · simp only [signedBody?, if_pos hsigned] at hnone
    cases hnone

theorem remaining_ne_zero {tag : UInt8} {rest : Bytes} (h : b.unread = tag :: rest) :
    b.remaining ≠ 0 := by
  intro hzero
  rw [← take_remaining, hzero, List.take_zero] at h
  cases h

end Buffer

namespace Packet

/-- The fields of a kind give a packet of that kind. -/
theorem kind_of_readFields
    {b rest : Buffer} {kind : PacketKind} {packet : Packet}
    (h : readFields b kind = (.ok packet, rest)) :
    packet.kind = kind := by
  have hfst := congrArg Prod.fst h
  cases kind with
  | cookie =>
      simp only [readFields] at hfst
      split at hfst
      · cases hfst
      · cases hfst
        rfl
  | connect =>
      simp only [readFields, readConnect] at hfst
      split at hfst
      · cases hfst
        rfl
      · cases hfst
        rfl
  | _ =>
      cases hfst
      rfl

/-- The kind with a tag has that tag. -/
theorem tag_of_ofTag {tag : UInt8} {kind : PacketKind} (h : PacketKind.ofTag? tag = some kind) :
    kind.tag = tag := by
  simpa using List.find?_some h

theorem decode_of_known
    {b : Buffer} {tag : UInt8} {rest : Bytes} {kind : PacketKind}
    (hunread : b.unread = tag :: rest) (hkind : PacketKind.ofTag? tag = some kind) :
    decode b = readFields (b.advance 1) kind := by
  have hne : b.remaining ≠ 0 := Buffer.remaining_ne_zero hunread
  simp only [decode, if_neg hne, (Buffer.Before.of_unread hunread).readU8_eq, hkind]

theorem decode_of_unknown
    {b : Buffer} {tag : UInt8} {rest : Bytes}
    (hunread : b.unread = tag :: rest) (hkind : PacketKind.ofTag? tag = none) :
    decode b = (.error (.unknownPacket tag.toUInt16), b.advance 1) := by
  have hne : b.remaining ≠ 0 := Buffer.remaining_ne_zero hunread
  simp only [decode, if_neg hne, (Buffer.Before.of_unread hunread).readU8_eq, hkind]

end Packet

/-- The application data of a verified buffer. -/
def packetData? (b : Buffer) : Option (Bytes × Nat) :=
  match Packet.decode b with
  | (.ok .reliable, b) | (.ok .unreliable, b) => some (b.contents, b.position)
  | _ => none

theorem packetData?_eq_none
    {b : Buffer}
    (h : ∀ packet rest, Packet.decode b = (.ok packet, rest) →
      packet ≠ .reliable ∧ packet ≠ .unreliable) :
    packetData? b = none := by
  simp only [packetData?]
  split
  · rename_i rest hdecode
    exact absurd rfl (h _ _ hdecode).1
  · rename_i rest hdecode
    exact absurd rfl (h _ _ hdecode).2
  · rfl

/-- Only the two data tags give application data. -/
theorem packetData?_of_loaded {b : Buffer} {body : Bytes} (h : b.Loaded body) :
    packetData? b =
      if body.head? = some PacketKind.reliable.tag ∨
          body.head? = some PacketKind.unreliable.tag then
        some (body, 1)
      else
        none := by
  have hremaining : b.remaining = body.length := by
    rw [Buffer.remaining, h.length, h.position, Nat.sub_zero]
  cases body with
  | nil =>
      have hdecode : Packet.decode b = (.error (.malformed .emptyDatagram), b) := by
        have hzero : b.remaining = 0 := hremaining
        rw [Packet.decode, if_pos hzero]
      simp [packetData?, hdecode]
  | cons tag rest =>
      have hunread : b.unread = tag :: rest := by
        rw [Buffer.unread, h.contents, h.position, List.drop_zero]
      have hcontents : (b.advance 1).contents = tag :: rest := h.contents
      have hposition : (b.advance 1).position = 1 := by
        rw [Buffer.advance, h.position]
      cases hkind : PacketKind.ofTag? tag with
      | none =>
          have hother : ¬ (tag = PacketKind.reliable.tag ∨ tag = PacketKind.unreliable.tag) := by
            rintro (rfl | rfl)
            · cases hkind
            · cases hkind
          simp [packetData?, Packet.decode_of_unknown hunread hkind, hother]
      | some kind =>
          have hdecode := Packet.decode_of_known hunread hkind
          have htag := Packet.tag_of_ofTag hkind
          subst htag
          by_cases hreliable : kind = .reliable
          · subst hreliable
            simp [packetData?, hdecode, Packet.readFields, hcontents, hposition]
          · by_cases hunreliable : kind = .unreliable
            · subst hunreliable
              simp [packetData?, hdecode, Packet.readFields, hcontents, hposition]
            · have hother : ¬ (kind.tag = PacketKind.reliable.tag ∨
                  kind.tag = PacketKind.unreliable.tag) := by
                cases kind <;> simp_all [PacketKind.tag]
              simp only [List.head?_cons, Option.some.injEq, if_neg hother]
              refine packetData?_eq_none fun packet last hlast => ?_
              have hsame := Packet.kind_of_readFields (hdecode.symm.trans hlast)
              constructor
              · rintro rfl
                exact hreliable hsame.symm
              · rintro rfl
                exact hunreliable hsame.symm

/-- What a buffer delivers to the application once it is verified and decoded. -/
def dataOf? (b : Buffer) : Option (Bytes × Nat) :=
  match b.verify with
  | .error _ => none
  | .ok b => packetData? b

/-- What is delivered depends on the octets that were loaded. -/
theorem dataOf?_of_loaded {b : Buffer} {bytes : Bytes} (h : b.Loaded bytes) :
    dataOf? b = (plainBody? bytes).map fun body => (body, 1) := by
  rcases h.verify with ⟨failure, hverify, hbad⟩ | ⟨b', hverify, hloaded, hgood⟩
  · rw [dataOf?, hverify, plainBody?]
    dsimp only
    rw [if_neg fun hplain => hbad ⟨hplain.1, hplain.2.1⟩]
    rfl
  · rw [dataOf?, hverify, plainBody?]
    dsimp only
    rw [packetData?_of_loaded hloaded]
    split
    · rename_i htag
      rw [if_pos ⟨hgood.1, hgood.2, htag⟩]
      rfl
    · rename_i htag
      rw [if_neg fun hplain => htag hplain.2.2]
      rfl

end GameLink
