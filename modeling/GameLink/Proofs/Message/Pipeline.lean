import GameLink.Proofs.Message.Fields
import GameLink.Proofs.Packet
import GameLink.Proofs.Quantization

/-!
# Messages through the plain pipeline

A message is written behind the tag of its packet, signed, verified, and decoded by the side
that receives it.

**Results.**
* `serialize_eq_write`: a message that fits is one write of its header and its octets.
* `contents_sign`: a signed message is its octets and their checksum.
* `plain_pipeline`: what comes out of the pipeline is the message that went in.
-/

namespace GameLink

open Buffer

theorem Single.quantize_stepped (c : Single) : c.stepped.quantize = c.quantize :=
  quantize_dequantize c.quantize

/-- The octets of rounded components are those of the components. -/
theorem Field.octets_normal (field : Field) : field.normal.octets = field.octets := by
  have hbytes (x y z : Single) :
      quantizedBytes x.stepped y.stepped z.stepped = quantizedBytes x y z := by
    simp only [quantizedBytes, List.flatMap_cons, List.flatMap_nil, Single.quantize_stepped]
  cases field with
  | vector v => exact hbytes v.x v.y v.z
  | rotator r => exact hbytes r.pitch r.yaw r.roll
  | scalar _ | bool _ => rfl

namespace Message

variable {m : Message} {b start received : Buffer}

/-- The octets of a whole message. -/
def wire (m : Message) : Bytes :=
  m.kind.header ++ m.octets

theorem length_wire (m : Message) : m.wire.length = m.kind.size := by
  rw [wire, List.length_append, length_octets, MessageKind.size, MessageKind.header,
    List.length_cons, Scalar.length_toBytes]
  rfl

theorem serialize_eq (m : Message) (b : Buffer) :
    m.serialize b =
      m.writeFields ((b.writeU8 m.kind.transport.tag).writeU16 m.kind.number) := by
  cases m <;> rfl

/-- A message that fits is one write of its header and its octets. -/
theorem serialize_eq_write (hfits : b.fits m.wire.length = true) :
    m.serialize b = b.write m.wire := by
  have hheader : (b.writeU8 m.kind.transport.tag).writeU16 m.kind.number =
      b.write m.kind.header := by
    rw [writeU8_eq]
    exact write_write (fits_left hfits)
  rw [serialize_eq, hheader, writeFields_eq_write (position_le_length_write (fits_left hfits))
    (fits_write hfits)]
  exact write_write hfits

/-- A signed message is its octets and their checksum. -/
theorem contents_sign
    (hposition : start.position = 0) (hlength : start.length = 0)
    (hroom : m.kind.size + signatureSize ≤ start.capacity) :
    (m.serialize start).contents = m.wire ∧
      (m.serialize start).sign.contents =
        m.wire ++ Bytes.ofNat 4 (Checksum.crc32c m.wire).toNat := by
  rw [← length_wire] at hroom
  have hfits : start.fits m.wire.length = true := by
    rw [fits_iff, hposition, Nat.zero_add]
    exact Nat.le_of_add_right_le hroom
  rw [serialize_eq_write hfits]
  exact contents_sign_write hposition hlength hroom

/-- The header says which packet a message travels in. -/
theorem decode_header {rest : Bytes} (kind : MessageKind) (hb : b.Before (kind.header ++ rest)) :
    ∃ packet : Packet, Packet.decode b = (.ok packet, b.advance 1) ∧
      packet.kind = kind.transport ∧ (packet = .reliable ∨ packet = .unreliable) := by
  have hdecode := Packet.decode_of_known hb.unread (PacketKind.ofTag?_tag kind.transport)
  rw [hdecode]
  have htransport : kind.transport = .reliable ∨ kind.transport = .unreliable := by
    rcases kind with kind | kind
    · cases kind <;> decide
    · cases kind <;> decide
  rcases htransport with h | h
  · rw [h]
    exact ⟨.reliable, rfl, rfl, Or.inl rfl⟩
  · rw [h]
    exact ⟨.unreliable, rfl, rfl, Or.inr rfl⟩

theorem octets_normal (m : Message) : m.normal.octets = m.octets := by
  rw [octets, fields_normal, octets, Field.octetsOf, Field.octetsOf, List.flatMap_map]
  exact List.flatMap_congr fun field _ => field.octets_normal

/-- A message that is written, signed and loaded is verified and decoded as the message with
its components rounded, under the tag of its kind, and nothing is left to read.  What is
decoded is written as the same octets. -/
theorem plain_pipeline
    (m : Message) (hposition : start.position = 0) (hlength : start.length = 0)
    (hroom : m.kind.size + signatureSize ≤ start.capacity)
    (hloaded : received.Loaded (m.serialize start).sign.contents) :
    ∃ verified packet tagged final,
      received.verify = .ok verified ∧
        Packet.decode verified = (.ok packet, tagged) ∧
        packet.kind = m.kind.transport ∧ (packet = .reliable ∨ packet = .unreliable) ∧
        m.kind.side.decode tagged = (.ok m.normal, final) ∧
        final.position = final.length ∧
        ∀ again : Buffer, again.position = 0 → again.length = 0 →
          m.kind.size + signatureSize ≤ again.capacity →
          (m.normal.serialize again).contents = (m.serialize start).contents ∧
            (m.normal.serialize again).sign.contents = (m.serialize start).sign.contents := by
  obtain ⟨hcontents, hsigned⟩ := contents_sign hposition hlength hroom
  rw [hsigned] at hloaded
  obtain ⟨verified, hverify, hbody⟩ :=
    hloaded.verify_of_signed (signedBody?_eq_some_iff.mpr rfl)
  have hbefore : verified.Before (m.kind.header ++ (m.octets ++ [])) := by
    refine ⟨hbody.position.le.trans (Nat.zero_le _), ?_⟩
    rw [unread, hbody.contents, hbody.position, List.append_nil]
    rfl
  obtain ⟨packet, hpacket, htransport, hdata⟩ := decode_header m.kind hbefore
  have htagged : (verified.advance 1).Before
      ((Scalar.u16 m.kind.number).toBytes ++ (m.octets ++ [])) :=
    (show verified.Before ([m.kind.transport.tag] ++ _) from hbefore).advance
  have hnumbered : (verified.advance 1 |>.advance 2).Before (m.octets ++ []) := htagged.advance
  have hdecode := m.kind.decode_of_before htagged
  rw [MessageKind.readFields_of_before m hnumbered] at hdecode
  refine ⟨verified, packet, _, _, hverify, hpacket, htransport, hdata, hdecode, ?_, ?_⟩
  · have hsize := length_wire m
    rw [MessageKind.size, ← length_octets] at hsize
    simp only [id, advance, hbody.position, hbody.length, hsize]
  · intro again hagain hempty hspace
    have hwire : m.normal.wire = m.wire := by
      rw [wire, kind_normal, octets_normal, wire]
    rw [← kind_normal] at hspace
    obtain ⟨hsame, hsameSigned⟩ := contents_sign hagain hempty hspace
    rw [hwire] at hsame hsameSigned
    exact ⟨hsame.trans hcontents.symm, hsameSigned.trans hsigned.symm⟩

/-- A yaw that is no number, and a velocity that is rounded and cut off. -/
def fallingEntity : Message :=
  .client (.syncEntityQuantized ⟨1, -2, 3, -4, 5⟩ ⟨0x7FC00001⟩
    ⟨⟨0x3FC00000⟩, ⟨0xBE800000⟩, ⟨0x7F800000⟩⟩ 7 true)

/-- What `fallingEntity` is read back as. -/
def fallingEntityRead : Message :=
  .client (.syncEntityQuantized ⟨1, -2, 3, -4, 5⟩ ⟨0x7FC00001⟩
    ⟨⟨0x3FC00000⟩, ⟨0xBE99999A⟩, ⟨0x454CCB33⟩⟩ 7 true)

/-- A message that fills a datagram to its end comes through the pipeline. -/
theorem falling_entity_comes_through :
    (Buffer.empty 30).position = 0 ∧ (Buffer.empty 30).length = 0 ∧
      fallingEntity.kind.size + signatureSize ≤ (Buffer.empty 30).capacity ∧
      ∃ verified tagged final,
        (Buffer.ofBytes (fallingEntity.serialize (Buffer.empty 30)).sign.contents).verify =
            .ok verified ∧
          Packet.decode verified = (.ok .unreliable, tagged) ∧
          Side.client.decode tagged = (.ok fallingEntityRead, final) ∧
          final.position = final.length := by
  have hroom : fallingEntity.kind.size + signatureSize ≤ (Buffer.empty 30).capacity := by decide
  have hnormal : fallingEntity.normal = fallingEntityRead := by decide +kernel
  obtain ⟨verified, packet, tagged, final, hverify, hpacket, htransport, hdata, hdecode, hend, _⟩ :=
    plain_pipeline fallingEntity rfl rfl hroom (loaded_ofBytes _)
  rw [hnormal] at hdecode
  rcases hdata with rfl | rfl
  · cases htransport
  · exact ⟨rfl, rfl, hroom, verified, tagged, final, hverify, hpacket, hdecode, hend⟩

end Message
end GameLink
