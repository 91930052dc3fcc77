import GameLink.Proofs.Buffer.Bits
import GameLink.Proofs.Buffer.Remaining
import GameLink.Proofs.PlainDatagram

/-!
# Packets and their octets

A packet is written as its tag and the octets of its fields.  How many fields there are is
told by how much is left to read, so what is decoded depends on where the datagram ends.

**Results.**
* `encode_eq_write`: a packet that fits is one write of its octets.
* `readFields_of_left`: a packet is read from its octets if nothing follows them.
* `readFields_cases`: what is read has taken its own octets, or its number was cut short.
* `encode_decode_exact`: encoding and decoding undo one another.
-/

namespace GameLink

/-- The octets of an acceptance. -/
def Acceptance.octets (a : Acceptance) : Bytes :=
  (a.clientId.elim [] fun id => (Buffer.Scalar.u32 id).toBytes) ++
    (a.keys.elim [] fun keys => keys.serverPublic.bytes ++ keys.salt.bytes)

namespace Packet

open Buffer

/-- The octets behind the tag. -/
def fieldOctets : Packet → Bytes
  | .connect (some key) (some token) => key.bytes ++ token.bytes
  | .connect (some key) none => key.bytes
  | .connect none _ => []
  | .ping timestamp => (Scalar.u16 timestamp).toBytes
  | .pong timestamp => (Scalar.u16 timestamp).toBytes
  | .ack sequence => (Scalar.u16 sequence).toBytes
  | .connectionAccepted acceptance => acceptance.octets
  | .checkIntegrity index => (Scalar.u16 index).toBytes
  | .cookie token => token.bytes
  | .reliable | .unreliable | .disconnect | .error | .connectionDenied => []

/-- The octets of a packet. -/
def octets (p : Packet) : Bytes :=
  p.kind.tag :: p.fieldOctets

/-- A cookie comes with a public key, and key material with a connection number. -/
def Proper : Packet → Prop
  | .connect key token => token.isSome → key.isSome
  | .connectionAccepted acceptance => acceptance.keys.isSome → acceptance.clientId.isSome
  | _ => True

/-- The number of a packet that carries one. -/
def number? : Packet → Option UInt16
  | .ping timestamp => some timestamp
  | .pong timestamp => some timestamp
  | .ack sequence => some sequence
  | .checkIntegrity index => some index
  | _ => none

variable {b : Buffer} {bs rest : Bytes}

section Writing

theorem writeFields_eq_write
    (p : Packet) (hposition : b.position ≤ b.length)
    (hfits : b.fits p.fieldOctets.length = true) :
    writeFields b p = b.write p.fieldOctets := by
  have hnil (h : b.fits 0 = true) : b = b.write [] := (write_nil hposition h).symm
  cases p with
  | connect key token =>
      cases key with
      | none => exact hnil hfits
      | some key =>
          cases token with
          | none => rfl
          | some token => exact write_write hfits
  | connectionAccepted a =>
      obtain ⟨_ | id, _ | keys⟩ := a
      · exact hnil hfits
      · exact write_write hfits
      · simp only [fieldOctets, Acceptance.octets, Option.elim_some, Option.elim_none,
          List.append_nil]
        rfl
      · simp only [fieldOctets, Acceptance.octets, Option.elim_some] at hfits ⊢
        rw [← write_write hfits, ← write_write (fits_write hfits)]
        rfl
  | ping _ | pong _ | ack _ | checkIntegrity _ | cookie _ => rfl
  | reliable | unreliable | disconnect | error | connectionDenied => exact hnil hfits

/-- A packet that fits is one write of its octets. -/
theorem encode_eq_write (p : Packet) (hfits : b.fits p.octets.length = true) :
    p.encode b = b.write p.octets := by
  have hsplit : p.octets = [p.kind.tag] ++ p.fieldOctets := rfl
  rw [hsplit] at hfits ⊢
  rw [encode, writeU8_eq, writeFields_eq_write p (position_le_length_write (fits_left hfits))
    (fits_write hfits), write_write hfits]

end Writing

section Reading

theorem readOptional_of_long {n : Nat} (o : Octets n) (h : b.Left (o.bytes ++ rest)) :
    readOptional n b = (some o, b.advance n) := by
  have hlong : n ≤ b.remaining := by
    rw [h.remaining_eq, List.length_append, o.length_eq]
    exact Nat.le_add_right _ _
  have hread := reads_octets o b rest h.toBefore
  rw [o.length_eq] at hread
  rw [readOptional, if_pos hlong, hread]
  rfl

theorem readOptional_of_short {n : Nat} (h : b.Left bs) (hshort : bs.length < n) :
    readOptional n b = (none, b) := by
  have hnot : ¬ n ≤ b.remaining := by
    rw [h.remaining_eq]
    omega
  rw [readOptional, if_neg hnot]

/-- What follows a packet is too short for a further field of it. -/
def EndsBefore : Packet → Bytes → Prop
  | .connect none _, tail => tail.length < publicKeySize
  | .connect (some _) none, tail => tail.length < cookieSize
  | .connectionAccepted ⟨none, _⟩, tail => tail.length < 4
  | .connectionAccepted ⟨some _, none⟩, tail => tail.length < publicKeySize + saltSize
  | _, _ => True

theorem endsBefore_nil (p : Packet) : p.EndsBefore [] := by
  cases p with
  | connect key token =>
      rcases key with _ | key
      · exact (by decide : 0 < publicKeySize)
      · rcases token with _ | token
        · exact (by decide : 0 < cookieSize)
        · trivial
  | connectionAccepted a =>
      obtain ⟨_ | id, _ | keys⟩ := a
      · exact (by decide : 0 < 4)
      · exact (by decide : 0 < 4)
      · exact (by decide : 0 < publicKeySize + saltSize)
      · trivial
  | _ => trivial

variable {tail : Bytes}

theorem readConnect_of_left
    {key : Option (Octets publicKeySize)} {token : Option (Octets cookieSize)}
    (hproper : token.isSome → key.isSome)
    (h : b.Left ((Packet.connect key token).fieldOctets ++ tail))
    (hends : (Packet.connect key token).EndsBefore tail) :
    readConnect b =
      (.connect key token, b.advance (Packet.connect key token).fieldOctets.length) := by
  rcases key with _ | key
  · have hnone : token = none := by simpa using hproper
    subst hnone
    rw [readConnect, readOptional_of_short h hends]
    rfl
  · rcases token with _ | token
    · have hrest := h.advance
      rw [fieldOctets, key.length_eq] at hrest
      simp only [readConnect, readOptional_of_long key h, readOptional_of_short hrest hends,
        fieldOctets, key.length_eq]
    · simp only [fieldOctets, List.append_assoc] at h
      have hrest := h.advance
      rw [key.length_eq] at hrest
      simp only [readConnect, readOptional_of_long key h, readOptional_of_long token hrest,
        fieldOctets, advance_advance, List.length_append, key.length_eq, token.length_eq]

theorem readAcceptance_of_left
    {a : Acceptance} (hproper : a.keys.isSome → a.clientId.isSome)
    (h : b.Left (a.octets ++ tail))
    (hends : (Packet.connectionAccepted a).EndsBefore tail) :
    readAcceptance b = (a, b.advance a.octets.length) := by
  have hremaining := h.remaining_eq
  have hwidth (v : UInt32) : (Scalar.u32 v).toBytes.length = 4 := Scalar.length_toBytes _
  obtain ⟨_ | id, _ | ⟨serverPublic, salt⟩⟩ := a
  · have hshort : tail.length < 4 := hends
    simp only [Acceptance.octets, Option.elim_none, List.nil_append] at hremaining ⊢
    rw [readAcceptance, if_neg (by rw [hremaining]; omega), if_neg (by rw [hremaining]; omega)]
    rfl
  · simp at hproper
  · have hshort : tail.length < publicKeySize + saltSize := hends
    simp only [Acceptance.octets, Option.elim_some, Option.elim_none, List.append_nil]
      at h hremaining ⊢
    rw [List.length_append, hwidth] at hremaining
    rw [readAcceptance, if_neg (by rw [hremaining]; omega), if_pos (by rw [hremaining]; omega),
      reads_u32 id b _ h.toBefore]
  · simp only [Acceptance.octets, Option.elim_some, List.append_assoc] at h hremaining ⊢
    simp only [List.length_append, hwidth, serverPublic.length_eq, salt.length_eq]
      at hremaining ⊢
    have hkey := h.advance
    rw [hwidth] at hkey
    have hpublicRead := reads_octets serverPublic _ _ hkey.toBefore
    have hsalt := hkey.advance
    rw [serverPublic.length_eq] at hpublicRead hsalt
    have hsaltRead := reads_octets salt _ _ hsalt.toBefore
    rw [salt.length_eq] at hsaltRead
    rw [readAcceptance, if_pos (by rw [hremaining]; omega), reads_u32 id b _ h.toBefore]
    simp only [hwidth, hpublicRead, hsaltRead]
    simp only [advance_advance, Nat.add_assoc]

/-- A packet is read from its octets if what follows is too short for a further field. -/
theorem readFields_of_left
    {p : Packet} (hproper : p.Proper) (h : b.Left (p.fieldOctets ++ tail))
    (hends : p.EndsBefore tail) :
    readFields b p.kind = (.ok p, b.advance p.fieldOctets.length) := by
  cases p with
  | connect key token =>
      rw [kind, readFields, readConnect_of_left hproper h hends]
      rfl
  | connectionAccepted a =>
      rw [kind, readFields, readAcceptance_of_left hproper h hends]
      rfl
  | ping timestamp | pong timestamp | ack timestamp | checkIntegrity timestamp =>
      rw [kind, readFields, reads_u16 timestamp b _ h.toBefore]
      rfl
  | cookie token =>
      have hlong : ¬ b.remaining < cookieSize := by
        rw [h.remaining_eq, List.length_append, fieldOctets, token.length_eq]
        omega
      rw [kind, readFields, if_neg hlong, reads_octets token b _ h.toBefore]
      rfl
  | reliable | unreliable | disconnect | error | connectionDenied => rfl

theorem u16_short_or_append (bs : Bytes) :
    bs.length < 2 ∨ ∃ (v : UInt16) (tail : Bytes), bs = (Scalar.u16 v).toBytes ++ tail := by
  rcases Scalar.short_or_append .u16 bs with hshort | ⟨s, tail, hkind, hsplit⟩
  · exact Or.inl hshort
  · cases s with
    | u16 v => exact Or.inr ⟨v, tail, hsplit⟩
    | _ => cases hkind

theorem u32_short_or_append (bs : Bytes) :
    bs.length < 4 ∨ ∃ (v : UInt32) (tail : Bytes), bs = (Scalar.u32 v).toBytes ++ tail := by
  rcases Scalar.short_or_append .u32 bs with hshort | ⟨s, tail, hkind, hsplit⟩
  · exact Or.inl hshort
  · cases s with
    | u32 v => exact Or.inr ⟨v, tail, hsplit⟩
    | _ => cases hkind

/-- Octets that begin with the fields of a packet of a kind and are too short for more. -/
def Begins (kind : PacketKind) (bs : Bytes) : Prop :=
  ∃ (p : Packet) (tail : Bytes), p.kind = kind ∧ p.Proper ∧ bs = p.fieldOctets ++ tail ∧
    p.EndsBefore tail

theorem begins_connect (bs : Bytes) : Begins .connect bs := by
  rcases Octets.short_or_append publicKeySize bs with hshort | ⟨key, behind, rfl⟩
  · exact ⟨.connect none none, bs, rfl, nofun, rfl, hshort⟩
  · rcases Octets.short_or_append cookieSize behind with hshort | ⟨token, tail, rfl⟩
    · exact ⟨.connect (some key) none, behind, rfl, nofun, rfl, hshort⟩
    · exact ⟨.connect (some key) (some token), tail, rfl, fun _ => rfl,
        (List.append_assoc ..).symm, trivial⟩

theorem begins_connectionAccepted (bs : Bytes) : Begins .connectionAccepted bs := by
  rcases u32_short_or_append bs with hshort | ⟨id, behind, rfl⟩
  · exact ⟨.connectionAccepted ⟨none, none⟩, bs, rfl, nofun, rfl, hshort⟩
  · rcases Octets.short_or_append (publicKeySize + saltSize) behind with
      hshort | ⟨keys, tail, rfl⟩
    · exact ⟨.connectionAccepted ⟨some id, none⟩, behind, rfl, nofun,
        by simp [fieldOctets, Acceptance.octets], hshort⟩
    · have hkey : (keys.bytes.take publicKeySize).length = publicKeySize :=
        List.length_take_of_le (by rw [keys.length_eq]; exact Nat.le_add_right _ _)
      have hsalt : (keys.bytes.drop publicKeySize).length = saltSize := by
        rw [List.length_drop, keys.length_eq, Nat.add_sub_cancel_left]
      exact ⟨.connectionAccepted ⟨some id, some ⟨⟨_, hkey⟩, ⟨_, hsalt⟩⟩⟩, tail, rfl,
        fun _ => rfl, by simp [fieldOctets, Acceptance.octets], trivial⟩

/-- A packet with a number has the octets of the number and no further field. -/
theorem fields_of_number {p : Packet} {v : UInt16} (h : p.number? = some v) :
    p.Proper ∧ p.fieldOctets = (Scalar.u16 v).toBytes ∧ ∀ tail, p.EndsBefore tail := by
  cases p with
  | ping _ | pong _ | ack _ | checkIntegrity _ =>
      cases h
      exact ⟨trivial, rfl, fun _ => trivial⟩
  | _ => cases h

/-- Octets begin with a number, for a kind that carries one, or are too short for it. -/
theorem begins_number_or_short
    {kind : PacketKind} (p : UInt16 → Packet) (hkind : ∀ v, (p v).kind = kind)
    (hnumber : ∀ v, (p v).number? = some v) (bs : Bytes) :
    Begins kind bs ∨ (bs.length < 2 ∧ ∃ q : Packet, q.kind = kind ∧ q.number? = some 0) := by
  rcases u16_short_or_append bs with hshort | ⟨v, tail, rfl⟩
  · exact Or.inr ⟨hshort, p 0, hkind 0, hnumber 0⟩
  · obtain ⟨hproper, hoctets, hends⟩ := fields_of_number (hnumber v)
    exact Or.inl ⟨p v, tail, hkind v, hproper, by rw [hoctets], hends tail⟩

/-- Octets begin with the fields of a packet of a kind, unless a cookie or a number is cut
short. -/
theorem begins_or_short (kind : PacketKind) (bs : Bytes) :
    Begins kind bs ∨ (kind = .cookie ∧ bs.length < cookieSize) ∨
      (bs.length < 2 ∧ ∃ p : Packet, p.kind = kind ∧ p.number? = some 0) := by
  cases kind with
  | connect => exact Or.inl (begins_connect bs)
  | connectionAccepted => exact Or.inl (begins_connectionAccepted bs)
  | cookie =>
      rcases Octets.short_or_append cookieSize bs with hshort | ⟨token, tail, rfl⟩
      · exact Or.inr (Or.inl ⟨rfl, hshort⟩)
      · exact Or.inl ⟨.cookie token, tail, rfl, trivial, rfl, trivial⟩
  | ping =>
      exact (begins_number_or_short .ping (fun _ => rfl) (fun _ => rfl) bs).imp_right Or.inr
  | pong =>
      exact (begins_number_or_short .pong (fun _ => rfl) (fun _ => rfl) bs).imp_right Or.inr
  | ack =>
      exact (begins_number_or_short .ack (fun _ => rfl) (fun _ => rfl) bs).imp_right Or.inr
  | checkIntegrity =>
      exact (begins_number_or_short .checkIntegrity (fun _ => rfl) (fun _ => rfl) bs).imp_right Or.inr
  | reliable => exact Or.inl ⟨.reliable, bs, rfl, trivial, rfl, trivial⟩
  | unreliable => exact Or.inl ⟨.unreliable, bs, rfl, trivial, rfl, trivial⟩
  | disconnect => exact Or.inl ⟨.disconnect, bs, rfl, trivial, rfl, trivial⟩
  | error => exact Or.inl ⟨.error, bs, rfl, trivial, rfl, trivial⟩
  | connectionDenied => exact Or.inl ⟨.connectionDenied, bs, rfl, trivial, rfl, trivial⟩

/-- A number that is cut short is zero, and nothing of it is taken. -/
theorem readFields_of_cut_number
    {p : Packet} (h : b.Left bs) (hshort : bs.length < 2) (hzero : p.number? = some 0) :
    readFields b p.kind = (.ok p, b) := by
  have hread : b.readU16 = (0, b) := by
    simp only [readU16, h.readNat_of_short hshort]
    rfl
  cases p with
  | ping _ | pong _ | ack _ | checkIntegrity _ =>
      cases hzero
      simp [kind, readFields, hread]
  | _ => cases hzero

theorem length_fieldOctets_of_number {p : Packet} (h : p.number?.isSome) :
    p.fieldOctets.length = 2 := by
  obtain ⟨v, hv⟩ := Option.isSome_iff_exists.mp h
  rw [(fields_of_number hv).2.1]
  exact Scalar.length_toBytes _

/-- What reading the fields of a kind can come to. -/
theorem readFields_cases (h : b.Left bs) (kind : PacketKind) :
    (kind = .cookie ∧ bs.length < cookieSize ∧
        ∃ failure, readFields b kind = (.error failure, b)) ∨
      ∃ p : Packet, p.kind = kind ∧
        ((p.number? = some 0 ∧ bs.length < 2 ∧ readFields b kind = (.ok p, b)) ∨
          ∃ tail : Bytes, bs = p.fieldOctets ++ tail ∧
            readFields b kind = (.ok p, b.advance p.fieldOctets.length)) := by
  rcases begins_or_short kind bs with
    ⟨p, tail, hkind, hproper, rfl, hends⟩ | ⟨rfl, hshort⟩ | ⟨hshort, p, hkind, hzero⟩
  · subst hkind
    exact Or.inr ⟨p, rfl, Or.inr ⟨tail, rfl, readFields_of_left hproper h hends⟩⟩
  · have hlack : b.remaining < cookieSize := by
      rw [h.remaining_eq]
      exact hshort
    exact Or.inl ⟨rfl, hshort, _, by rw [readFields, if_pos hlack]⟩
  · subst hkind
    exact Or.inr ⟨p, rfl, Or.inl ⟨hzero, hshort, readFields_of_cut_number h hshort hzero⟩⟩

end Reading

section Codec

/-- Octets that are no packet. -/
inductive Undecodable : Bytes → Prop
  | empty : Undecodable []
  /-- No kind has the tag. -/
  | unassigned (tag : UInt8) (tail : Bytes) (h : ∀ kind : PacketKind, kind.tag ≠ tag) :
      Undecodable (tag :: tail)
  /-- A cookie is cut short. -/
  | shortCookie (tail : Bytes) (h : tail.length < cookieSize) :
      Undecodable (PacketKind.cookie.tag :: tail)

theorem ofTag?_eq_none_iff (tag : UInt8) :
    PacketKind.ofTag? tag = none ↔ ∀ kind : PacketKind, kind.tag ≠ tag := by
  constructor
  · intro h kind htag
    rw [← htag, PacketKind.ofTag?_tag] at h
    cases h
  · intro h
    cases hkind : PacketKind.ofTag? tag with
    | none => rfl
    | some kind => exact absurd (tag_of_ofTag hkind) (h kind)

theorem not_undecodable_of_fields
    {kind : PacketKind} (hcookie : kind = .cookie → cookieSize ≤ bs.length) :
    ¬ Undecodable (kind.tag :: bs) := by
  generalize htag : kind.tag = tag
  intro h
  cases h with
  | unassigned _ _ hnone => exact hnone kind htag
  | shortCookie _ hshort =>
      have hkind : kind = .cookie := by
        have hback := PacketKind.ofTag?_tag kind
        rw [htag] at hback
        exact (Option.some.inj hback).symm
      exact absurd hshort (Nat.not_lt.mpr (hcookie hkind))

/-- What decoding can come to: octets that are no packet, a number that is cut short, or the
octets of a packet. -/
theorem decode_cases (hlength : b.length ≤ b.capacity) :
    (Undecodable b.unread ∧ ∃ failure, (decode b).1 = .error failure) ∨
      ∃ (p : Packet) (taken tail : Bytes), ¬ Undecodable b.unread ∧
        b.Before (taken ++ tail) ∧ decode b = (.ok p, b.advance taken.length) ∧
        ((p.number? = some 0 ∧ b.unread.length < 3 ∧ taken = [p.kind.tag]) ∨
          taken = p.octets) := by
  cases hunread : b.unread with
  | nil =>
      have hzero : b.remaining = 0 := by
        have hnone := congrArg List.length hunread
        rw [unread, contents, List.length_drop, List.length_take, List.length_nil] at hnone
        rw [capacity] at hlength
        rw [remaining]
        omega
      exact Or.inl ⟨.empty, _, by rw [decode, if_pos hzero]⟩
  | cons tag bs =>
      have hleft : b.Left ([tag] ++ bs) := ⟨Before.of_unread hunread, hlength⟩
      have hfields : (b.advance 1).Left bs := hleft.advance
      cases hkind : PacketKind.ofTag? tag with
      | none =>
          have hunassigned := (ofTag?_eq_none_iff tag).mp hkind
          exact Or.inl ⟨.unassigned tag bs hunassigned, _,
            congrArg Prod.fst (decode_of_unknown hunread hkind)⟩
      | some kind =>
          have htag := tag_of_ofTag hkind
          have hdecode := decode_of_known hunread hkind
          subst htag
          rcases readFields_cases hfields kind with
            ⟨rfl, hshort, failure, hread⟩ | ⟨p, rfl, ⟨hzero, hshort, hread⟩ | ⟨tail, rfl, hread⟩⟩
          · rw [hread] at hdecode
            exact Or.inl ⟨.shortCookie bs hshort, failure, congrArg Prod.fst hdecode⟩
          · right
            rw [hread] at hdecode
            refine ⟨p, [p.kind.tag], bs, not_undecodable_of_fields ?_,
              Before.of_unread hunread, hdecode,
              Or.inl ⟨hzero, Nat.succ_lt_succ hshort, rfl⟩⟩
            intro hcookie
            cases p with
            | cookie token => cases hzero
            | _ => cases hcookie
          · right
            rw [hread, advance_advance, Nat.add_comm] at hdecode
            refine ⟨p, p.octets, tail, not_undecodable_of_fields ?_,
              Before.of_unread hunread, hdecode, Or.inr rfl⟩
            intro hcookie
            cases p with
            | cookie token =>
                rw [List.length_append, fieldOctets, token.length_eq]
                exact Nat.le_add_right _ _
            | _ => cases hcookie

/-- A packet that is written at the end of a buffer is decoded from there, and nothing is
left. -/
theorem decode_encode_at_end
    {p : Packet} (hproper : p.Proper) (hroom : b.length + p.octets.length ≤ b.capacity) :
    ∃ rest, decode ((p.encode (b.seek b.length)).seek b.length) = (.ok p, rest) ∧
      rest.position = b.length + p.octets.length ∧ rest.length = rest.position := by
  have hfits : (b.seek b.length).fits p.octets.length = true := by
    rw [fits_iff]
    exact Nat.le_trans (Nat.add_le_add_right (Nat.min_le_left _ _) _) hroom
  rw [encode_eq_write p hfits]
  obtain ⟨hleft, hposition, hlength⟩ := Left.of_write_at_end hroom
  generalize ((b.seek b.length).write p.octets).seek b.length = written at *
  have hfields : (written.advance 1).Left (p.fieldOctets ++ []) := by
    rw [List.append_nil]
    exact (show written.Left ([p.kind.tag] ++ p.fieldOctets) from hleft).advance
  have hdecode := decode_of_known hleft.unread (PacketKind.ofTag?_tag p.kind)
  rw [readFields_of_left hproper hfields (endsBefore_nil p), advance_advance,
    Nat.add_comm] at hdecode
  refine ⟨_, hdecode, ?_, ?_⟩
  · rw [← hposition]
    rfl
  · exact hlength.trans (congrArg (· + p.octets.length) hposition.symm)

theorem contents_encode
    {p : Packet} {out : Buffer} (hposition : out.position = 0) (hlength : out.length = 0)
    (hroom : p.octets.length ≤ out.capacity) :
    (p.encode out).contents = p.octets := by
  have hfits : out.fits p.octets.length = true := by
    rw [fits_iff, hposition, Nat.zero_add]
    exact hroom
  rw [encode_eq_write p hfits]
  exact (Before.of_write hposition hlength hfits).1

/-- Encoding and decoding undo one another.  A proper packet written at the end of a buffer
is decoded from there and nothing is left.  Decoding fails for the undecodable octets and no
others; what it gives is written as the octets that were taken, or its number was cut short,
is zero, and only the tag was taken. -/
theorem encode_decode_exact :
    (∀ (p : Packet) (b : Buffer), p.Proper → b.length + p.octets.length ≤ b.capacity →
      ∃ rest, decode ((p.encode (b.seek b.length)).seek b.length) = (.ok p, rest) ∧
        rest.position = b.length + p.octets.length ∧ rest.length = rest.position) ∧
    (∀ b : Buffer, b.length ≤ b.capacity →
      ((∃ failure, (decode b).1 = .error failure) ↔ Undecodable b.unread) ∧
      ∀ (p : Packet) (rest : Buffer), decode b = (.ok p, rest) →
        ∃ taken, b.unread = taken ++ rest.unread ∧ rest = b.advance taken.length ∧
          taken.head? = some p.kind.tag ∧
          if p.number?.isSome ∧ b.unread.length < 3 then
            p.number? = some 0 ∧ taken.length = 1
          else
            ∀ out : Buffer, out.position = 0 → out.length = 0 →
              taken.length ≤ out.capacity → (p.encode out).contents = taken) := by
  refine ⟨fun p b hproper hroom => decode_encode_at_end hproper hroom,
    fun b hlength => ?_⟩
  rcases decode_cases hlength with
    ⟨hbad, failure, herror⟩ | ⟨p, taken, tail, hgood, hbefore, hdecode, hform⟩
  · refine ⟨⟨fun _ => hbad, fun _ => ⟨failure, herror⟩⟩, ?_⟩
    intro p rest hdecode
    rw [hdecode] at herror
    cases herror
  · refine ⟨⟨?_, fun hbad => absurd hbad hgood⟩, ?_⟩
    · rintro ⟨failure, herror⟩
      rw [hdecode] at herror
      cases herror
    · intro p' rest hsame
      obtain ⟨rfl, rfl⟩ : p = p' ∧ b.advance taken.length = rest := by
        simpa [hdecode] using hsame
      refine ⟨taken, by rw [hbefore.advance.unread, hbefore.unread], rfl, ?_⟩
      rcases hform with ⟨hzero, hshort, rfl⟩ | rfl
      · refine ⟨rfl, ?_⟩
        rw [if_pos ⟨by rw [hzero]; rfl, hshort⟩]
        exact ⟨hzero, rfl⟩
      · refine ⟨rfl, ?_⟩
        have hnot : ¬ (p.number?.isSome = true ∧ b.unread.length < 3) := by
          rintro ⟨hnumber, hshort⟩
          rw [hbefore.unread, List.length_append, octets, List.length_cons,
            length_fieldOctets_of_number hnumber] at hshort
          omega
        rw [if_neg hnot]
        exact fun out hposition hempty hroom => contents_encode hposition hempty hroom

/-- A connection request with a public key and a cookie. -/
def fullRequest : Packet :=
  .connect (some ⟨List.replicate publicKeySize 7, rfl⟩)
    (some ⟨List.replicate cookieSize 11, rfl⟩)

/-- A buffer with three octets in it and the cursor among them, and with room for a full
request. -/
def usedBuffer : Buffer :=
  { Buffer.ofBytes (List.replicate 84 5) with position := 1, length := 3 }

theorem full_request_behind_octets :
    fullRequest.Proper ∧
      usedBuffer.length + fullRequest.octets.length ≤ usedBuffer.capacity ∧
      ∃ rest,
        decode ((fullRequest.encode (usedBuffer.seek usedBuffer.length)).seek
            usedBuffer.length) = (.ok fullRequest, rest) ∧
          rest.position = 84 ∧ rest.length = 84 := by
  have hproper : fullRequest.Proper := fun _ => rfl
  have hroom : usedBuffer.length + fullRequest.octets.length ≤ usedBuffer.capacity := by decide
  obtain ⟨rest, hdecode, hposition, hlength⟩ :=
    encode_decode_exact.1 fullRequest usedBuffer hproper hroom
  have hend : rest.position = 84 := hposition
  exact ⟨hproper, hroom, rest, hdecode, hend, hlength.trans hend⟩

end Codec

end Packet
end GameLink
