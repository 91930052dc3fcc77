import GameLink.Proofs.Message.Fields
import GameLink.Proofs.Quantization

/-!
# Messages that are cut short

A field whose octets are not all there is zero, and its reader leaves the cursor in front of
what there is of it.  A narrower field behind it may find room there and takes octets that
are not its own.

**Results.**
* `readAll_of_shut`: if no field behind the cut finds room, the fields are cut off.
* `readAll_ne_of_not_shut`: if one does, it may take something else than zero.
* `cut_short_exact`: when the fields of a kind are cut off at a place.
* `cut_short_anywhere_iff`: the kinds whose fields are cut off at every place.
-/

namespace GameLink

open Buffer

/-- The fields that lie wholly within the first octets, and zero for the others. -/
def Field.cutOff : Nat → List Field → List Field
  | _, [] => []
  | room, field :: fields =>
      if field.kind.width ≤ room then
        field :: cutOff (room - field.kind.width) fields
      else
        (field :: fields).map fun other => other.kind.zero

namespace FieldKind

/-- How many fields lie wholly within the first octets. -/
def whole : Nat → List FieldKind → Nat
  | _, [] => 0
  | room, kind :: kinds =>
      if kind.width ≤ room then whole (room - kind.width) kinds + 1 else 0

/-- No field behind the one that is cut finds room in what is left of it. -/
def Shut : Nat → List FieldKind → Prop
  | _, [] => True
  | room, kind :: kinds =>
      if kind.width ≤ room then Shut (room - kind.width) kinds
      else ∀ other ∈ kinds, room < other.width

theorem width_pos (kind : FieldKind) : 0 < kind.width := by
  cases kind with
  | scalar kind => cases kind <;> decide
  | bool | vector | rotator => decide

/-- No field behind a cut finds room, wherever the cut is, exactly if no field is narrower than
one in front of it. -/
theorem shut_iff_pairwise (kinds : List FieldKind) :
    (∀ room, Shut room kinds) ↔
      kinds.Pairwise fun first second => first.width ≤ second.width := by
  induction kinds with
  | nil => exact ⟨fun _ => List.Pairwise.nil, fun _ _ => trivial⟩
  | cons kind kinds ih =>
      rw [List.pairwise_cons, ← ih]
      constructor
      · intro hall
        constructor
        · intro other hmem
          have hpos := kind.width_pos
          have hshut := hall (kind.width - 1)
          rw [Shut, if_neg (by omega)] at hshut
          have hnarrow := hshut other hmem
          omega
        · intro room
          have hshut := hall (kind.width + room)
          rw [Shut, if_pos (Nat.le_add_right _ _), Nat.add_sub_cancel_left] at hshut
          exact hshut
      · rintro ⟨hwidth, hall⟩ room
        rw [Shut]
        by_cases hle : kind.width ≤ room
        · rw [if_pos hle]
          exact hall _
        · rw [if_neg hle]
          exact fun other hmem => Nat.lt_of_lt_of_le (Nat.lt_of_not_le hle) (hwidth other hmem)

variable {b : Buffer} {bs : Bytes} {room : Nat}

/-- A field whose octets are not all there is zero, and nothing is taken. -/
theorem read_of_short (kind : FieldKind) (h : b.Left bs) (hshort : bs.length < kind.width) :
    kind.read b = (kind.zero, b) := by
  cases kind with
  | scalar kind =>
      have hnumber : b.readNat kind.width = (0, b) := h.readNat_of_short hshort
      simp only [read, readScalar, hnumber]
      rfl
  | bool =>
      have hnumber : b.readNat 1 = (0, b) := h.readNat_of_short hshort
      simp only [read, readBool, readU8, hnumber]
      rfl
  | vector =>
      have hmissing : ¬ b.holds 6 = true := fun hroom =>
        absurd ((h.holds_iff 6).mp hroom) (Nat.not_le.mpr hshort)
      simp only [read, readVector, if_neg hmissing]
      rfl
  | rotator =>
      have hmissing : ¬ b.holds 6 = true := fun hroom =>
        absurd ((h.holds_iff 6).mp hroom) (Nat.not_le.mpr hshort)
      simp only [read, readRotator, if_neg hmissing]
      rfl

theorem readAll_of_short
    {kinds : List FieldKind} (h : b.Left bs) (hshort : ∀ kind ∈ kinds, bs.length < kind.width) :
    readAll b kinds = (kinds.map zero, b) := by
  induction kinds with
  | nil => rfl
  | cons kind kinds ih =>
      have hhead := kind.read_of_short h (hshort kind List.mem_cons_self)
      have hrest := ih fun other hmem => hshort other (List.mem_cons_of_mem kind hmem)
      simp only [readAll, hhead, hrest, List.map_cons]

section WholeFields

/-- The first field is wholly there. -/
theorem readAll_cons_of_le
    {field : Field} {fields : List Field} (hle : field.kind.width ≤ room)
    (h : b.Left ((Field.octetsOf (field :: fields)).take room)) :
    ∃ rest : Buffer, rest.Left ((Field.octetsOf fields).take (room - field.kind.width)) ∧
      (readAll b (field.kind :: fields.map Field.kind)).1 =
        field.normal :: (readAll rest (fields.map Field.kind)).1 := by
  rw [Field.octetsOf, List.flatMap_cons, List.take_append, field.length_octets,
    List.take_of_length_le (by rw [field.length_octets]; exact hle)] at h
  have hread := field.reads b _ h.toBefore
  refine ⟨_, h.advance, ?_⟩
  simp only [readAll, hread]

/-- The first field is cut. -/
theorem readAll_cons_of_lt
    {field : Field} {fields : List Field} (hlt : room < field.kind.width)
    (h : b.Left ((Field.octetsOf (field :: fields)).take room)) :
    b.Left (field.octets.take room) ∧
      (readAll b (field.kind :: fields.map Field.kind)).1 =
        field.kind.zero :: (readAll b (fields.map Field.kind)).1 := by
  rw [Field.octetsOf, List.flatMap_cons, List.take_append_of_le_length
    (by rw [field.length_octets]; exact Nat.le_of_lt hlt)] at h
  have hshort : (field.octets.take room).length < field.kind.width := by
    rw [List.length_take]
    exact Nat.lt_of_le_of_lt (Nat.min_le_left _ _) hlt
  refine ⟨h, ?_⟩
  simp only [readAll, field.kind.read_of_short h hshort]

/-- The fields in front of the cut are read, and the field that is cut is zero. -/
theorem take_readAll
    {fields : List Field} (h : b.Left ((Field.octetsOf fields).take room)) :
    (readAll b (fields.map Field.kind)).1.take (whole room (fields.map Field.kind) + 1) =
      (Field.cutOff room (fields.map Field.normal)).take
        (whole room (fields.map Field.kind) + 1) := by
  induction fields generalizing b room with
  | nil => rfl
  | cons field fields ih =>
      rw [List.map_cons, whole, List.map_cons, Field.cutOff, Field.kind_normal]
      by_cases hle : field.kind.width ≤ room
      · obtain ⟨rest, hrest, hread⟩ := readAll_cons_of_le hle h
        rw [if_pos hle, if_pos hle, hread, List.take_succ_cons, List.take_succ_cons, ih hrest]
      · obtain ⟨_, hread⟩ := readAll_cons_of_lt (Nat.lt_of_not_le hle) h
        rw [if_neg hle, if_neg hle, hread]
        simp

/-- If no field behind the cut finds room, the fields are cut off. -/
theorem readAll_of_shut
    {fields : List Field} (hshut : Shut room (fields.map Field.kind))
    (h : b.Left ((Field.octetsOf fields).take room)) :
    (readAll b (fields.map Field.kind)).1 = Field.cutOff room (fields.map Field.normal) := by
  induction fields generalizing b room with
  | nil => rfl
  | cons field fields ih =>
      rw [List.map_cons, Shut] at hshut
      rw [List.map_cons, List.map_cons, Field.cutOff, Field.kind_normal]
      by_cases hle : field.kind.width ≤ room
      · rw [if_pos hle] at hshut
        obtain ⟨rest, hrest, hread⟩ := readAll_cons_of_le hle h
        rw [if_pos hle, hread, ih hshut hrest]
      · rw [if_neg hle] at hshut
        obtain ⟨hleft, hread⟩ := readAll_cons_of_lt (Nat.lt_of_not_le hle) h
        have hnone : ∀ kind ∈ fields.map Field.kind,
            (field.octets.take room).length < kind.width := by
          intro kind hmem
          rw [List.length_take]
          exact Nat.lt_of_le_of_lt (Nat.min_le_left _ _) (hshut kind hmem)
        rw [if_neg hle, hread, readAll_of_short hleft hnone]
        simp [Function.comp_def]

end WholeFields

section TakenFields

/-- A field whose octets have all bits set, as far as its kind has such a field. -/
def full : FieldKind → Field
  | .scalar kind => .scalar (.ofNat kind (Bytes.toNat (List.replicate kind.width 255)))
  | .bool => .bool true
  | .vector => .vector ⟨.dequantize (-1), .dequantize (-1), .dequantize (-1)⟩
  | .rotator => .rotator ⟨.dequantize (-1), .dequantize (-1), .dequantize (-1)⟩

theorem kind_full (kind : FieldKind) : kind.full.kind = kind := by
  cases kind with
  | scalar kind => exact congrArg FieldKind.scalar (Scalar.kind_ofNat ..)
  | bool | vector | rotator => rfl

theorem normal_full (kind : FieldKind) : kind.full.normal = kind.full := by
  have hstepped : (Single.dequantize (-1)).stepped = Single.dequantize (-1) :=
    congrArg Single.dequantize (Single.quantize_dequantize (-1))
  cases kind with
  | scalar kind => rfl
  | bool => rfl
  | vector => simp only [full, Field.normal, Vector3.map, hstepped]
  | rotator => simp only [full, Field.normal, Rotator.map, hstepped]

theorem full_ne_zero (kind : FieldKind) : kind.full ≠ kind.zero := by
  cases kind with
  | scalar kind => cases kind <;> decide +kernel
  | bool | vector | rotator => decide +kernel

theorem octets_full {kind : FieldKind} (h : kind ≠ .bool) :
    kind.full.octets = List.replicate kind.width 255 := by
  cases kind with
  | scalar kind => cases kind <;> decide +kernel
  | bool => exact absurd rfl h
  | vector | rotator => decide +kernel

/-- A field that takes set bits is not zero. -/
theorem read_ones_ne_zero
    {kind : FieldKind} (h : b.Left (List.replicate room 255)) (hle : kind.width ≤ room) :
    (kind.read b).1 ≠ kind.zero := by
  by_cases hbool : kind = .bool
  · subst hbool
    obtain ⟨less, rfl⟩ := Nat.exists_eq_add_of_le hle
    have hoctet : b.Left (255 :: List.replicate less 255) := by
      rw [Nat.add_comm] at h
      exact h
    have hread : b.readU8 = (255, b.advance 1) := hoctet.readU8_eq
    simp only [read, readBool, hread]
    exact (by decide : Field.bool (255 != 0) ≠ bool.zero)
  · have hsplit : List.replicate room (255 : UInt8) =
        kind.full.octets ++ List.replicate (room - kind.width) 255 := by
      rw [octets_full hbool, List.replicate_append_replicate, Nat.add_sub_cancel' hle]
    rw [hsplit] at h
    have hread : kind.full.kind.read b = (kind.full.normal, _) := kind.full.reads b _ h.toBefore
    rw [kind_full, normal_full] at hread
    rw [hread]
    exact full_ne_zero kind

theorem readAll_ones_ne_zero
    {kinds : List FieldKind} (h : b.Left (List.replicate room 255))
    (hroom : ∃ kind ∈ kinds, kind.width ≤ room) :
    (readAll b kinds).1 ≠ kinds.map zero := by
  induction kinds with
  | nil => simp at hroom
  | cons kind kinds ih =>
      intro hzero
      simp only [readAll, List.map_cons, List.cons.injEq] at hzero
      obtain ⟨hhead, htail⟩ := hzero
      by_cases hle : kind.width ≤ room
      · exact read_ones_ne_zero h hle hhead
      · have hshort : (List.replicate room (255 : UInt8)).length < kind.width := by
          rw [List.length_replicate]
          exact Nat.lt_of_not_le hle
        rw [kind.read_of_short h hshort] at htail
        refine ih ?_ htail
        obtain ⟨other, hmem, hother⟩ := hroom
        rcases List.mem_cons.mp hmem with rfl | hbehind
        · exact absurd hother hle
        · exact ⟨other, hbehind, hother⟩

/-- If a field behind the cut finds room, it may take something else than zero. -/
theorem readAll_ne_of_not_shut
    {fields : List Field} (hfull : ∀ field ∈ fields, field = field.kind.full)
    (hopen : ¬ Shut room (fields.map Field.kind))
    (h : b.Left ((Field.octetsOf fields).take room)) :
    (readAll b (fields.map Field.kind)).1 ≠ Field.cutOff room (fields.map Field.normal) := by
  induction fields generalizing b room with
  | nil => exact absurd trivial hopen
  | cons field fields ih =>
      have hfirst := hfull field List.mem_cons_self
      have hothers : ∀ other ∈ fields, other = other.kind.full :=
        fun other hmem => hfull other (List.mem_cons_of_mem field hmem)
      rw [List.map_cons, Shut] at hopen
      rw [List.map_cons, List.map_cons, Field.cutOff, Field.kind_normal]
      by_cases hle : field.kind.width ≤ room
      · rw [if_pos hle] at hopen
        obtain ⟨rest, hrest, hread⟩ := readAll_cons_of_le hle h
        rw [if_pos hle, hread]
        exact fun heq => ih hothers hopen hrest (List.cons.inj heq).2
      · rw [if_neg hle] at hopen
        have hlt := Nat.lt_of_not_le hle
        obtain ⟨hleft, hread⟩ := readAll_cons_of_lt hlt h
        have hroom : ∃ kind ∈ fields.map Field.kind, kind.width ≤ room := by
          simpa using hopen
        -- a truth value is too narrow to be cut with something left of it
        have hbool : field.kind ≠ .bool := by
          intro hkind
          obtain ⟨other, _, hother⟩ := hroom
          have hpos := other.width_pos
          rw [hkind] at hlt
          exact absurd hlt (Nat.not_lt.mpr (hpos.trans_le hother))
        have hones : b.Left (List.replicate room 255) := by
          rw [hfirst, octets_full hbool, List.take_replicate,
            Nat.min_eq_left (Nat.le_of_lt hlt)] at hleft
          exact hleft
        have hother := readAll_ones_ne_zero hones hroom
        rw [if_neg hle, hread]
        intro heq
        rw [List.map_cons, List.cons.injEq] at heq
        refine hother (heq.2.trans ?_)
        simp [Function.comp_def]

end TakenFields

end FieldKind

section Messages

namespace Message

variable {kind : MessageKind}

/-- The octets of the fields, as they are written to an empty buffer. -/
def body (m : Message) : Bytes :=
  (m.writeFields (Buffer.empty m.kind.bodySize)).contents

theorem body_eq_octets (m : Message) : m.body = m.octets := by
  have hfits : (Buffer.empty m.kind.bodySize).fits m.octets.length = true := by
    rw [fits_iff, capacity_empty, length_octets]
    exact Nat.le_of_eq (Nat.zero_add _)
  rw [body, writeFields_eq_write (Nat.le_refl _) hfits]
  exact (Before.of_write rfl rfl hfits).1

/-- Fields of the right kinds that reading does not change are the fields of a message. -/
theorem exists_of_fields
    {fields : List Field} (hkinds : fields.map Field.kind = kind.layout)
    (hnormal : fields.map Field.normal = fields) :
    ∃ m : Message, m.kind = kind ∧ m.fields = fields := by
  have hleft := left_ofBytes (Field.octetsOf fields)
  generalize Buffer.ofBytes (Field.octetsOf fields) = b at hleft
  have hread := FieldKind.readAll_of_before
    (show b.Before (Field.octetsOf fields ++ []) by simpa using hleft.toBefore)
  rw [hkinds, kind.readAll_layout, hnormal] at hread
  exact ⟨_, kind.kind_readFields b, congrArg Prod.fst hread⟩

end Message

namespace MessageKind

variable {b : Buffer} {bs : Bytes}

/-- The fields behind the number of a message. -/
theorem decode_of_left
    (kind : MessageKind) (h : b.Left ((Scalar.u16 kind.number).toBytes ++ bs)) :
    (b.advance 2).Left bs ∧
      kind.side.decode b = (kind.readFields (b.advance 2)).map .ok id :=
  ⟨h.advance, kind.decode_of_before h.toBefore⟩

/-- The fields of the messages of a kind are cut off at a place exactly if no field behind the
cut finds room. -/
theorem fields_cutOff_iff_shut (kind : MessageKind) (room : Nat) :
    (∀ (m : Message) (b : Buffer), m.kind = kind → b.Left (m.body.take room) →
        (kind.readFields b).1.fields = Field.cutOff room m.normal.fields) ↔
      FieldKind.Shut room kind.layout := by
  have hfields (m : Message) (b : Buffer) (hkind : m.kind = kind) :
      (kind.readFields b).1.fields =
        (FieldKind.readAll b (m.fields.map Field.kind)).1 := by
    rw [m.map_kind_fields, hkind, kind.readAll_layout]
  constructor
  · intro hall
    by_contra hopen
    -- the message with all bits set betrays whatever is taken from the cut field
    have hkinds : (kind.layout.map FieldKind.full).map Field.kind = kind.layout := by
      simp [Function.comp_def, FieldKind.kind_full]
    have hnormal : (kind.layout.map FieldKind.full).map Field.normal =
        kind.layout.map FieldKind.full := by
      simp [Function.comp_def, FieldKind.normal_full]
    obtain ⟨m, hkind, hfull⟩ := Message.exists_of_fields hkinds hnormal
    have hleft := left_ofBytes (m.body.take room)
    have hcut := hall m _ hkind hleft
    rw [m.body_eq_octets, Message.octets] at hleft
    rw [hfields m _ hkind, m.fields_normal, m.body_eq_octets] at hcut
    rw [← hkind, ← m.map_kind_fields] at hopen
    refine FieldKind.readAll_ne_of_not_shut ?_ hopen hleft hcut
    intro field hmem
    rw [hfull, List.mem_map] at hmem
    obtain ⟨other, _, rfl⟩ := hmem
    rw [FieldKind.kind_full]
  · intro hshut m b hkind hleft
    rw [m.body_eq_octets] at hleft
    rw [hfields m b hkind, m.fields_normal]
    refine FieldKind.readAll_of_shut ?_ hleft
    rw [m.map_kind_fields, hkind]
    exact hshut

/-- What is read from the octets of the fields of a message, and from the first of them, whether
from the fields or from the number in front of them.  The fields that lie wholly within and the
one that is cut are as they should be.  The others are, for all messages of the kind, exactly if
no field behind the cut finds room in what is left of the one that is cut. -/
theorem cut_short_exact (kind : MessageKind) (room : Nat) :
    (∀ (m : Message) (b : Buffer), m.kind = kind → b.Left m.body →
      (kind.readFields b).1 = m.normal) ∧
    (∀ (m : Message) (b : Buffer), m.kind = kind → b.Left (m.body.take room) →
      (kind.readFields b).1.kind = kind ∧
        (kind.readFields b).1.fields.take (FieldKind.whole room kind.layout + 1) =
          (Field.cutOff room m.normal.fields).take (FieldKind.whole room kind.layout + 1)) ∧
    ((∀ (m : Message) (b : Buffer), m.kind = kind → b.Left (m.body.take room) →
        (kind.readFields b).1.fields = Field.cutOff room m.normal.fields) ↔
      FieldKind.Shut room kind.layout) ∧
    (∀ (b : Buffer) (bs : Bytes), b.Left ((Scalar.u16 kind.number).toBytes ++ bs) →
      (b.advance 2).Left bs ∧
        kind.side.decode b = (kind.readFields (b.advance 2)).map .ok id) := by
  refine ⟨?_, ?_, kind.fields_cutOff_iff_shut room, fun b bs h => kind.decode_of_left h⟩
  · intro m b hkind hleft
    subst hkind
    rw [m.body_eq_octets, ← List.append_nil m.octets] at hleft
    exact congrArg Prod.fst (readFields_of_before m hleft.toBefore)
  intro m b hkind hleft
  rw [m.body_eq_octets] at hleft
  have hread := FieldKind.take_readAll hleft
  rw [m.map_kind_fields, hkind, kind.readAll_layout] at hread
  rw [m.fields_normal]
  exact ⟨kind.kind_readFields b, hread⟩

/-- A snapshot head that is cut to one octet takes its mask from its number. -/
theorem delta_sync_cut_to_one_octet :
    ¬ FieldKind.Shut 1 (MessageKind.server .deltaSync).layout ∧
      (Buffer.ofBytes [1]).Left ((Message.server (.deltaSync 1 2)).body.take 1) ∧
      ((MessageKind.server .deltaSync).readFields (Buffer.ofBytes [1])).1 =
        .server (.deltaSync 0 1) ∧
      Field.cutOff 1 (Message.server (.deltaSync 1 2)).normal.fields =
        (Message.server (.deltaSync 0 0)).fields ∧
      ¬ ∀ (m : Message) (b : Buffer), m.kind = .server .deltaSync →
        b.Left (m.body.take 1) →
          ((MessageKind.server .deltaSync).readFields b).1.fields =
            Field.cutOff 1 m.normal.fields := by
  have hopen : ¬ FieldKind.Shut 1 (MessageKind.server .deltaSync).layout := by
    intro hshut
    exact absurd (hshut (.scalar .u8) List.mem_cons_self) (by decide)
  refine ⟨hopen, ?_, by decide, by decide, ?_⟩
  · rw [show (Message.server (.deltaSync 1 2)).body.take 1 = [1] by decide]
    exact left_ofBytes [1]
  · exact fun hall => hopen ((cut_short_exact (.server .deltaSync) 1).2.2.1.mp hall)

/-- The fields of the messages of a kind are cut off wherever they are cut exactly if no field
is narrower than one in front of it. -/
theorem cut_short_anywhere_iff (kind : MessageKind) :
    (∀ (m : Message) (b : Buffer) (room : Nat), m.kind = kind → b.Left (m.body.take room) →
        (kind.readFields b).1.fields = Field.cutOff room m.normal.fields) ↔
      kind.layout.Pairwise fun first second => first.width ≤ second.width := by
  rw [← FieldKind.shut_iff_pairwise]
  constructor
  · intro hall room
    rw [← kind.fields_cutOff_iff_shut]
    exact fun m b => hall m b room
  · intro hshut m b room
    exact (kind.fields_cutOff_iff_shut room).mpr (hshut room) m b

example :
    [MessageKind.server .benchmark, .server .createEntity, .server .updateEntity,
        .server .removeEntity, .server .deltaSync, .server .syncStateInt,
        .server .updateEntityQuantized, .client .syncEntity, .client .enterToWorld,
        .client .rekeyResponse, .client .syncEntityQuantized].filter
          (fun kind => kind.layout.Pairwise fun first second => first.width ≤ second.width) =
      [.server .benchmark, .server .removeEntity, .server .syncStateInt, .client .enterToWorld,
        .client .rekeyResponse] := by
  decide

end MessageKind

end Messages

end GameLink
