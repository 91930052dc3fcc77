import GameLink.Buffer.Item
import GameLink.Proofs.Buffer.Bits
import GameLink.Proofs.Buffer.Values

/-!
# What is written is read back

Items written one after the other into an empty buffer are read back from its start by their
kinds, in order and each in its normal form.  Bits are followed by `align` on both sides.

**Octets.** An item is written as certain octets, and nothing else stands between two items.
A text that four octets cannot count has no octets; a buffer drops it.

**Results.**
* `Item.encode?_eq_none_iff`: which items have no octets.
* `Item.put_eq`: an item that fits is one write of its octets.
* `Item.take_eq`: an item is read from its octets in its normal form.
* `items_read_back`: the round trip of a list of items.
-/

namespace GameLink
namespace Buffer

namespace Item

/-- Octets with their count in front, if four octets can count them. -/
def prefixed? (bs : Bytes) : Option Bytes :=
  if bs.length < UInt32.size then some (Bytes.ofNat 4 bs.length ++ bs) else none

/-- The octets of an item. -/
def encode? : Item → Option Bytes
  | .scalar v => some v.toBytes
  | .bool v => some (Scalar.u8 (if v then 1 else 0)).toBytes
  | .bytes v => some v
  | .varint v => some (Varint.encode (Varint.fold32 v).toNat)
  | .varlong v => some (Varint.encode (Varint.fold64 v).toNat)
  | .varuint v => some (Varint.encode v.toNat)
  | .varulong v => some (Varint.encode v.toNat)
  | .text v => prefixed? (Utf8.encode v)
  | .ascii v => prefixed? (Ascii.encode v)
  | .vector v => some (vectorBytes v)
  | .rotator v => some (rotatorBytes v)
  | .wholeVector v => some (wholeBytes v)
  | .bit v => some (Bits.encode [v])
  | .bits vs => some (Bits.encode vs)

/-- The octets of a list of items. -/
def encodeAll? : List Item → Option Bytes
  | [] => some []
  | item :: items => do
      let bs ← item.encode?
      let cs ← encodeAll? items
      some (bs ++ cs)

end Item

/-- Whether the octets of a kind end only when the bits are aligned. -/
def Kind.endsInBits : Kind → Bool
  | .bit | .bits _ => true
  | _ => false

/-- Writes an item, the bits aligned behind it. -/
def Item.put (b : Buffer) (item : Item) : Buffer :=
  if item.kind.endsInBits then (item.write b).align else item.write b

/-- Reads an item, the bits aligned behind it. -/
def Kind.take (b : Buffer) (kind : Kind) : Item × Buffer :=
  if kind.endsInBits then (kind.read b).map id align else kind.read b

/-- Writes items in order. -/
def putAll (b : Buffer) (items : List Item) : Buffer :=
  items.foldl Item.put b

/-- Reads items of the given kinds in order. -/
def takeAll (b : Buffer) : List Kind → List Item × Buffer
  | [] => ([], b)
  | kind :: kinds =>
      let (item, rest) := kind.take b
      let (items, rest) := takeAll rest kinds
      (item :: items, rest)

namespace Item

variable {b : Buffer} {bs : Bytes}

theorem encodeAll?_cons
    {item : Item} {items : List Item} {encoded : Bytes}
    (h : encodeAll? (item :: items) = some encoded) :
    ∃ bs, item.encode? = some bs ∧
      ∃ cs, encodeAll? items = some cs ∧ encoded = bs ++ cs := by
  rw [encodeAll?] at h
  cases hitem : item.encode? with
  | none =>
      rw [hitem] at h
      cases h
  | some bs =>
      cases hitems : encodeAll? items with
      | none =>
          rw [hitem, hitems] at h
          cases h
      | some cs =>
          rw [hitem, hitems] at h
          cases h
          exact ⟨bs, rfl, cs, rfl, rfl⟩

theorem prefixed?_eq_some {cs : Bytes} (h : prefixed? bs = some cs) :
    bs.length < UInt32.size ∧ cs = Bytes.ofNat 4 bs.length ++ bs := by
  rw [prefixed?] at h
  split at h
  · rename_i hshort
    exact ⟨hshort, (Option.some.inj h).symm⟩
  · cases h

theorem prefixed?_eq_none_iff (bs : Bytes) :
    prefixed? bs = none ↔ UInt32.size ≤ bs.length := by
  rw [prefixed?]
  by_cases hshort : bs.length < UInt32.size
  · rw [if_pos hshort]
    exact ⟨nofun, fun hlong => absurd hshort (Nat.not_lt.mpr hlong)⟩
  · rw [if_neg hshort]
    exact ⟨fun _ => Nat.le_of_not_lt hshort, fun _ => rfl⟩

/-- Only texts can be too long for their octets. -/
theorem encode?_eq_none_iff (item : Item) :
    item.encode? = none ↔
      (∃ v, item = .text v ∧ UInt32.size ≤ (Utf8.encode v).length) ∨
        ∃ v, item = .ascii v ∧ UInt32.size ≤ (Ascii.encode v).length := by
  cases item with
  | text v =>
      rw [encode?, prefixed?_eq_none_iff]
      refine ⟨fun hlong => Or.inl ⟨v, rfl, hlong⟩, ?_⟩
      rintro (⟨_, ⟨⟩, hlong⟩ | ⟨_, ⟨⟩, _⟩)
      exact hlong
  | ascii v =>
      rw [encode?, prefixed?_eq_none_iff]
      refine ⟨fun hlong => Or.inr ⟨v, rfl, hlong⟩, ?_⟩
      rintro (⟨_, ⟨⟩, _⟩ | ⟨_, ⟨⟩, hlong⟩)
      exact hlong
  | _ =>
      refine ⟨nofun, ?_⟩
      rintro (⟨_, ⟨⟩, _⟩ | ⟨_, ⟨⟩, _⟩)

theorem writePrefixed_eq {cs : Bytes} (h : prefixed? bs = some cs) :
    b.writePrefixed bs = b.write cs := by
  obtain ⟨hshort, rfl⟩ := prefixed?_eq_some h
  rw [writePrefixed, if_pos hshort]

theorem put_of_not_endsInBits {item : Item} (h : item.kind.endsInBits = false) :
    item.put b = item.write b := by
  rw [put, h, if_neg Bool.false_ne_true]

/-- An item that fits is one write of its octets. -/
theorem put_eq
    {item : Item} (haligned : b.Aligned) (hposition : b.position ≤ b.length)
    (hencode : item.encode? = some bs) (hfits : b.fits bs.length = true) :
    item.put b = b.write bs := by
  cases item with
  | text v => exact writePrefixed_eq hencode
  | ascii v => exact writePrefixed_eq hencode
  | wholeVector v =>
      cases hencode
      rw [put_of_not_endsInBits rfl, Item.write, writeWholeVector_eq hfits]
  | bit v =>
      cases hencode
      exact align_writeBits haligned hposition [v] hfits
  | bits vs =>
      cases hencode
      exact align_writeBits haligned hposition vs hfits
  | _ =>
      cases hencode
      rfl

/-- An item is read from its octets, and the cursor stands behind them. -/
theorem take_eq
    {item : Item} {rest : Bytes} (haligned : b.Aligned)
    (hencode : item.encode? = some bs) (hb : b.Before (bs ++ rest)) :
    item.kind.take b = (item.normal, b.advance bs.length) := by
  cases item with
  | scalar v =>
      cases hencode
      exact (reads_scalar v).map Item.scalar b rest hb
  | bool v =>
      cases hencode
      exact (reads_bool v).map Item.bool b rest hb
  | bytes v =>
      cases hencode
      exact (reads_bytes bs).map Item.bytes b rest hb
  | varint v =>
      cases hencode
      exact (reads_varint v).map Item.varint b rest hb
  | varlong v =>
      cases hencode
      exact (reads_varlong v).map Item.varlong b rest hb
  | varuint v =>
      cases hencode
      exact (reads_varuint v).map Item.varuint b rest hb
  | varulong v =>
      cases hencode
      exact (reads_varulong v).map Item.varulong b rest hb
  | text v =>
      obtain ⟨hshort, rfl⟩ := prefixed?_eq_some hencode
      exact (reads_text hshort).map Item.text b rest hb
  | ascii v =>
      obtain ⟨hshort, rfl⟩ := prefixed?_eq_some hencode
      exact (reads_ascii hshort).map Item.ascii b rest hb
  | vector v =>
      cases hencode
      exact (reads_vector v).map Item.vector b rest hb
  | rotator v =>
      cases hencode
      exact (reads_rotator v).map Item.rotator b rest hb
  | wholeVector v =>
      cases hencode
      exact (reads_wholeVector v).map Item.wholeVector b rest hb
  | bit v =>
      cases hencode
      obtain ⟨hread, hrest⟩ := reads_bits haligned [v] hb
      have hbit : b.readBit.1 = v := List.head_eq_of_cons_eq hread
      exact congrArg₂ Prod.mk (congrArg Item.bit hbit) hrest
  | bits vs =>
      cases hencode
      obtain ⟨hread, hrest⟩ := reads_bits haligned vs hb
      exact congrArg₂ Prod.mk (congrArg Item.bits hread) hrest

end Item

section Sequences

variable {b : Buffer} {items : List Item} {encoded : Bytes}

theorem putAll_eq
    (haligned : b.Aligned) (hposition : b.position ≤ b.length)
    (hencode : Item.encodeAll? items = some encoded) (hfits : b.fits encoded.length = true) :
    putAll b items = b.write encoded := by
  induction items generalizing b encoded with
  | nil =>
      cases hencode
      exact (write_nil hposition hfits).symm
  | cons item items ih =>
      obtain ⟨bs, hitem, cs, hitems, rfl⟩ := Item.encodeAll?_cons hencode
      have hfirst := fits_left hfits
      have hput := item.put_eq haligned hposition hitem hfirst
      have hrest := ih (haligned.write bs) (position_le_length_write hfirst) hitems
        (fits_write hfits)
      rw [← write_write hfits, ← hrest, ← hput]
      rfl

theorem takeAll_eq
    {rest : Bytes} (haligned : b.Aligned)
    (hencode : Item.encodeAll? items = some encoded) (hb : b.Before (encoded ++ rest)) :
    takeAll b (items.map Item.kind) = (items.map Item.normal, b.advance encoded.length) := by
  induction items generalizing b encoded with
  | nil =>
      cases hencode
      rfl
  | cons item items ih =>
      obtain ⟨bs, hitem, cs, hitems, rfl⟩ := Item.encodeAll?_cons hencode
      rw [List.append_assoc] at hb
      have htake := item.take_eq haligned hitem hb
      have hrest := ih (haligned.advance bs.length) hitems hb.advance
      simp only [List.map_cons, takeAll, htake, hrest, advance_advance, List.length_append]

end Sequences

/-- A buffer that nothing was written to since it was made or reset. -/
inductive Blank : Buffer → Prop
  | empty (capacity : Nat) : Blank (empty capacity)
  | reset (used : Buffer) : Blank used.reset

namespace Blank

variable {b : Buffer}

theorem aligned (h : b.Blank) : b.Aligned := by
  cases h with
  | empty capacity => exact ⟨rfl, rfl, rfl, rfl⟩
  | reset used => exact ⟨rfl, rfl, rfl, rfl⟩

theorem at_start (h : b.Blank) : b.position = 0 ∧ b.length = 0 := by
  cases h with
  | empty capacity => exact ⟨rfl, rfl⟩
  | reset used => exact ⟨rfl, rfl⟩

end Blank

/-- Items whose octets fit are read back in order, each in its normal form, and nothing is
left over. -/
theorem items_read_back
    {start : Buffer} (hstart : start.Blank) {items : List Item} {encoded : Bytes}
    (hencode : Item.encodeAll? items = some encoded)
    (hfits : encoded.length ≤ start.capacity) :
    (putAll start items).contents = encoded ∧
      ∃ final,
        takeAll ((putAll start items).seek 0) (items.map Item.kind) =
            (items.map Item.normal, final) ∧
          final.position = final.length ∧ final.contents = encoded := by
  obtain ⟨hposition, hlength⟩ := hstart.at_start
  have hroom : start.fits encoded.length = true := by
    rw [fits_iff, hposition, Nat.zero_add]
    exact hfits
  have hput := putAll_eq hstart.aligned (Nat.le_of_eq (hposition.trans hlength.symm)) hencode
    hroom
  obtain ⟨hcontents, hwritten, hbefore⟩ := Before.of_write hposition hlength hroom
  rw [← hput] at hcontents hwritten hbefore
  have haligned : ((putAll start items).seek 0).Aligned := by
    have hkept := hstart.aligned.write encoded
    rw [← hput] at hkept
    exact ⟨hkept.pendingBits, hkept.pendingCount, hkept.loadedBits, hkept.loadedCount⟩
  rw [← List.append_nil encoded] at hbefore
  refine ⟨hcontents, _, takeAll_eq haligned hencode hbefore, ?_, ?_⟩
  · simp only [advance, seek, Nat.zero_min, Nat.zero_add, hwritten]
  · exact hcontents

/-- Nine bits between numbers and texts, components that are rounded, cut off or no number. -/
def mixedItems : List Item :=
  [.scalar (.u16 0xBEEF), .bits [true, false, true, true, false, false, false, false, true],
    .varint (-3), .ascii "né", .text "né",
    .vector ⟨⟨0x3FC00000⟩, ⟨0xBE800000⟩, ⟨0x7FC00000⟩⟩,
    .wholeVector ⟨⟨0x40300000⟩, ⟨0xC0600000⟩, ⟨0x50000000⟩⟩, .bool true]

/-- The octets of `mixedItems`. -/
def mixedOctets : Bytes :=
  [0xEF, 0xBE, 0x0D, 0x01, 0x05, 0x02, 0x00, 0x00, 0x00, 0x6E, 0x3F,
    0x03, 0x00, 0x00, 0x00, 0x6E, 0xC3, 0xA9, 0x0F, 0x00, 0xFD, 0xFF, 0x00, 0x00,
    0x04, 0x05, 0xFE, 0xFF, 0xFF, 0xFF, 0x0F, 0x01]

/-- What `mixedItems` are read back as. -/
def mixedNormals : List Item :=
  [.scalar (.u16 0xBEEF), .bits [true, false, true, true, false, false, false, false, true],
    .varint (-3), .ascii "n?", .text "né",
    .vector ⟨⟨0x3FC00000⟩, ⟨0xBE99999A⟩, ⟨0⟩⟩,
    .wholeVector ⟨⟨0x40000000⟩, ⟨0xC0400000⟩, ⟨0x4F000000⟩⟩, .bool true]

/-- The octets of the items fill the buffer to its end. -/
theorem mixed_items_read_back :
    Item.encodeAll? mixedItems = some mixedOctets ∧
      mixedOctets.length ≤ (empty 32).capacity ∧
      (putAll (empty 32) mixedItems).contents = mixedOctets ∧
      ∃ final,
        takeAll ((putAll (empty 32) mixedItems).seek 0) (mixedItems.map Item.kind) =
            (mixedNormals, final) ∧
          final.position = final.length ∧ final.contents = mixedOctets := by
  have hencode : Item.encodeAll? mixedItems = some mixedOctets := by decide +kernel
  have hfits : mixedOctets.length ≤ (empty 32).capacity := by decide
  have hnormal : mixedItems.map Item.normal = mixedNormals := by decide +kernel
  have hread := items_read_back (Blank.empty 32) hencode hfits
  rw [hnormal] at hread
  exact ⟨hencode, hfits, hread⟩

end Buffer
end GameLink
