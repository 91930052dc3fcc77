import GameLink.Proofs.Buffer.Items
import GameLink.Proofs.Buffer.Steps

/-!
# Writes that store all of their octets or none

What a write leaves behind, at every distance of the cursor from the end of the storage.

**Parts.** A value that is written as one string of octets is stored whole or not at all.  The
integer parts of a whole vector are written each for itself: one that does not fit is left out, and
a later one may be stored in its place.  A signature goes to the end of the contents, and the cursor
goes there even if the signature does not fit.

**Results.**
* `allOrNothing_write`: one string of octets.
* `Item.write_eq`: the items that are written as one.
* `writeParts_eq`: parts are one write of those that find room.
* `allOrNothing_writeParts_iff`, `allOrNothing_sign_iff`: when the others are all or nothing.
* `writes_all_or_nothing_exact`: all of it together.
-/

namespace GameLink
namespace Buffer

variable {b : Buffer}

/-- Octets are stored at a place, all of them, and no others are touched; the cursor stands behind
them, and the mark is not behind the cursor. -/
structure Stores (b : Buffer) (place : Nat) (bs : Bytes) (b' : Buffer) : Prop where
  room : place + bs.length ≤ b.capacity
  stored : (b'.storage.drop place).take bs.length = bs
  before : b'.storage.take place = b.storage.take place
  behind : b'.storage.drop (place + bs.length) = b.storage.drop (place + bs.length)
  position : b'.position = place + bs.length
  length : b'.length = max b.length b'.position
  rest : { b' with storage := b.storage, position := b.position, length := b.length } = b

/-- Octets that fit at a place are stored there; octets that do not fit, or none, change nothing. -/
def AllOrNothing (b : Buffer) (place : Nat) (bs? : Option Bytes) (b' : Buffer) : Prop :=
  match bs? with
  | some bs => if place + bs.length ≤ b.capacity then b.Stores place bs b' else b' = b
  | none => b' = b

section OctetsInOnePiece

theorem stores_write {bs : Bytes} (h : b.fits bs.length = true) :
    b.Stores b.position bs (b.write bs) := by
  have hroom := (fits_iff b bs.length).mp h
  have hstart : (b.storage.take b.position).length = b.position := by
    rw [List.length_take]
    exact Nat.min_eq_left (Nat.le_trans (Nat.le_add_right _ _) hroom)
  rw [write_of_fits h]
  refine ⟨hroom, ?_, ?_, ?_, rfl, rfl, rfl⟩
  · rw [List.append_assoc, List.drop_left' hstart, List.take_left]
  · rw [List.append_assoc, List.take_left' hstart]
  · exact List.drop_left' (length_take_append h)

/-- One string of octets is stored whole or not at all. -/
theorem allOrNothing_write (b : Buffer) (bs : Bytes) :
    b.AllOrNothing b.position (some bs) (b.write bs) := by
  simp only [AllOrNothing]
  split
  · rename_i hroom
    exact stores_write ((fits_iff b _).mpr hroom)
  · rename_i hfull
    exact write_of_not_fits (Bool.eq_false_iff.mpr fun hfits => hfull ((fits_iff b _).mp hfits))

/-- An item that is neither bits nor a whole vector is written as one string of octets. -/
theorem Item.write_eq {item : Item} (hbits : item.kind.endsInBits = false)
    (hwhole : ∀ v, item ≠ .wholeVector v) :
    item.write b = item.encode?.elim b b.write := by
  have hprefixed (bs : Bytes) : b.writePrefixed bs = (prefixed? bs).elim b b.write := by
    rw [writePrefixed, prefixed?]
    split
    · rfl
    · rfl
  cases item with
  | text v => exact hprefixed _
  | ascii v => exact hprefixed _
  | wholeVector v => exact absurd rfl (hwhole v)
  | bit v => cases hbits
  | bits v => cases hbits
  | _ => rfl

theorem Item.allOrNothing_write {item : Item} (hbits : item.kind.endsInBits = false)
    (hwhole : ∀ v, item ≠ .wholeVector v) :
    b.AllOrNothing b.position item.encode? (item.write b) := by
  rw [Item.write_eq hbits hwhole]
  cases item.encode? with
  | none => rfl
  | some bs => exact Buffer.allOrNothing_write b bs

end OctetsInOnePiece

section OctetsInParts

/-- Writes parts in order, each for itself. -/
def writeParts (b : Buffer) (parts : List Bytes) : Buffer :=
  parts.foldl write b

/-- The parts that find room one after the other, joined. -/
def taken (room : Nat) : List Bytes → Bytes
  | [] => []
  | part :: parts =>
      if part.length ≤ room then part ++ taken (room - part.length) parts else taken room parts

theorem length_taken_le (room : Nat) (parts : List Bytes) : (taken room parts).length ≤ room := by
  induction parts generalizing room with
  | nil => exact Nat.zero_le _
  | cons part parts ih =>
      rw [taken]
      split
      · have hrest := ih (room - part.length)
        rw [List.length_append]
        omega
      · exact ih room

/-- Parts that fit together are all taken. -/
theorem taken_of_le {room : Nat} {parts : List Bytes} (h : parts.flatten.length ≤ room) :
    taken room parts = parts.flatten := by
  induction parts generalizing room with
  | nil => rfl
  | cons part parts ih =>
      rw [List.flatten_cons, List.length_append] at h
      rw [taken, if_pos (by omega), ih (by omega), List.flatten_cons]

/-- What fits in the room that is left fits behind the cursor. -/
theorem fits_of_le_room {n : Nat} (hpos : 0 < n) (h : n ≤ b.capacity - b.position) :
    b.fits n = true := by
  rw [fits_iff]
  omega

theorem fits_taken {parts : List Bytes} (h : taken (b.capacity - b.position) parts ≠ []) :
    b.fits (taken (b.capacity - b.position) parts).length = true :=
  fits_of_le_room (List.length_pos_iff.mpr h) (length_taken_le _ _)

/-- Parts are one write of those that find room; if none does, nothing is done. -/
theorem writeParts_eq {parts : List Bytes} (hparts : ∀ part ∈ parts, part ≠ []) :
    b.writeParts parts =
      if taken (b.capacity - b.position) parts = [] then b
      else b.write (taken (b.capacity - b.position) parts) := by
  induction parts generalizing b with
  | nil => rfl
  | cons part parts ih =>
      obtain ⟨hpart, hrest⟩ := List.forall_mem_cons.mp hparts
      have hstep : b.writeParts (part :: parts) = (b.write part).writeParts parts := rfl
      rw [hstep, taken]
      by_cases hroom : part.length ≤ b.capacity - b.position
      · have hfits : b.fits part.length = true :=
          fits_of_le_room (List.length_pos_iff.mpr hpart) hroom
        have hleft : b.capacity - b.position - part.length =
            (b.write part).capacity - (b.write part).position := by
          rw [capacity_write, position_write hfits, Nat.sub_sub]
        rw [if_pos hroom, if_neg (List.append_ne_nil_of_left_ne_nil hpart _), ih hrest, hleft]
        split
        · rename_i hnone
          rw [hnone, List.append_nil]
        · rename_i hsome
          refine write_write (fits_of_le_room ?_ ?_)
          · exact List.length_pos_iff.mpr (List.append_ne_nil_of_left_ne_nil hpart _)
          · have hbound := length_taken_le ((b.write part).capacity - (b.write part).position) parts
            rw [← hleft] at hbound ⊢
            rw [List.length_append]
            omega
      · have hfull : b.fits part.length = false :=
          Bool.eq_false_iff.mpr fun hfits => hroom (by
            have := (fits_iff b _).mp hfits
            omega)
        rw [if_neg hroom, write_of_not_fits hfull]
        exact ih hrest

/-- What parts come to: those that find room are stored as one string. -/
theorem stores_writeParts {parts : List Bytes} (hparts : ∀ part ∈ parts, part ≠ [])
    (h : taken (b.capacity - b.position) parts ≠ []) :
    b.Stores b.position (taken (b.capacity - b.position) parts) (b.writeParts parts) := by
  rw [writeParts_eq hparts, if_neg h]
  exact stores_write (fits_taken h)

/-- Parts are all or nothing exactly if all of them find room or none does. -/
theorem allOrNothing_writeParts_iff {parts : List Bytes} (hsome : parts.flatten ≠ [])
    (hparts : ∀ part ∈ parts, part ≠ []) :
    b.AllOrNothing b.position (some parts.flatten) (b.writeParts parts) ↔
      taken (b.capacity - b.position) parts = [] ∨
        taken (b.capacity - b.position) parts = parts.flatten := by
  simp only [AllOrNothing]
  by_cases hroom : b.position + parts.flatten.length ≤ b.capacity
  · have hall : taken (b.capacity - b.position) parts = parts.flatten :=
      taken_of_le (Nat.le_sub_of_add_le' hroom)
    have hstores := stores_writeParts hparts (hall.symm ▸ hsome)
    rw [hall] at hstores
    rw [if_pos hroom]
    exact ⟨fun _ => Or.inr hall, fun _ => hstores⟩
  · rw [if_neg hroom, writeParts_eq hparts]
    constructor
    · intro hsame
      by_contra hneither
      obtain ⟨hnone, -⟩ := not_or.mp hneither
      rw [if_neg hnone] at hsame
      have hmoved := position_write (fits_taken hnone)
      rw [hsame] at hmoved
      have hlength := List.length_pos_iff.mpr hnone
      omega
    · rintro (hnone | hall)
      · rw [if_pos hnone]
      · have hbound := length_taken_le (b.capacity - b.position) parts
        have hlength := List.length_pos_iff.mpr hsome
        rw [hall] at hbound
        omega

/-- The integer parts of a vector. -/
def wholeParts (v : Vector3) : List Bytes :=
  [v.x, v.y, v.z].map fun c => Varint.encode (Varint.fold32 c.truncate).toNat

theorem flatten_wholeParts (v : Vector3) : (wholeParts v).flatten = wholeBytes v := by
  simp only [wholeParts, wholeBytes, List.map_cons, List.map_nil, List.flatten_cons,
    List.flatten_nil, List.append_nil]

theorem ne_nil_of_mem_wholeParts (v : Vector3) : ∀ part ∈ wholeParts v, part ≠ [] := by
  intro part hpart
  obtain ⟨c, -, rfl⟩ := List.mem_map.mp hpart
  exact Varint.encode_ne_nil _

theorem wholeBytes_ne_nil (v : Vector3) : wholeBytes v ≠ [] :=
  List.append_ne_nil_of_left_ne_nil (Varint.encode_ne_nil _) _

end OctetsInParts

section Signatures

/-- The octets of the checksum of the contents. -/
def signatureBytes (b : Buffer) : Bytes :=
  (Scalar.u32 (Checksum.crc32c b.contents)).toBytes

theorem length_signatureBytes (b : Buffer) : b.signatureBytes.length = signatureSize :=
  Scalar.length_toBytes _

theorem sign_eq (b : Buffer) :
    b.sign = { b with position := b.length }.write b.signatureBytes :=
  rfl

/-- A signature that fits is stored at the end of the contents. -/
theorem stores_sign (h : b.length + signatureSize ≤ b.capacity) :
    b.Stores b.length b.signatureBytes b.sign := by
  have hfits : { b with position := b.length }.fits b.signatureBytes.length = true := by
    rw [fits_iff, length_signatureBytes]
    exact h
  obtain ⟨hroom, hstored, hbefore, hbehind, hposition, hlength, hrest⟩ := stores_write hfits
  refine ⟨hroom, hstored, hbefore, hbehind, hposition, hlength, ?_⟩
  exact congrArg (fun moved : Buffer => { moved with position := b.position }) hrest

/-- A signature that does not fit moves the cursor all the same. -/
theorem sign_of_full (h : b.capacity < b.length + signatureSize) :
    b.sign = { b with position := b.length } := by
  rw [sign_eq]
  refine write_of_not_fits (Bool.eq_false_iff.mpr fun hfits => ?_)
  rw [fits_iff, length_signatureBytes] at hfits
  exact absurd h (Nat.not_lt.mpr hfits)

theorem allOrNothing_sign_iff (b : Buffer) :
    b.AllOrNothing b.length (some b.signatureBytes) b.sign ↔
      b.length + signatureSize ≤ b.capacity ∨ b.position = b.length := by
  simp only [AllOrNothing, length_signatureBytes]
  split
  · rename_i hroom
    exact ⟨fun _ => Or.inl hroom, fun _ => stores_sign hroom⟩
  · rename_i hfull
    rw [sign_of_full (Nat.lt_of_not_le hfull)]
    constructor
    · intro hsame
      exact Or.inr (congrArg Buffer.position hsame).symm
    · rintro (hroom | hthere)
      · exact absurd hroom hfull
      · exact congrArg (fun position => { b with position := position }) hthere.symm

end Signatures

section AllWrites

/-- **What every write comes to**, for every buffer and every value.  A value other than bits and
whole vectors is stored whole or not at all.  Of a whole vector the integer parts that find room one
after the other are stored, so it is all or nothing exactly if they all do or none does.  A
signature is stored at the end if it fits; if not, the cursor moves there and nothing else changes.
The operations made of single accesses do the same on every buffer whose cursor, mark and bits are
in their places. -/
theorem writes_all_or_nothing_exact (b : Buffer) :
    (∀ item : Item, item.kind.endsInBits = false → (∀ v, item ≠ .wholeVector v) →
      b.AllOrNothing b.position item.encode? (item.write b)) ∧
    (∀ v : Vector3,
      let stored := taken (b.capacity - b.position) (wholeParts v)
      (stored = [] → b.writeWholeVector v = b) ∧
      (stored ≠ [] → b.Stores b.position stored (b.writeWholeVector v)) ∧
      (b.AllOrNothing b.position (some (wholeBytes v)) (b.writeWholeVector v) ↔
        stored = [] ∨ stored = wholeBytes v)) ∧
    (b.length + signatureSize ≤ b.capacity → b.Stores b.length b.signatureBytes b.sign) ∧
    (b.capacity < b.length + signatureSize → b.sign = { b with position := b.length }) ∧
    (b.AllOrNothing b.length (some b.signatureBytes) b.sign ↔
      b.length + signatureSize ≤ b.capacity ∨ b.position = b.length) ∧
    (b.Sound →
      (∀ item : Item, (Operation.write item).Addressable →
        Guarded.run b (.write item) = .ok (.nothing, item.write b)) ∧
      Guarded.run b .sign = .ok (.nothing, b.sign)) := by
  refine ⟨fun item => Item.allOrNothing_write, fun v => ?_, stores_sign, sign_of_full,
    allOrNothing_sign_iff b, fun hb => ⟨fun item hitem => ?_, ?_⟩⟩
  · have hparts := ne_nil_of_mem_wholeParts v
    have hwhole : b.writeWholeVector v = b.writeParts (wholeParts v) := rfl
    intro stored
    refine ⟨fun hnone => ?_, fun hsome => ?_, ?_⟩
    · rw [hwhole, writeParts_eq hparts, if_pos hnone]
    · rw [hwhole]
      exact stores_writeParts hparts hsome
    · have hiff := allOrNothing_writeParts_iff (b := b)
        (flatten_wholeParts v ▸ wholeBytes_ne_nil v) hparts
      rwa [flatten_wholeParts, ← hwhole] at hiff
  · obtain ⟨hguarded, -⟩ := safe_writeItem hitem b hb
    simp only [Guarded.run, hguarded, Guard.ok_bind]
    rfl
  · obtain ⟨hguarded, -⟩ := safe_sign b hb
    simp only [Guarded.run, hguarded, Guard.ok_bind]
    rfl

/-- With room for one octet the second integer part is stored where the first did not fit, and a
full buffer that is rewound and signed has its cursor at the end again. -/
theorem whole_vector_torn :
    let v : Vector3 := ⟨⟨0x42800000⟩, ⟨0x3F800000⟩, ⟨0⟩⟩
    ((empty 1).writeWholeVector v).contents = [2] ∧
      ¬ (empty 1).AllOrNothing 0 (some (wholeBytes v)) ((empty 1).writeWholeVector v) ∧
      ¬ (ofBytes [1, 2]).AllOrNothing 2 (some (ofBytes [1, 2]).signatureBytes)
        (ofBytes [1, 2]).sign := by
  intro v
  have htaken : taken ((empty 1).capacity - (empty 1).position) (wholeParts v) = [2] := by
    decide +kernel
  have hwhole : wholeBytes v = [128, 1, 2, 0] := by decide +kernel
  obtain ⟨-, hvector, -⟩ := writes_all_or_nothing_exact (empty 1)
  obtain ⟨-, -, -, -, hsign, -⟩ := writes_all_or_nothing_exact (ofBytes [1, 2])
  obtain ⟨-, -, hiff⟩ := hvector v
  refine ⟨by decide +kernel, fun hall => ?_, fun hall => ?_⟩
  · have hstored := hiff.mp hall
    rw [htaken, hwhole] at hstored
    revert hstored
    decide
  · exact absurd (hsign.mp hall) (by decide)

end AllWrites

end Buffer
end GameLink
