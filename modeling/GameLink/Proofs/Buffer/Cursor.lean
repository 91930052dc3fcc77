import GameLink.Buffer.Bit
import Mathlib.Data.List.Basic

/-!
# Octets behind the cursor

What is written is put at the cursor, what is read is taken from there; writes that follow
one another join up, and so do reads.

**Results.**
* `write_write`: two writes are one write of both.
* `Before.read?_eq`: octets behind the cursor are read, and the cursor moves past them.
* `Before.of_write`: what was written from the start is behind the cursor at the start.
-/

namespace GameLink
namespace Buffer

variable {b : Buffer}

theorem take_remaining (b : Buffer) :
    (b.storage.drop b.position).take b.remaining = b.unread := by
  rw [remaining, ← List.drop_take, unread, contents]

/-- The octets behind the cursor. -/
structure Before (b : Buffer) (bs : Bytes) : Prop where
  position_le : b.position ≤ b.length
  unread : b.unread = bs

@[simp] theorem advance_advance (b : Buffer) (m n : Nat) :
    (b.advance m).advance n = b.advance (m + n) := by
  simp only [advance, Nat.add_assoc]

namespace Before

variable {bs rest : Bytes}

theorem position_add_le (h : b.Before (bs ++ rest)) :
    b.position + bs.length ≤ b.length := by
  have hlength := congrArg List.length h.unread
  have hle := h.position_le
  simp only [Buffer.unread, Buffer.contents, List.length_drop, List.length_take,
    List.length_append] at hlength
  omega

theorem holds (h : b.Before (bs ++ rest)) : b.holds bs.length = true :=
  decide_eq_true h.position_add_le

theorem upcoming (h : b.Before (bs ++ rest)) : b.upcoming bs.length = bs := by
  have hroom := h.position_add_le
  have hmin : min bs.length b.remaining = bs.length := by
    rw [remaining]
    omega
  rw [Buffer.upcoming, ← hmin, ← List.take_take, take_remaining, h.unread, List.take_left]

/-- Octets behind the cursor are read. -/
theorem read?_eq (h : b.Before (bs ++ rest)) :
    b.read? bs.length = (some bs, b.advance bs.length) := by
  rw [read?, if_pos h.holds, h.upcoming]

theorem advance (h : b.Before (bs ++ rest)) : (b.advance bs.length).Before rest where
  position_le := h.position_add_le
  unread := by
    have hunread := h.unread
    simp only [Buffer.unread, Buffer.contents] at hunread
    simp only [Buffer.unread, Buffer.contents, Buffer.advance]
    rw [← List.drop_drop, hunread, List.drop_left]

theorem getD_storage {octet : UInt8} (h : b.Before (octet :: rest)) :
    b.position < b.length ∧ b.storage.getD b.position 0 = octet := by
  have hroom := (show b.Before ([octet] ++ rest) from h).position_add_le
  have hupcoming := (show b.Before ([octet] ++ rest) from h).upcoming
  refine ⟨hroom, ?_⟩
  have hget := congrArg (List.getD · 0 0) hupcoming
  simpa [Buffer.upcoming, List.getD_eq_getElem?_getD] using hget

theorem readU8_eq {octet : UInt8} (h : b.Before (octet :: rest)) :
    b.readU8 = (octet, b.advance 1) := by
  have hread : b.read? 1 = (some [octet], b.advance 1) :=
    (show b.Before ([octet] ++ rest) from h).read?_eq
  simp [readU8, readNat, hread, Bytes.toNat]

/-- If anything is left to read, the cursor is in front of the mark. -/
theorem of_unread {octet : UInt8} (h : b.unread = octet :: rest) : b.Before (octet :: rest) := by
  refine ⟨?_, h⟩
  have hlength := congrArg List.length h
  simp only [Buffer.unread, Buffer.contents, List.length_drop, List.length_take,
    List.length_cons] at hlength
  omega

end Before

/-- A reader that takes certain octets for a value wherever they stand. -/
def Reads {α : Type} (read : Buffer → α × Buffer) (bs : Bytes) (value : α) : Prop :=
  ∀ b rest, b.Before (bs ++ rest) → read b = (value, b.advance bs.length)

namespace Reads

variable {α β : Type} {read : Buffer → α × Buffer} {bs : Bytes} {value : α}

theorem map
    (h : Reads read bs value) (f : α → β) :
    Reads (fun b => (read b).map f id) bs (f value) := by
  intro b rest hb
  simp only [h b rest hb, Prod.map, id]

end Reads

/-- What a write that fits does. -/
theorem write_of_fits
    {bs : Bytes} (h : b.fits bs.length = true) :
    b.write bs =
      { b with
        storage := b.storage.take b.position ++ bs ++ b.storage.drop (b.position + bs.length)
        position := b.position + bs.length
        length := max b.length (b.position + bs.length) } := by
  rw [write, if_pos h]

theorem position_write
    {bs : Bytes} (h : b.fits bs.length = true) :
    (b.write bs).position = b.position + bs.length := by
  rw [write_of_fits h]

theorem length_write
    {bs : Bytes} (h : b.fits bs.length = true) :
    (b.write bs).length = max b.length (b.position + bs.length) := by
  rw [write_of_fits h]

theorem fits_iff (b : Buffer) (n : Nat) : b.fits n = true ↔ b.position + n ≤ b.capacity :=
  decide_eq_true_iff

theorem length_take_append
    {bs : Bytes} (h : b.fits bs.length = true) :
    (b.storage.take b.position ++ bs).length = b.position + bs.length := by
  have hroom := (fits_iff b _).mp h
  rw [capacity] at hroom
  rw [List.length_append, List.length_take]
  omega

theorem position_le_length_write
    {bs : Bytes} (h : b.fits bs.length = true) :
    (b.write bs).position ≤ (b.write bs).length := by
  rw [position_write h, length_write h]
  exact Nat.le_max_right _ _

theorem fits_left
    {bs cs : Bytes} (h : b.fits (bs ++ cs).length = true) : b.fits bs.length = true := by
  rw [fits_iff, List.length_append] at h
  rw [fits_iff]
  omega

/-- What fits behind a write. -/
theorem fits_write
    {bs cs : Bytes} (h : b.fits (bs ++ cs).length = true) :
    (b.write bs).fits cs.length = true := by
  rw [fits_iff, capacity_write, position_write (fits_left h), Nat.add_assoc,
    ← List.length_append]
  exact (fits_iff b _).mp h

/-- A storage with octets in the place of those that stood there. -/
def splice (s : Bytes) (place : Nat) (bs : Bytes) : Bytes :=
  s.take place ++ bs ++ s.drop (place + bs.length)

theorem splice_splice {s bs : Bytes} {place : Nat} (h : place ≤ s.length) (cs : Bytes) :
    splice (splice s place bs) (place + bs.length) cs = splice s place (bs ++ cs) := by
  have hstart : (s.take place ++ bs).length = place + bs.length := by
    rw [List.length_append, List.length_take, Nat.min_eq_left h]
  simp only [splice]
  rw [List.take_left' hstart, ← List.drop_drop, List.drop_left' hstart, List.drop_drop]
  simp only [List.length_append, List.append_assoc, Nat.add_assoc]

/-- Two writes are one write of both. -/
theorem write_write
    {bs cs : Bytes} (h : b.fits (bs ++ cs).length = true) :
    (b.write bs).write cs = b.write (bs ++ cs) := by
  have hfirst := fits_left h
  have hsecond := fits_write h
  have hstart : b.position ≤ b.storage.length :=
    Nat.le_trans (Nat.le_add_right _ _) ((fits_iff b _).mp hfirst)
  have hjoined : splice (splice b.storage b.position bs) (b.position + bs.length) cs =
      splice b.storage b.position (bs ++ cs) :=
    splice_splice hstart cs
  have hmax : max (max b.length (b.position + bs.length)) (b.position + bs.length + cs.length) =
      max b.length (b.position + bs.length + cs.length) := by
    omega
  rw [write_of_fits hsecond, write_of_fits hfirst, write_of_fits h]
  simp only [splice, List.length_append, Nat.add_assoc] at hjoined hmax ⊢
  rw [hjoined, hmax]

/-- Nothing written is nothing done. -/
theorem write_nil (h : b.position ≤ b.length) (hfits : b.fits 0 = true) :
    b.write [] = b := by
  have hmax : max b.length (b.position + 0) = b.length := by omega
  rw [write_of_fits hfits, List.length_nil, hmax, Nat.add_zero, List.append_nil,
    List.take_append_drop]

/-- What was written from the start is behind the cursor at the start. -/
theorem Before.of_write
    {bs : Bytes} (hposition : b.position = 0) (hlength : b.length = 0)
    (h : b.fits bs.length = true) :
    (b.write bs).contents = bs ∧ (b.write bs).length = bs.length ∧
      ((b.write bs).seek 0).Before bs := by
  have hwritten : (b.write bs).length = bs.length := by
    rw [length_write h, hposition, hlength, Nat.zero_add, Nat.zero_max]
  have hcontents : (b.write bs).contents = bs := by
    rw [contents, hwritten, storage_write h, hposition, List.take_zero, List.nil_append,
      List.take_left]
  refine ⟨hcontents, hwritten, ?_, ?_⟩
  · simp only [seek, Nat.zero_min, Nat.zero_le]
  · have hunread : ((b.write bs).seek 0).unread = (b.write bs).contents := by
      simp only [Buffer.unread, seek, contents, Nat.zero_min, List.drop_zero]
    exact hunread.trans hcontents

end Buffer
end GameLink
